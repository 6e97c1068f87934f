import ConfigContract.Json.Basic

/-!
The text of a JSON value, on one line or indented.
-/

namespace ConfigContract

/-- What stands before each item of a container at a depth, and between a key and its value. -/
structure Layout where
  newline : Nat → List Char
  colon : List Char

namespace Layout

def compact : Layout := ⟨fun _ => [], [':']⟩

/-- Two spaces for each level. -/
def pretty : Layout := ⟨fun depth => '\n' :: List.replicate (2 * depth) ' ', [':', ' ']⟩

end Layout

namespace Json

/-- A control character by its number, as in `\u001f`. -/
def escapeByNumber (c : Char) : List Char :=
  ['\\', 'u', '0', '0', Nat.digitChar (c.toNat / 16), Nat.digitChar (c.toNat % 16)]

/-- Only quotes, backslashes and control characters are escaped. -/
def escape (c : Char) : List Char :=
  if c = '"' then ['\\', '"']
  else if c = '\\' then ['\\', '\\']
  else if c.toNat = 8 then ['\\', 'b']
  else if c.toNat = 9 then ['\\', 't']
  else if c.toNat = 10 then ['\\', 'n']
  else if c.toNat = 12 then ['\\', 'f']
  else if c.toNat = 13 then ['\\', 'r']
  else if c.toNat < 32 then escapeByNumber c
  else [c]

def writeString (s : String) : List Char := '"' :: (s.toList.flatMap escape ++ ['"'])

def writeInteger (i : Int) : List Char :=
  (if i < 0 then ['-'] else []) ++ Nat.toDigits 10 i.natAbs

def writeNumber : JsonNumber → List Char
  | .integer i => writeInteger i
  | .float x => DecimalFormat.standard.write x

mutual

def write (layout : Layout) (depth : Nat) : Json → List Char
  | .null => ['n', 'u', 'l', 'l']
  | .bool true => ['t', 'r', 'u', 'e']
  | .bool false => ['f', 'a', 'l', 's', 'e']
  | .number n => writeNumber n
  | .string s => writeString s
  | .array [] => ['[', ']']
  | .array (item :: rest) =>
      '[' :: (layout.newline (depth + 1) ++ (write layout (depth + 1) item ++
        (writeItems layout (depth + 1) rest ++ (layout.newline depth ++ [']']))))
  | .object [] => ['{', '}']
  | .object ((key, value) :: rest) =>
      '{' :: (layout.newline (depth + 1) ++ (writeString key ++ (layout.colon ++
        (write layout (depth + 1) value ++
          (writeMembers layout (depth + 1) rest ++ (layout.newline depth ++ ['}']))))))

def writeItems (layout : Layout) (depth : Nat) : List Json → List Char
  | [] => []
  | item :: rest =>
      ',' :: (layout.newline depth ++ (write layout depth item ++ writeItems layout depth rest))

def writeMembers (layout : Layout) (depth : Nat) : List (String × Json) → List Char
  | [] => []
  | (key, value) :: rest =>
      ',' :: (layout.newline depth ++ (writeString key ++ (layout.colon ++
        (write layout depth value ++ writeMembers layout depth rest))))

end

def render (layout : Layout) (json : Json) : String := String.ofList (write layout 0 json)

end Json

end ConfigContract
