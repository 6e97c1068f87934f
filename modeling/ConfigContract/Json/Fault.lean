import ConfigContract.Json.Printer
import ConfigContract.Text.Quoted

/-!
What can be wrong with a JSON text, and where.
-/

namespace ConfigContract

inductive Found where
  | null
  | boolean (value : Bool)
  | number (value : JsonNumber)
  | string (value : String)
  | map
  | sequence
  | unitVariant
deriving DecidableEq, Repr

namespace Found

def describe : Found → String
  | .null => "null"
  | .boolean value => "boolean `" ++ (if value then "true" else "false") ++ "`"
  | .number (.integer i) => "integer `" ++ String.ofList (Json.writeInteger i) ++ "`"
  | .number (.float x) =>
      "floating point `" ++ String.ofList (DecimalFormat.standard.write x) ++ "`"
  | .string value => "string " ++ Quoted.quote value
  | .map => "map"
  | .sequence => "sequence"
  | .unitVariant => "unit variant"

end Found

inductive Reason where
  | invalidType (found : Found) (expected : String)
  | invalidValue (found : Found) (expected : String)
  | invalidLength (length : Nat) (expected : String)
  | missingField (name : String)
  | duplicateField (name : String)
  | unknownVariant (name : String) (known : List String)
  | expectedValue
  | expectedIdent
  | expectedColon
  | expectedObjectComma
  | expectedListComma
  | keyNotString
  | trailingComma
  | trailingCharacters
  | endInValue
  | endInList
  | endInObject
  | endInString
  | invalidNumber
  | numberOutOfRange
  | invalidEscape
  | incompleteSurrogatePair
  | loneSurrogate
  | invalidCodePoint
  | controlCharacter
  | recursionLimit
deriving DecidableEq, Repr

namespace Reason

def message : Reason → String
  | .invalidType found expected => "invalid type: " ++ found.describe ++ ", expected " ++ expected
  | .invalidValue found expected => "invalid value: " ++ found.describe ++ ", expected " ++ expected
  | .invalidLength length expected => s!"invalid length {length}, expected " ++ expected
  | .missingField name => "missing field `" ++ name ++ "`"
  | .duplicateField name => "duplicate field `" ++ name ++ "`"
  | .unknownVariant name known =>
      "unknown variant `" ++ name ++ "`, expected one of " ++
        ", ".intercalate (known.map fun variant => "`" ++ variant ++ "`")
  | .expectedValue => "expected value"
  | .expectedIdent => "expected ident"
  | .expectedColon => "expected `:`"
  | .expectedObjectComma => "expected `,` or `\x7d`"
  | .expectedListComma => "expected `,` or `]`"
  | .keyNotString => "key must be a string"
  | .trailingComma => "trailing comma"
  | .trailingCharacters => "trailing characters"
  | .endInValue => "EOF while parsing a value"
  | .endInList => "EOF while parsing a list"
  | .endInObject => "EOF while parsing an object"
  | .endInString => "EOF while parsing a string"
  | .invalidNumber => "invalid number"
  | .numberOutOfRange => "number out of range"
  | .invalidEscape => "invalid escape"
  | .incompleteSurrogatePair => "unexpected end of hex escape"
  | .loneSurrogate => "lone leading surrogate in hex escape"
  | .invalidCodePoint => "invalid unicode code point"
  | .controlCharacter => "control character (\\u0000-\\u001F) found while parsing a string"
  | .recursionLimit => "recursion limit exceeded"

end Reason

/-- One step from a JSON value to a part of it; `unknown` where a key could not be read. -/
inductive Step where
  | key (name : String)
  | index (position : Nat)
  | unknown
deriving DecidableEq, Repr

namespace Step

def describe : Step → String
  | .key name => name
  | .index position => s!"[{position}]"
  | .unknown => "?"

/-- Keys are set off by a point, indexes are not. -/
def continued : Step → String
  | .index position => s!"[{position}]"
  | step => "." ++ step.describe

end Step

structure Fault where
  trail : List Step
  reason : Reason
deriving DecidableEq, Repr

namespace Fault

def here (reason : Reason) : Fault := ⟨[], reason⟩

def within (step : Step) (fault : Fault) : Fault := ⟨step :: fault.trail, fault.reason⟩

def location (fault : Fault) : String :=
  match fault.trail with
  | [] => "."
  | first :: rest => first.describe ++ String.join (rest.map Step.continued)

def message (fault : Fault) : String :=
  "at JSON path " ++ fault.location ++ " → " ++ fault.reason.message

end Fault

end ConfigContract
