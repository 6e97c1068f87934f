import ConfigContract.Json.Fault
import ConfigContract.Text.Glyph

/-!
Reading the tokens of a JSON text from its front: white space, words, strings and numbers. Each
function returns what it read and the rest of the text.
-/

namespace ConfigContract.Token

/-- The four white-space characters of JSON. -/
def isSpace : Glyph → Bool
  | .char c => c == ' ' || c == '\n' || c == '\t' || c == '\r'
  | .stray _ => false

def skipSpace (text : Text) : Text := text.dropWhile isSpace

/-- The remaining letters of `null`, `true` or `false`. -/
def word : List Char → Text → Except Reason Text
  | [], text => .ok text
  | _ :: _, [] => .error .endInValue
  | c :: letters, glyph :: rest =>
      if glyph = .char c then word letters rest else .error .expectedIdent

/-! Strings -/

def hexDigit? (c : Char) : Option Nat :=
  if '0' ≤ c ∧ c ≤ '9' then some (c.toNat - 48)
  else if 'a' ≤ c ∧ c ≤ 'f' then some (c.toNat - 87)
  else if 'A' ≤ c ∧ c ≤ 'F' then some (c.toNat - 55)
  else none

def hexQuad? : Glyph → Glyph → Glyph → Glyph → Option Nat
  | .char a, .char b, .char c, .char d => do
      let a ← hexDigit? a
      let b ← hexDigit? b
      let c ← hexDigit? c
      let d ← hexDigit? d
      return ((a * 16 + b) * 16 + c) * 16 + d
  | _, _, _, _ => none

/-- Fewer than four characters are left: the text may still hold the four bytes asked for. -/
def shortQuad (text : Text) : Reason :=
  if 4 ≤ text.byteLength then .invalidEscape else .endInString

def simpleEscape? (c : Char) : Option Char :=
  if c = '"' ∨ c = '\\' ∨ c = '/' then some c
  else if c = 'b' then some (Char.ofNat 8)
  else if c = 'f' then some (Char.ofNat 12)
  else if c = 'n' then some '\n'
  else if c = 'r' then some '\r'
  else if c = 't' then some '\t'
  else none

def isLeading (unit : Nat) : Bool := 0xD800 ≤ unit && unit ≤ 0xDBFF

def isTrailing (unit : Nat) : Bool := 0xDC00 ≤ unit && unit ≤ 0xDFFF

def paired (leading trailing : Nat) : Char :=
  Char.ofNat ((leading - 0xD800) * 1024 + (trailing - 0xDC00) + 0x10000)

def withoutTrailing : Text → Reason
  | [] => .endInString
  | .char '\\' :: rest =>
      match rest with
      | [] => .endInString
      | .char 'u' :: digits => shortQuad digits
      | _ => .incompleteSurrogatePair
  | _ => .incompleteSurrogatePair

/-- The content of a string up to its closing quote, escapes resolved. -/
def content : Text → Except Reason (Text × Text)
  | [] => .error .endInString
  | .stray byte :: rest => keep (.stray byte) (content rest)
  | .char c :: rest =>
      if c = '"' then .ok ([], rest)
      else if c = '\\' then
        match rest with
        | [] => .error .endInString
        | .stray _ :: _ => .error .invalidEscape
        | .char kind :: rest =>
            if kind = 'u' then
              match rest with
              | a :: b :: c :: d :: rest =>
                  match hexQuad? a b c d with
                  | none => .error .invalidEscape
                  | some unit =>
                      if isTrailing unit then .error .loneSurrogate
                      else if isLeading unit then
                        match rest with
                        | .char '\\' :: .char 'u' :: a :: b :: c :: d :: rest =>
                            match hexQuad? a b c d with
                            | none => .error .invalidEscape
                            | some trailing =>
                                if isTrailing trailing then
                                  keep (.char (paired unit trailing)) (content rest)
                                else .error .loneSurrogate
                        | rest => .error (withoutTrailing rest)
                      else keep (.char (Char.ofNat unit)) (content rest)
              | short => .error (shortQuad short)
            else
              match simpleEscape? kind with
              | some c => keep (.char c) (content rest)
              | none => .error .invalidEscape
      else if c < ' ' then .error .controlCharacter
      else keep (.char c) (content rest)
where
  keep (glyph : Glyph) : Except Reason (Text × Text) → Except Reason (Text × Text)
    | .ok (glyphs, rest) => .ok (glyph :: glyphs, rest)
    | .error reason => .error reason

/-- A string after its opening quote; its bytes have to spell characters. -/
def string (text : Text) : Except Reason (String × Text) :=
  match content text with
  | .error reason => .error reason
  | .ok (glyphs, rest) =>
      match glyphs.toString? with
      | some s => .ok (s, rest)
      | none => .error .invalidCodePoint

/-- Passes over a string after its opening quote; surrogates and stray bytes do not matter. -/
def skipString : Text → Except Reason Text
  | [] => .error .endInString
  | .stray _ :: rest => skipString rest
  | .char c :: rest =>
      if c = '"' then .ok rest
      else if c = '\\' then
        match rest with
        | [] => .error .endInString
        | .stray _ :: _ => .error .invalidEscape
        | .char kind :: rest =>
            if kind = 'u' then
              match rest with
              | a :: b :: c :: d :: rest =>
                  if (hexQuad? a b c d).isSome then skipString rest else .error .invalidEscape
              | short => .error (shortQuad short)
            else if (simpleEscape? kind).isSome then skipString rest
            else .error .invalidEscape
      else if c < ' ' then .error .controlCharacter
      else skipString rest

/-! Numbers -/

def digit? : Glyph → Option Nat
  | .char c => if '0' ≤ c ∧ c ≤ '9' then some (c.toNat - 48) else none
  | .stray _ => none

def digits : Text → List Nat × Text
  | [] => ([], [])
  | glyph :: rest =>
      match digit? glyph with
      | some d => let (more, rest) := digits rest; (d :: more, rest)
      | none => ([], glyph :: rest)

def startsWithE : Text → Bool
  | .char c :: _ => c == 'e' || c == 'E'
  | _ => false

def greatestUnsigned : Nat := UInt64.size - 1

/-- Appends digits as long as the number fits 64 bits; returns the number of digits left over. -/
def accumulate (significand : Nat) : List Nat → Nat × Nat
  | [] => (significand, 0)
  | d :: rest =>
      if significand * 10 + d ≤ greatestUnsigned then accumulate (significand * 10 + d) rest
      else (significand, rest.length + 1)

def decimal (negative : Bool) (significand : Nat) (exponent : Int) :
    Except Reason JsonNumber :=
  match Binary64.ofDecimal negative significand exponent with
  | some x => .ok (.float x)
  | none => .error .numberOutOfRange

def greatestExponent : Nat := 2147483647

def exponentPart (negative : Bool) (significand : Nat) (exponent : Int) (text : Text) :
    Except Reason (JsonNumber × Text) :=
  let (below, text) :=
    match text with
    | .char '+' :: rest => (false, rest)
    | .char '-' :: rest => (true, rest)
    | text => (false, text)
  match digits text with
  | ([], []) => .error .endInValue
  | ([], _ :: _) => .error .invalidNumber
  | (ds, rest) =>
      let power := ds.foldl (fun n d => n * 10 + d) 0
      if greatestExponent < power then
        if significand ≠ 0 ∧ ¬ below then .error .numberOutOfRange
        else .ok (.float (.zero negative), rest)
      else do
        let x ← decimal negative significand (if below then exponent - power else exponent + power)
        return (x, rest)

def fractionPart (negative : Bool) (significand : Nat) (exponent : Int) (text : Text) :
    Except Reason (JsonNumber × Text) :=
  match digits text with
  | ([], []) => .error .endInValue
  | ([], _ :: _) => .error .invalidNumber
  | (ds, rest) =>
      let (significand, ignored) := accumulate significand ds
      let exponent := exponent - (ds.length - ignored : Nat)
      if startsWithE rest then exponentPart negative significand exponent rest.tail
      else do
        let x ← decimal negative significand exponent
        return (x, rest)

/-- An integer of 64 bits, signed or unsigned, or else the floating-point number near it. -/
def wholeNumber (negative : Bool) (significand : Nat) : JsonNumber :=
  if ¬ negative then .integer significand
  else if 0 < significand ∧ significand ≤ UInt64.size / 2 then .integer (-significand)
  else .float ((Binary64.nearest true significand 1).getD (.zero true))

def afterWhole (negative : Bool) (significand ignored : Nat) (text : Text) :
    Except Reason (JsonNumber × Text) :=
  match text with
  | .char '.' :: rest => fractionPart negative significand ignored rest
  | text =>
      if startsWithE text then exponentPart negative significand ignored text.tail
      else if ignored = 0 then .ok (wholeNumber negative significand, text)
      else do
        let x ← decimal negative significand ignored
        return (x, text)

/-- A number after its sign. A zero at the front stands alone. -/
def number (negative : Bool) (text : Text) : Except Reason (JsonNumber × Text) :=
  match digits text with
  | ([], []) => .error .endInValue
  | ([], _ :: _) => .error .invalidNumber
  | (0 :: _ :: _, _) => .error .invalidNumber
  | (ds, rest) =>
      let (significand, ignored) := accumulate 0 ds
      afterWhole negative significand ignored rest

def skipDigits (text : Text) : Except Reason Text :=
  match digits text with
  | ([], _) => .error .invalidNumber
  | (_, rest) => .ok rest

def skipExponent (text : Text) : Except Reason Text :=
  if startsWithE text then
    match text.tail with
    | .char '+' :: rest => skipDigits rest
    | .char '-' :: rest => skipDigits rest
    | rest => skipDigits rest
  else .ok text

/-- Passes over a number after its sign, whatever its size. -/
def skipNumber (text : Text) : Except Reason Text :=
  match digits text with
  | ([], _) => .error .invalidNumber
  | (0 :: _ :: _, _) => .error .invalidNumber
  | (_, .char '.' :: rest) => do skipExponent (← skipDigits rest)
  | (_, rest) => skipExponent rest

end ConfigContract.Token
