import ConfigContract.Text.Unprintable

/-!
The quoted form in which messages show a text that somebody wrote: between double quotes, with an
escape for a quote, a backslash, and every character that would not show as itself.
-/

namespace ConfigContract.Quoted

/-- A character by its number, as in `\u{301}`. -/
def byNumber (c : Char) : List Char :=
  "\\u".toList ++ '{' :: Nat.toDigits 16 c.toNat ++ ['}']

def escape (c : Char) : List Char :=
  if c = '"' then ['\\', '"']
  else if c = '\\' then ['\\', '\\']
  else if c = '\t' then ['\\', 't']
  else if c = '\r' then ['\\', 'r']
  else if c = '\n' then ['\\', 'n']
  else if c.toNat = 0 then ['\\', '0']
  else if isUnprintable c then byNumber c
  else [c]

def quote (s : String) : String :=
  String.ofList ('"' :: s.toList.flatMap escape ++ ['"'])

end ConfigContract.Quoted
