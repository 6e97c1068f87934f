import ConfigContract.Text.Blank

/-!
Versions of providers: `major.minor.patch`, optionally with a prerelease. Build metadata is
accepted and ignored.
-/

namespace ConfigContract

structure Version where
  major : UInt64
  minor : UInt64
  patch : UInt64
  pre : Option String := none
deriving DecidableEq, Repr

namespace Version

def isDigit (c : Char) : Bool := '0' ≤ c && c ≤ '9'

/-- The characters of a prerelease and of build metadata. -/
def isTagChar (c : Char) : Bool :=
  isDigit c || ('A' ≤ c && c ≤ 'Z') || ('a' ≤ c && c ≤ 'z') || c == '.' || c == '-'

def numeral? (digits : List Char) : Option UInt64 :=
  let value := digits.foldl (fun n c => n * 10 + (c.toNat - 48)) 0
  if digits.isEmpty ∨ UInt64.size ≤ value then none else some (UInt64.ofNat value)

/-- The segments after a first one: a point and a numeral each, at most the given number. -/
def segments? : Nat → List Char → Option (List UInt64 × List Char)
  | count + 1, '.' :: rest => do
      let segment ← numeral? (rest.takeWhile isDigit)
      let (more, rest) ← segments? count (rest.dropWhile isDigit)
      return (segment :: more, rest)
  | _, rest => some ([], rest)

/-- A tag after its mark: at least one character. -/
def tag? (rest : List Char) : Option (String × List Char) :=
  let chars := rest.takeWhile isTagChar
  if chars.isEmpty then none else some (String.ofList chars, rest.dropWhile isTagChar)

def prerelease? : List Char → Option (Option String × List Char)
  | '-' :: rest => (tag? rest).map fun (pre, rest) => (some pre, rest)
  | rest => some (none, rest)

/-- Passes over build metadata; nothing may follow. -/
def buildOnly : List Char → Bool
  | [] => true
  | '+' :: rest => !rest.isEmpty && rest.all isTagChar
  | _ => false

def dropMark : List Char → List Char
  | 'v' :: rest => rest
  | s => s

/-- A version, and how many numeric segments were written. -/
def parseWithPrecision (input : String) : Option (Version × Nat) := do
  let s := dropMark (trimBlank input.toList)
  let major ← numeral? (s.takeWhile isDigit)
  let (segments, rest) ← segments? 2 (s.dropWhile isDigit)
  let (pre, rest) ← prerelease? rest
  if buildOnly rest then
    let version : Version :=
      { major, minor := segments.getD 0 0, patch := segments.getD 1 0, pre }
    some (version, 1 + segments.length)
  else none

def parse (input : String) : Option Version := Prod.fst <$> parseWithPrecision input

def render (version : Version) : String :=
  let release := s!"{version.major}.{version.minor}.{version.patch}"
  match version.pre with
  | none => release
  | some pre => release ++ "-" ++ pre

/-- A prerelease comes before its release; prereleases are ordered as texts. -/
def orderPre : Option String → Option String → Ordering
  | none, none => .eq
  | none, some _ => .gt
  | some _, none => .lt
  | some a, some b => compare a b

def order (a b : Version) : Ordering :=
  (compare a.major b.major).then
    ((compare a.minor b.minor).then ((compare a.patch b.patch).then (orderPre a.pre b.pre)))

def sort (versions : List Version) : List Version :=
  versions.mergeSort fun a b => (order a b).isLE

end Version

end ConfigContract
