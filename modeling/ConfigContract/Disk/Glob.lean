import ConfigContract.Disk.Basic

/-!
Patterns for the paths of files. Within a name, `?` stands for a character, `*` for any characters,
and brackets for one of the characters between them; a name `**` stands for any number of
directories.
-/

namespace ConfigContract

structure CharRange where
  first : Char
  last : Char
deriving DecidableEq, Repr

def CharRange.contains (range : CharRange) (c : Char) : Bool := range.first ≤ c && c ≤ range.last

inductive Wildcard where
  | exactly (c : Char)
  | anyChar
  | anyChars
  | oneOf (ranges : List CharRange)
  | noneOf (ranges : List CharRange)
  | directories
deriving DecidableEq, Repr

inductive GlobReason where
  | stars
  | partialName
  | range
deriving DecidableEq, Repr

def GlobReason.message : GlobReason → String
  | .stars => "wildcards are either regular `*` or recursive `**`"
  | .partialName => "recursive wildcards must form a single path component"
  | .range => "invalid range pattern"

structure GlobFault where
  position : Nat
  reason : GlobReason
deriving DecidableEq, Repr

def GlobFault.message (fault : GlobFault) : String :=
  "Pattern syntax error near position " ++ toString fault.position ++ ": " ++ fault.reason.message

namespace Wildcard

/-- Single characters, and ranges written with a hyphen. -/
def ranges : List Char → List CharRange
  | [] => []
  | first :: '-' :: last :: rest => ⟨first, last⟩ :: ranges rest
  | c :: rest => ⟨c, c⟩ :: ranges rest

/-- The characters up to a closing bracket; the first one may be a bracket itself. -/
def untilBracket (first : Char) (rest : List Char) : Option (List CharRange × List Char) :=
  match rest.dropWhile (· != ']') with
  | [] => none
  | _ :: after => some (ranges (first :: rest.takeWhile (· != ']')), after)

def bracket : List Char → Option (Wildcard × List Char)
  | '!' :: first :: rest =>
      (untilBracket first rest).map fun (ranges, after) => (.noneOf ranges, after)
  | first :: rest =>
      if first = '!' then none
      else (untilBracket first rest).map fun (ranges, after) => (.oneOf ranges, after)
  | [] => none

theorem untilBracket_length {first : Char} {rest after : List Char} {ranges : List CharRange}
    (found : untilBracket first rest = some (ranges, after)) : after.length < rest.length := by
  unfold untilBracket at found
  have shorter := (List.dropWhile_suffix (l := rest) (· != ']')).length_le
  split at found
  · simp at found
  next dropped =>
    rw [dropped] at shorter
    simp only [Option.some.injEq, Prod.mk.injEq] at found
    obtain ⟨_, rfl⟩ := found
    simp only [List.length_cons] at shorter
    omega

theorem bracket_length {rest after : List Char} {wildcard : Wildcard}
    (found : bracket rest = some (wildcard, after)) : after.length < rest.length := by
  unfold bracket at found
  split at found
  · rw [Option.map_eq_some_iff] at found
    obtain ⟨⟨ranges, inner⟩, taken, same⟩ := found
    have shorter := untilBracket_length taken
    simp only [Prod.mk.injEq] at same
    obtain ⟨_, rfl⟩ := same
    simp only [List.length_cons]
    omega
  · split at found
    · simp at found
    · rw [Option.map_eq_some_iff] at found
      obtain ⟨⟨ranges, inner⟩, taken, same⟩ := found
      have shorter := untilBracket_length taken
      simp only [Prod.mk.injEq] at same
      obtain ⟨_, rfl⟩ := same
      simp only [List.length_cons]
      omega
  · simp at found

/-- Whether a name may start after a character; `none` is the start of the pattern. -/
def startsName : Option Char → Bool
  | none => true
  | some c => c == '/'

/-- The wildcards from a position on, where `previous` is the character before it. -/
def scan (position : Nat) (previous : Option Char) : List Char → Except GlobFault (List Wildcard)
  | [] => .ok []
  | '*' :: '*' :: '*' :: _ => .error ⟨position + 2, .stars⟩
  | '*' :: '*' :: rest =>
      if !startsName previous then .error ⟨position - 1, .partialName⟩
      else
        match rest with
        | [] => .ok [.directories]
        | c :: more =>
            if c = '/' then (scan (position + 3) (some c) more).map (.directories :: ·)
            else .error ⟨position + 2, .partialName⟩
  | '*' :: rest => (scan (position + 1) (some '*') rest).map (.anyChars :: ·)
  | '?' :: rest => (scan (position + 1) (some '?') rest).map (.anyChar :: ·)
  | '[' :: rest =>
      match found : bracket rest with
      | none => .error ⟨position, .range⟩
      | some (wildcard, after) =>
          have := bracket_length found
          (scan (position + 1 + (rest.length - after.length)) (some ']') after).map (wildcard :: ·)
  | c :: rest => (scan (position + 1) (some c) rest).map (.exactly c :: ·)
termination_by chars => chars.length

end Wildcard

/-- What comes of holding a pattern against a text. -/
inductive Meeting where
  | fits
  | differs
  /-- The text is over too early; so is every end of it. -/
  | runsOut
deriving DecidableEq, Repr

/-- Tries the whole text and then its ends, until one does more than differ. -/
def firstMeeting (meets : List Char → Meeting) : List Char → Meeting
  | [] => meets []
  | c :: rest =>
      match meets (c :: rest) with
      | .differs => firstMeeting meets rest
      | settled => settled

abbrev NamePattern := List Wildcard

def Wildcard.admits : Wildcard → Char → Bool
  | .exactly expected, c => expected == c
  | .oneOf ranges, c => ranges.any (CharRange.contains · c)
  | .noneOf ranges, c => !ranges.any (CharRange.contains · c)
  | _, _ => true

namespace NamePattern

/-- Where the rest of a pattern runs out on a text it cannot fit a shorter end, so a `*` before it
stops there: only the last `*` that was reached is ever tried at another end. -/
def meets : NamePattern → List Char → Meeting
  | [], [] => .fits
  | [], _ :: _ => .differs
  | .anyChars :: rest, name => firstMeeting (meets rest) name
  | .directories :: rest, name => meets rest name
  | _ :: _, [] => .runsOut
  | wildcard :: rest, c :: name => if wildcard.admits c then meets rest name else .differs

def accepts (pattern : NamePattern) (name : String) : Bool := meets pattern name.toList == .fits

/-- The only name that fits, if the pattern has no wildcard. -/
def literal? : NamePattern → Option (List Char)
  | [] => some []
  | .exactly c :: rest => (literal? rest).map (c :: ·)
  | _ :: _ => none

def isDirectories (pattern : NamePattern) : Bool := pattern == [.directories]

/-- A pattern that starts with a point fits the names for a directory itself and the one above. -/
def reserved (pattern : NamePattern) : List String :=
  if pattern.head? == some (.exactly '.') then [".", ".."].filter pattern.accepts else []

end NamePattern

/-- A pattern for paths: one for each name, from the root of the tree or the working directory. -/
structure Glob where
  absolute : Bool
  names : List NamePattern
  directoryOnly : Bool
deriving DecidableEq, Repr

namespace Glob

/-- The names of a pattern; one slash at the end adds none. -/
def namesOf (chars : List Char) : List (List Char) :=
  let parts := splitAtChar '/' chars
  if parts.getLast? == some [] then parts.dropLast else parts

/-- A pattern has to make sense as a whole, and then name by name. -/
def parse (pattern : String) : Except GlobFault Glob := do
  let chars := pattern.toList
  let _ ← Wildcard.scan 0 none chars
  let absolute := isAbsolute pattern
  let names ← (namesOf (if absolute then chars.tail else chars)).mapM (Wildcard.scan 0 none)
  return { absolute, names, directoryOnly := chars.getLast? == some '/' }

/-- Whether a path is a pattern. -/
def isPattern (path : String) : Bool := path.toList.any fun c => "*?[\x7b".toList.contains c

/-- A path below a directory; the working directory goes without saying. -/
def below (directory path : String) : String :=
  if pathSteps directory = [.current] then path else joinPath directory path

def lastName (path : String) : String := (pathParts path).getLast?.getD ""

def follow (disk : Disk) : List NamePattern → String → List String
  | [], path => [path]
  | pattern :: rest, path =>
      if pattern.isDirectories then
        let inner := (disk.tree path).map (below path)
        match rest with
        | [] => inner.filter disk.isDirectory
        | next :: more =>
            if next.isDirectories then follow disk (next :: more) path
            else
              (inner.filter fun found => next.accepts (lastName found)).flatMap (follow disk more)
      else
        match pattern.literal? with
        | some chars =>
            let name := String.ofList chars
            let next := below path name
            if name == "." || name == ".." then
              if disk.isDirectory path then follow disk rest next else []
            else if disk.isPresent next then follow disk rest next
            else []
        | none =>
            let listed := ((disk.names path).filter pattern.accepts).map (below path)
            let reserved :=
              if disk.isDirectory path then pattern.reserved.map (joinPath path) else []
            (listed ++ reserved).flatMap (follow disk rest)

def expand (disk : Disk) (glob : Glob) : List String :=
  let found := follow disk glob.names (if glob.absolute then "/" else ".")
  let kept := if glob.directoryOnly then found.filter disk.isDirectory else found
  kept.mergeSort fun a b => (pathOrder a b).isLE

end Glob

end ConfigContract
