import ConfigContract.OrderedMap
import ConfigContract.Text.Glyph
import ConfigContract.Text.Split

/-!
A tree of directories and files, as it stands at one moment.
-/

namespace ConfigContract

inductive FileFault where
  | missing
  | present
  | notDirectory
  | isDirectory
  | nameTooLong
  /-- A path holds the character with the number zero. -/
  | zeroInPath
deriving DecidableEq, Repr

def FileFault.message : FileFault → String
  | .missing => "No such file or directory (os error 2)"
  | .present => "File exists (os error 17)"
  | .notDirectory => "Not a directory (os error 20)"
  | .isDirectory => "Is a directory (os error 21)"
  | .nameTooLong => "File name too long (os error 36)"
  | .zeroInPath => "file name contained an unexpected NUL byte"

inductive Entry where
  | file (content : Text)
  | directory
deriving DecidableEq, Repr

/-- The names from the root of the tree. -/
abbrev Place := List String

structure Disk where
  workingDirectory : Place
  entries : OrderedMap Place Entry

def pathParts (path : String) : List String := (splitAtChar '/' path.toList).map String.ofList

def isAbsolute (path : String) : Bool := path.toList.head? == some '/'

/-- A step that a path takes; steps are ordered as listed. -/
inductive PathStep where
  | root
  | current
  | parent
  | name (name : String)
deriving DecidableEq, Repr, Ord

/-- The steps of the names; a point counts only where the path starts. -/
def stepsOf : List String → List PathStep
  | [] => []
  | name :: rest =>
      if name.isEmpty || name == "." then stepsOf rest
      else (if name == ".." then .parent else .name name) :: stepsOf rest

def pathSteps (path : String) : List PathStep :=
  let parts := pathParts path
  let steps := stepsOf parts
  if isAbsolute path then .root :: steps
  else if parts.head? == some "." then .current :: steps
  else steps

def pathOrder (a b : String) : Ordering := compare (pathSteps a) (pathSteps b)

/-- A path below a directory; an absolute path stands for itself. -/
def joinPath (directory path : String) : String :=
  if isAbsolute path || directory.isEmpty then path
  else if directory.toList.getLast? == some '/' then directory ++ path
  else directory ++ "/" ++ path

def longestName : Nat := 255

def longestPath : Nat := 4095

def isTooLong (name : String) : Bool := longestName < name.utf8ByteSize

def pathFault? (path : String) : Option FileFault :=
  if path.toList.any fun c => c.toNat == 0 then some .zeroInPath
  else if path.isEmpty then some .missing
  else if longestPath < path.utf8ByteSize then some .nameTooLong
  else none

namespace Disk

/-- The root is a directory. -/
def entry? (disk : Disk) (place : Place) : Option Entry :=
  if place.isEmpty then some .directory else OrderedMap.get? place disk.entries

/-- Follows names from a place. Only a directory can be left by a name, be it a point or nothing. -/
def walk (disk : Disk) : Place → List String → Except FileFault Place
  | place, [] => .ok place
  | place, name :: rest =>
      match disk.entry? place with
      | none => .error .missing
      | some (.file _) => .error .notDirectory
      | some .directory =>
          if name.isEmpty || name == "." then walk disk place rest
          else if name == ".." then walk disk place.dropLast rest
          else if isTooLong name then .error .nameTooLong
          else
            match disk.entry? (place ++ [name]) with
            | none => .error .missing
            | some _ => walk disk (place ++ [name]) rest

def origin (disk : Disk) (path : String) : Place :=
  if isAbsolute path then [] else disk.workingDirectory

def locate (disk : Disk) (path : String) : Except FileFault Place :=
  match pathFault? path with
  | some fault => .error fault
  | none => disk.walk (disk.origin path) (pathParts path)

def read (disk : Disk) (path : String) : Except FileFault Text := do
  match disk.entry? (← disk.locate path) with
  | some (.file content) => return content
  | some .directory => throw .isDirectory
  | none => throw .missing

def isFile (disk : Disk) (path : String) : Bool :=
  match disk.read path with
  | .ok _ => true
  | .error _ => false

def isPresent (disk : Disk) (path : String) : Bool :=
  match disk.locate path with
  | .ok _ => true
  | .error _ => false

def isDirectory (disk : Disk) (path : String) : Bool :=
  match disk.locate path with
  | .ok place => disk.entry? place == some .directory
  | .error _ => false

def names (disk : Disk) (directory : String) : List String :=
  match disk.locate directory with
  | .error _ => []
  | .ok place =>
      disk.entries.filterMap fun (other, _) =>
        if other.dropLast == place && !other.isEmpty then other.getLast? else none

def tree (disk : Disk) (directory : String) : List String :=
  match disk.locate directory with
  | .error _ => []
  | .ok place =>
      disk.entries.filterMap fun (other, _) =>
        if place.isPrefixOf other && other != place then
          some ("/".intercalate (other.drop place.length))
        else none

def empty (workingDirectory : Place) : Disk where
  workingDirectory
  entries := (List.range workingDirectory.length).map fun count =>
    (workingDirectory.take (count + 1), .directory)

end Disk

end ConfigContract
