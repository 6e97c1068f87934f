import ConfigContract.Disk.Basic

/-!
New directories, written files and removals. A change stops at the first fault, and what it did
before that stays.
-/

namespace ConfigContract

abbrev DiskChange (α : Type) := ExceptT FileFault (StateM Disk) α

/-- The names of a path from the last one back; slashes at its end do not count. -/
def namesBack (path : String) : List String := (pathParts path).reverse.dropWhile String.isEmpty

/-- Whether a name leads to a directory that is there without it. -/
def isDots (name : String) : Bool := name == "." || name == ".."

namespace Disk

/-- Where the last name of a path stands, and that name. Without a name the path is the root. -/
def seat? (disk : Disk) (path : String) : Except FileFault (Option (Place × String)) := do
  if let some fault := pathFault? path then throw fault
  match namesBack path with
  | [] => return none
  | name :: above =>
      let place ← disk.walk (disk.origin path) above.reverse
      match disk.entry? place with
      | some .directory => return some (place, name)
      | some (.file _) => throw .notDirectory
      | none => throw .missing

def insert (disk : Disk) (place : Place) (entry : Entry) : Disk :=
  { disk with entries := OrderedMap.insert place entry disk.entries }

def makeDirectory (disk : Disk) (path : String) : Except FileFault Disk := do
  let some (place, name) ← disk.seat? path | throw .present
  if isDots name then throw .present
  if isTooLong name then throw .nameTooLong
  if (disk.entry? (place ++ [name])).isSome then throw .present
  return disk.insert (place ++ [name]) .directory

def write (disk : Disk) (path : String) (content : Text) : Except FileFault Disk := do
  let some (place, name) ← disk.seat? path | throw .isDirectory
  if path.toList.getLast? == some '/' || isDots name then throw .isDirectory
  if isTooLong name then throw .nameTooLong
  if disk.entry? (place ++ [name]) == some .directory then throw .isDirectory
  return disk.insert (place ++ [name]) (.file content)

/-- Removes a file, or a directory with all that is below it. A directory that is named by points
stays, with nothing in it; where a path does not lead anywhere, nothing happens. -/
def remove (disk : Disk) (path : String) : Disk :=
  match disk.locate path with
  | .error _ => disk
  | .ok place =>
      let stays := (namesBack path).head?.any isDots
      { disk with
        entries := disk.entries.filter fun (other, _) =>
          !place.isPrefixOf other || (stays && other == place) }

end Disk

namespace DiskChange

/-- A change that is done as a whole or not at all. -/
def whole (change : Disk → Except FileFault Disk) : DiskChange Unit := do
  set (← MonadExcept.ofExcept (change (← get)))

def directory (path : String) : DiskChange Unit := do
  let known := (← get).isDirectory path
  unless known do whole (Disk.makeDirectory · path)

/-- Makes a directory by its names from the last one back. When one above it is missing, that is
made first; any other fault is not mended. -/
def directories : List String → DiskChange Unit
  | [] => pure ()
  | name :: above =>
      if name.isEmpty || name == "." then directories above
      else
        let path := "/".intercalate (name :: above).reverse
        tryCatch (directory path) fun fault =>
          if fault = .missing then do
            directories above
            directory path
          else throw fault

/-- The names above the last one that leads anywhere. -/
def above (path : String) : List String :=
  ((pathParts path).reverse.dropWhile fun name => name.isEmpty || name == ".").tail

/-- Writes a file, and before that makes the directories above it. -/
def put (path : String) (content : Text) : DiskChange Unit := do
  directories (above path)
  whole (Disk.write · path content)

def tree (path : String) : DiskChange Unit := directories (pathParts path).reverse

end DiskChange

end ConfigContract
