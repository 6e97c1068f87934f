import ConfigContract.CommandLine.Run

/-!
What has to be known of the files before a task can run: which places to look at, and which files
to read.
-/

namespace ConfigContract

structure Survey where
  path : String
  depth : Nat
deriving DecidableEq, Repr

namespace Place

def next (place : Place) (name : String) : Place :=
  if name.isEmpty || name == "." then place
  else if name == ".." then place.dropLast
  else place ++ [name]

def through (place : Place) : List String → List Place
  | [] => [place]
  | name :: rest => place :: through (place.next name) rest

end Place

def Disk.way (disk : Disk) (path : String) : List Place :=
  let origin := disk.origin path
  Place.through [] origin ++ origin.through (pathParts path)

/-- Levels that are looked at below a pattern for any number of directories. -/
def Survey.greatestDepth : Nat := 64

namespace Glob

/-- The names before the first wildcard. -/
def leading (glob : Glob) : List String :=
  (glob.names.map NamePattern.literal?).takeWhile Option.isSome |>.map fun name =>
    String.ofList (name.getD [])

/-- What a pattern stands for is below the names before its first wildcard. -/
def survey (glob : Glob) : Survey where
  path := glob.leading.foldl joinPath (if glob.absolute then "/" else ".")
  depth :=
    if glob.names.any NamePattern.isDirectories then Survey.greatestDepth
    else glob.names.length - glob.leading.length

end Glob

namespace Task

def inputSurvey (input : String) : Survey :=
  if Glob.isPattern input then
    match Glob.parse input with
    | .ok glob => glob.survey
    | .error _ => ⟨".", 0⟩
  else ⟨input, 0⟩

def surveys : Task → List Survey
  | .ir directory | .merged directory => [⟨directory, 2⟩]
  | .lower inputs => inputs.map inputSurvey

def reads (disk : Disk) : Task → List String
  | .ir directory | .merged directory =>
      let schemas := joinPath directory "schemas"
      Store.providersFile directory :: (disk.names schemas).map (joinPath schemas)
  | .lower inputs =>
      match resolveInputs disk inputs with
      | .ok files => files
      | .error _ => []

end Task

namespace Arguments

/-- The output file belongs to what has to be known, and so does its directory. -/
def surveys (arguments : Arguments) : List Survey :=
  arguments.task.surveys ++ (arguments.out.map fun path => ⟨path, 0⟩).toList

end Arguments

namespace Disk

def changes (before after : Disk) : List (Place × Entry) :=
  after.entries.filter fun (place, entry) => before.entry? place != some entry

end Disk

/-- The events to show, by name of the least level or else by how often more was asked for. -/
def leastLevel (setting : Option String) (verbose : Nat) : Option Level :=
  match setting.map String.toLower with
  | some "off" | some "error" => none
  | some "warn" => some .warn
  | some "info" => some .info
  | some "debug" => some .debug
  | some "trace" => some .trace
  | _ =>
      match verbose with
      | 0 => some .info
      | 1 => some .debug
      | _ => some .trace

def Level.rank : Level → Nat
  | .trace => 0
  | .debug => 1
  | .info => 2
  | .warn => 3

def shownEvents (least : Option Level) (events : List Event) : List Event :=
  match least with
  | none => []
  | some least => events.filter fun event => least.rank ≤ event.level.rank

end ConfigContract
