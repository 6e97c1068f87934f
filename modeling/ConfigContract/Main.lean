import ConfigContract.CommandLine.Survey

/-!
The program: notes the files that a task needs, runs the task, and writes what it changed.
-/

namespace ConfigContract

def fileOf (place : Place) : String := "/" ++ "/".intercalate place

def note (disk : Disk) : Nat → Place → IO Disk
  | depth, place => do
      let file := (← IO.currentDir) / fileOf place
      if ← file.isDir then
        let known := { disk with entries := OrderedMap.insert place .directory disk.entries }
        match depth with
        | 0 => return known
        | depth + 1 =>
            (← file.readDir).foldlM
              (fun disk entry => note disk depth (place ++ [entry.fileName])) known
      else if ← file.pathExists then
        return { disk with entries := OrderedMap.insert place (.file []) disk.entries }
      else return disk

def notePath (disk : Disk) (survey : Survey) : IO Disk := do
  let way := disk.way survey.path
  let known ← way.foldlM (fun disk place => note disk 0 place) disk
  note known survey.depth (way.getLast?.getD [])

def noteContent (disk : Disk) (path : String) : IO Disk := do
  match disk.locate path with
  | .error _ => return disk
  | .ok place =>
      match disk.entry? place with
      | some (.file _) =>
          let bytes ← IO.FS.readBinFile (fileOf place)
          let content :=
            match String.fromUTF8? bytes with
            | some text => Text.ofString text
            | none => Text.ofBytes bytes.toList
          return { disk with entries := OrderedMap.insert place (.file content) disk.entries }
      | _ => return disk

def carryOut : Place × Entry → IO Unit
  | (place, .directory) => IO.FS.createDirAll (fileOf place)
  | (place, .file content) => IO.FS.writeFile (fileOf place) ((Text.toString? content).getD "")

def diskFor (arguments : Arguments) : IO Disk := do
  let here := pathParts (← IO.currentDir).toString
  let start : Disk := { workingDirectory := here.filter (!·.isEmpty), entries := [] }
  if arguments.noOp then return start
  let start ← notePath start ⟨".", 0⟩
  let noted ← arguments.surveys.foldlM notePath start
  (arguments.task.reads noted).foldlM noteContent noted

def conclude (outcome : Outcome) : IO UInt32 := do
  IO.print outcome.output
  IO.eprint outcome.errors
  return outcome.status.toUInt32

def runArguments (arguments : Arguments) : IO UInt32 := do
  let disk ← diskFor arguments
  let outcome := arguments.run disk
  let least := leastLevel (← IO.getEnv Help.logVariable) arguments.verbose
  (shownEvents least outcome.events).forM fun event => IO.eprintln event.line
  (disk.changes outcome.disk).forM carryOut
  conclude outcome

end ConfigContract

def main (arguments : List String) : IO UInt32 :=
  match ConfigContract.Arguments.parse arguments with
  | .error refusal => ConfigContract.conclude (refusal.outcome (ConfigContract.Disk.empty []))
  | .ok parsed => ConfigContract.runArguments parsed
