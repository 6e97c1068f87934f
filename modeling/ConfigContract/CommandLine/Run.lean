import ConfigContract.CommandLine.Help
import ConfigContract.Contract.Encoding
import ConfigContract.Disk.Change
import ConfigContract.Disk.Glob
import ConfigContract.Error

/-!
Running a task on a tree of files.
-/

namespace ConfigContract

inductive RunFault where
  | failed (error : Error)
  | pattern (fault : GlobFault)
  | noMatch (pattern : String)
  | unreadable (file : String) (fault : Fault)
deriving DecidableEq, Repr

namespace RunFault

def messages : RunFault → List String
  | .failed error => error.message :: error.causes
  | .pattern fault => ["failed to resolve input file paths", fault.message]
  | .noMatch input =>
      ["failed to resolve input file paths", "glob pattern matched no files: " ++ input]
  | .unreadable document fault =>
      ["failed to decode merged schema (" ++ document ++ ")", fault.message]

def text (fault : RunFault) : String := "error: " ++ ": ".intercalate fault.messages ++ "\n"

def status : RunFault → Nat
  | .failed error => error.kind.exitCode
  | _ => 1

end RunFault

def resolveInput (disk : Disk) (input : String) : Except RunFault (List String) :=
  if Glob.isPattern input then
    match Glob.parse input with
    | .error fault => .error (.pattern fault)
    | .ok glob =>
        match glob.expand disk with
        | [] => .error (.noMatch input)
        | found => .ok found
  else .ok [input]

def resolveInputs (disk : Disk) (inputs : List String) : Except RunFault (List String) :=
  List.flatten <$> inputs.mapM (resolveInput disk)

def readSchema (disk : Disk) (file : String) : Except RunFault Body :=
  match disk.read file with
  | .error fault => .error (.failed (.file fault))
  | .ok text => (Schema.readBody text).mapError (.unreadable file)

namespace Task

def perform (disk : Disk) : Task → Logged RunFault Json
  | .ir directory => do
      let contract ← (Contract.ofDirectory disk directory).mapError .failed
      return contract.toJson
  | .merged directory => do
      let schema ← (Store.loadModule disk directory).mapError fun error => .failed (.source error)
      return schema.toJson
  | .lower inputs => do
      let files ← .ofExcept (resolveInputs disk inputs)
      let bodies ← .ofExcept (files.mapM (readSchema disk))
      let contract ← (Contract.ofBodies bodies).mapError fun error => .failed (.lower error)
      return contract.toJson

end Task

/-- How a run ended, what it wrote to the two streams, and the files as it left them. -/
structure Outcome where
  status : Nat := 0
  output : String := ""
  errors : String := ""
  events : List Event := []
  disk : Disk

namespace Arguments

/-- Prints a document, or writes it to the output file. Directories made for that file stay, also
when it cannot be written. -/
def emit (arguments : Arguments) (disk : Disk) (json : Json) : Except RunFault String × Disk :=
  let text := json.render (if arguments.pretty then Layout.pretty else Layout.compact)
  match arguments.out with
  | none => (.ok (text ++ "\n"), disk)
  | some path =>
      match (DiskChange.put path (Text.ofString text)).run disk with
      | (.error fault, disk) => (.error (.failed (.file fault)), disk)
      | (.ok (), disk) => (.ok "", disk)

def run (arguments : Arguments) (disk : Disk) : Outcome :=
  if arguments.noOp then { disk, errors := arguments.outline.render 0 ++ "\n" }
  else
    let logged := arguments.task.perform disk
    let events := logged.events
    let written : Except RunFault String × Disk :=
      match logged.result with
      | .error fault => (.error fault, disk)
      | .ok json => arguments.emit disk json
    match written with
    | (.error fault, disk) => { disk, events, status := fault.status, errors := fault.text }
    | (.ok output, disk) => { disk, events, output }

end Arguments

def Refusal.outcome (refusal : Refusal) (disk : Disk) : Outcome :=
  match refusal with
  | .unusable => { disk, status := 2, errors := Help.text Help.usage }
  | .nothing => { disk, status := 2, errors := Help.text Help.program }
  | .help none => { disk, output := Help.text Help.program }
  | .help (some task) => { disk, output := Help.text (Help.task task) }

def runProgram (arguments : List String) (disk : Disk) : Outcome :=
  match Arguments.parse arguments with
  | .error refusal => refusal.outcome disk
  | .ok arguments => arguments.run disk

end ConfigContract
