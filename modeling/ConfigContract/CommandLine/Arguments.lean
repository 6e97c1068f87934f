import ConfigContract.CommandLine.Outline
import ConfigContract.Text.Quoted

/-!
The arguments of the program: options for all tasks, the name of a task, and the options and
operands of that task.
-/

namespace ConfigContract

inductive TaskName where
  | ir
  | merged
  | lower
deriving DecidableEq, Repr

def TaskName.ofString? : String → Option TaskName
  | "ir" => some .ir
  | "merged" => some .merged
  | "lower" => some .lower
  | _ => none

inductive Task where
  | ir (directory : String)
  | merged (directory : String)
  | lower (inputs : List String)
deriving DecidableEq, Repr

structure Arguments where
  verbose : Nat := 0
  task : Task
  out : Option String := none
  pretty : Bool := false
  noOp : Bool := false
deriving DecidableEq, Repr

inductive Refusal where
  | unusable
  | nothing
  | help (topic : Option TaskName)
deriving DecidableEq, Repr

namespace Arguments

/-- The arguments of a task, as far as they have been read. -/
structure Draft where
  verbose : Nat := 0
  out : Option String := none
  pretty : Bool := false
  noOp : Bool := false
  operands : List String := []
  /-- The next argument is the output file. -/
  awaiting : Bool := false
  /-- All further arguments are operands. -/
  closed : Bool := false

/-- A count of repeated options; it ends at 255. -/
def louder (verbose : Nat) : Nat := min 255 (verbose + 1)

def isOption (argument : String) : Bool :=
  argument.toList.head? == some '-' && argument != "-"

namespace Draft

def withOut (draft : Draft) (path : String) : Except Refusal Draft :=
  if path.isEmpty || draft.out.isSome then .error .unusable
  else .ok { draft with out := some path, awaiting := false }

/-- A directory is given once and has a name; there may be any number of input files. -/
def withOperand (task : TaskName) (draft : Draft) (operand : String) : Except Refusal Draft :=
  if task ≠ .lower ∧ (operand.isEmpty ∨ !draft.operands.isEmpty) then .error .unusable
  else .ok { draft with operands := draft.operands ++ [operand] }

def longOption (task : TaskName) (draft : Draft) (name : String) (value : Option String) :
    Except Refusal Draft :=
  match name, value with
  | "out", some path => draft.withOut path
  | "out", none => .ok { draft with awaiting := true }
  | "pretty", none => if draft.pretty then .error .unusable else .ok { draft with pretty := true }
  | "no-op", none => if draft.noOp then .error .unusable else .ok { draft with noOp := true }
  | "verbose", none => .ok { draft with verbose := louder draft.verbose }
  | "help", none => .error (.help (some task))
  | _, _ => .error .unusable

/-- Options of one letter; the value of the last one may follow at once. -/
def shortOptions (task : TaskName) (draft : Draft) : List Char → Except Refusal Draft
  | [] => .ok draft
  | 'v' :: rest => shortOptions task { draft with verbose := louder draft.verbose } rest
  | 'h' :: _ => .error (.help (some task))
  | ['o'] => .ok { draft with awaiting := true }
  | 'o' :: '=' :: path => draft.withOut (String.ofList path)
  | 'o' :: path => draft.withOut (String.ofList path)
  | _ => .error .unusable

/-- A name, and what follows the first equals sign. -/
def splitValue (chars : List Char) : String × Option String :=
  let name := String.ofList (chars.takeWhile (· != '='))
  match chars.dropWhile (· != '=') with
  | [] => (name, none)
  | _ :: value => (name, some (String.ofList value))

def read (task : TaskName) (draft : Draft) (argument : String) : Except Refusal Draft :=
  if draft.awaiting then
    if isOption argument then .error .unusable else draft.withOut argument
  else if draft.closed || !isOption argument then draft.withOperand task argument
  else
    match argument.toList with
    | ['-', '-'] => .ok { draft with closed := true }
    | '-' :: '-' :: rest =>
        let (name, value) := splitValue rest
        draft.longOption task name value
    | letters => draft.shortOptions task letters.tail

def finish (task : TaskName) (verbose : Nat) (draft : Draft) : Except Refusal Arguments :=
  if draft.awaiting then .error .unusable
  else
    let { out, pretty, noOp, operands, .. } := draft
    let verbose := if draft.verbose = 0 then verbose else draft.verbose
    match task, operands with
    | _, [] => .error .unusable
    | .ir, directory :: _ => .ok { verbose, task := .ir directory, out, pretty, noOp }
    | .merged, directory :: _ => .ok { verbose, task := .merged directory, out, pretty, noOp }
    | .lower, inputs => .ok { verbose, task := .lower inputs, out, pretty, noOp }

end Draft

/-- Without a task nothing can be done; without options too, nothing was asked for. -/
def withoutTask (verbose : Nat) : Refusal := if verbose = 0 then .nothing else .unusable

def helpTopic : List String → Refusal
  | [] => .help none
  | [name] =>
      match TaskName.ofString? name with
      | some task => .help (some task)
      | none => if name == "help" then .help none else .unusable
  | _ => .unusable

/-- How often `-v` is given among options of one letter before the task. -/
def countVerbose (verbose : Nat) : List Char → Except Refusal Nat
  | [] => .ok verbose
  | 'v' :: rest => countVerbose (louder verbose) rest
  | 'h' :: _ => .error (.help none)
  | _ => .error .unusable

/-- Reads the arguments from some point before the task on. -/
def parseFrom (verbose : Nat) : List String → Except Refusal Arguments
  | [] => .error (withoutTask verbose)
  | argument :: rest =>
      match TaskName.ofString? argument with
      | some task => do (← rest.foldlM (Draft.read task) {}).finish task verbose
      | none =>
          if argument == "help" then .error (helpTopic rest)
          else if argument == "--" then
            .error (if rest.isEmpty then withoutTask verbose else .unusable)
          else if argument == "--verbose" then parseFrom (louder verbose) rest
          else if argument == "--help" then .error (.help none)
          else if isOption argument then
            match countVerbose verbose argument.toList.tail with
            | .ok verbose => parseFrom verbose rest
            | .error refusal => .error refusal
          else .error .unusable

def parse (arguments : List String) : Except Refusal Arguments := parseFrom 0 arguments

def outputOutline (arguments : Arguments) : Outline :=
  .record "OutputSettings" [
    ("out", .optional (arguments.out.map fun path => .leaf (Quoted.quote path))),
    ("pretty", .bool arguments.pretty)]

def taskOutline (arguments : Arguments) (name key : String) (value : Outline) : Outline :=
  .tagged name <| .record (name ++ "Out") [
    (key, value),
    ("output", arguments.outputOutline),
    ("no_op", .bool arguments.noOp)]

def outline (arguments : Arguments) : Outline :=
  let command :=
    match arguments.task with
    | .ir directory => arguments.taskOutline "Ir" "dir" (.leaf (Quoted.quote directory))
    | .merged directory => arguments.taskOutline "Merged" "dir" (.leaf (Quoted.quote directory))
    | .lower inputs =>
        arguments.taskOutline "Lower" "input"
          (.list (inputs.map fun input => .leaf (Quoted.quote input)))
  .record "CommandLineInterface" [("verbose", .number arguments.verbose), ("cmd", command)]

end Arguments

end ConfigContract
