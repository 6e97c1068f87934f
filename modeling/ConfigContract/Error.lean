import ConfigContract.Lowering.Block
import ConfigContract.Provider.Merge

/-!
The failures of a whole run, their families, and the contract of a directory of providers.
-/

namespace ConfigContract

inductive Error where
  | lower (error : LowerError)
  | source (error : SourceError)
  | file (fault : FileFault)
deriving DecidableEq, Repr

inductive ErrorKind where
  | unsupportedSchemaShape
  | providerResolution
  | files
deriving DecidableEq, Repr

namespace Error

def kind : Error → ErrorKind
  | .lower _ => .unsupportedSchemaShape
  | .source (.file ..) => .files
  | .source _ => .providerResolution
  | .file _ => .files

def message : Error → String
  | .lower error => error.message
  | .source error => error.message
  | .file fault => "IO error: " ++ fault.message

def causes : Error → List String
  | .source (.file _ cause) => [cause.message]
  | .file fault => [fault.message]
  | _ => []

end Error

def ErrorKind.exitCode : ErrorKind → Nat
  | .unsupportedSchemaShape => 2
  | .providerResolution => 3
  | .files => 1

namespace Contract

/-- Resolves the providers configured in a directory and lowers the module with all of them. -/
def ofDirectory (disk : Disk) (root : String) : Logged Error Contract := do
  let module ← (Store.loadModule disk root).mapError .source
  (ofBody module).mapError .lower

end Contract

end ConfigContract
