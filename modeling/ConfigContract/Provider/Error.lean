import ConfigContract.Disk.Basic
import ConfigContract.Json.Fault
import ConfigContract.Provider.Address
import ConfigContract.Provider.VersionConstraint

/-!
What can go wrong while providers are resolved.
-/

namespace ConfigContract

inductive FileCause where
  | system (fault : FileFault)
  | schemaMissing
deriving DecidableEq, Repr

def FileCause.message : FileCause → String
  | .system fault => fault.message
  | .schemaMissing => "provider schema file is missing"

inductive SourceError where
  | versionIncompatible (address : Address) (version : Version) (constraint : VersionConstraint)
  | providerNotFound (address : Address)
  | schemaNotFound (address : Address)
  | decode (file : String) (fault : Fault)
  | invalidSource (input : String) (fault : AddressFault)
  | invalidVersion (input : String)
  | invalidConstraint (input : String)
  | file (path : String) (cause : FileCause)
deriving DecidableEq, Repr

namespace SourceError

def message : SourceError → String
  | .versionIncompatible address version constraint =>
      "provider " ++ address.render ++ " is pinned to " ++ version.render ++
        ", which does not satisfy \"" ++ constraint.render ++ "\""
  | .providerNotFound address => "no provider configured for " ++ address.render
  | .schemaNotFound address => address.render ++ ": schema not found"
  | .decode document fault => "failed to decode " ++ document ++ ": " ++ fault.message
  | .invalidSource input fault =>
      "invalid provider source " ++ Quoted.quote input ++ ": " ++ fault.message
  | .invalidVersion input => "invalid version " ++ Quoted.quote input
  | .invalidConstraint input => "invalid version constraint " ++ Quoted.quote input
  | .file path cause => "failed to read " ++ path ++ ": " ++ cause.message

end SourceError

/-! Reading what somebody wrote -/

def Address.ofSource (source : String) : Except SourceError Address :=
  (Address.parse source).mapError (.invalidSource source)

def Version.ofText (input : String) : Except SourceError Version :=
  match Version.parse input with
  | some version => .ok version
  | none => .error (.invalidVersion input)

def VersionConstraint.ofText (input : String) : Except SourceError VersionConstraint :=
  match VersionConstraint.parse input with
  | some constraint => .ok constraint
  | none => .error (.invalidConstraint input)

end ConfigContract
