import ConfigContract.Log
import ConfigContract.Provider.Decoding
import ConfigContract.Provider.Error

/-!
A directory of configured providers: `providers.json` names them, and `schemas` holds a schema
document for each local name. The list is read when the store is opened, a document when it is asked
for.
-/

namespace ConfigContract

structure ConfiguredProvider where
  localName : String
  version : Version
  schemaFile : String
deriving DecidableEq, Repr

structure Store where
  root : String
  /-- The address of each local name, in the order of configuration. -/
  references : OrderedMap String Address := []
  /-- What is configured for each address; of several local names the last counts. -/
  providers : OrderedMap Address ConfiguredProvider := []

namespace Store

def providersFile (root : String) : String := joinPath root "providers.json"

def schemaFile (root localName : String) : String :=
  joinPath (joinPath root "schemas") (localName ++ ".json")

def readFile {α : Type} (disk : Disk) (read : Text → Except Fault α) (path : String) :
    Except SourceError α :=
  match disk.read path with
  | .error fault => .error (.file path (.system fault))
  | .ok text => (read text).mapError (.decode path)

def configure (disk : Disk) (store : Store) (localName : String) (spec : ProviderSpec) :
    Logged SourceError Store := do
  let address ← .ofExcept (Address.ofSource spec.source)
  let version ← .ofExcept (Version.ofText spec.version)
  let schemaFile := schemaFile store.root localName
  if !disk.isFile schemaFile then .fail (.file schemaFile .schemaMissing)
  Logged.tell (.configured localName address version)
  Logged.tellAll
    ((OrderedMap.get? address store.providers).toList.map fun previous =>
      .addressShared address previous.localName)
  return { store with
    references := OrderedMap.insert localName address store.references
    providers := OrderedMap.insert address { localName, version, schemaFile } store.providers }

def configureAll (disk : Disk) : OrderedMap String ProviderSpec → Store → Logged SourceError Store
  | [], store => pure store
  | (localName, spec) :: rest, store => do
      configureAll disk rest (← configure disk store localName spec)

/-- Opens the store in a directory. A schema document only has to be there. -/
def openAt (disk : Disk) (root : String) : Logged SourceError Store := do
  let specs ← .ofExcept (readFile disk ProviderSpec.readAll (providersFile root))
  let store ← configureAll disk specs { root }
  Logged.tell (.opened root store.providers.length)
  return store

/-- Every address with exactly the version configured for it. -/
def requirements (store : Store) : OrderedMap Address VersionConstraint :=
  OrderedMap.mapValues (fun provider => .exactly provider.version) store.providers

/-- The schemas of the provider at an address, if its version satisfies a constraint. -/
def providerSchema (disk : Disk) (store : Store) (address : Address)
    (constraint : VersionConstraint) : Logged SourceError ProviderSchema :=
  match OrderedMap.get? address store.providers with
  | none => .fail (.providerNotFound address)
  | some provider =>
      if !constraint.allows provider.version then
        .fail (.versionIncompatible address provider.version constraint)
      else do
        let document ← .ofExcept (readFile disk Document.read provider.schemaFile)
        match OrderedMap.get? address.render document.providers with
        | none => .fail (.schemaNotFound address)
        | some declaration =>
            Logged.tell (.loaded address provider.version declaration.resources.length
              declaration.dataSources.length)
            return declaration.toSchema

end Store

end ConfigContract
