import ConfigContract.CoreModule
import ConfigContract.Provider.Store

/-!
Attaching the schemas of configured providers to the schema of a module. A provider's own body goes
with its local name; resources and data sources go with their type names, once for each address.
-/

namespace ConfigContract

namespace Body

/-- Attaches a body for one value of a block's first label, if the block is there. -/
def attach (module : Body) (block value : String) (body : Body) : Logged SourceError Body := do
  if OrderedMap.contains block module.blocks then
    let extend (known : Block) := known.addDependent 0 value body
    return { module with blocks := OrderedMap.modify block extend module.blocks }
  else
    Logged.tell (.bodyDropped block value)
    return module

def attachAll (block : String) : OrderedMap String Body → Body → Logged SourceError Body
  | [], module => pure module
  | (value, body) :: rest, module => do
      attachAll block rest (← module.attach block value body)

end Body

namespace Store

/-- Attaches the provider of one local name; `attached` holds the addresses that came before. -/
def mergeOne (disk : Disk) (store : Store) (attached : List Address) (module : Body)
    (localName : String) (address : Address) : Logged SourceError Body :=
  match OrderedMap.get? address store.requirements with
  | none => .fail (.providerNotFound address)
  | some constraint => do
      let schema ← store.providerSchema disk address constraint
      let module ← module.attach "provider" localName schema.provider
      if address ∈ attached then return module
      else
        Logged.tell (.merging localName address schema.resources.length schema.dataSources.length)
        let module ← Body.attachAll "resource" schema.resources module
        Body.attachAll "data" schema.dataSources module

def mergeFrom (disk : Disk) (store : Store) :
    OrderedMap String Address → List Address → Body → Logged SourceError Body
  | [], _, module => pure module
  | (localName, address) :: rest, attached, module => do
      let module ← store.mergeOne disk attached module localName address
      mergeFrom disk store rest (address :: attached) module

def merge (disk : Disk) (store : Store) (module : Body) : Logged SourceError Body :=
  store.mergeFrom disk store.references [] module

/-- The core module with every provider configured in a directory. -/
def loadModule (disk : Disk) (root : String) : Logged SourceError Body := do
  let store ← openAt disk root
  store.merge disk coreModule

end Store

end ConfigContract
