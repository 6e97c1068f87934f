import ConfigContract.Error
import ConfigContract.Proofs.Lowering.Supported
import ConfigContract.Proofs.Provider.Attachment

/-!
A directory whose providers are resolved always lowers: neither the core module nor a provider
declares a map block, and the only catch-alls are those of the core module, which stand alone.
-/

namespace ConfigContract

structure Block.Regular (block : Block) : Prop extends block.Supported where
  plain : ∀ declared ∈ block.catchAll?, declared.isComputed = false

namespace Block

variable {good : Block → Prop} {block : Block}

theorem Everywhere.of_flat (here : good block) (flat : ∀ body ∈ block.bodies, body.blocks = []) :
    block.Everywhere good :=
  .intro here fun body member entry declared => by simp [flat body member] at declared

theorem bodies_extend (block : Block) (attached : OrderedMap String Body) :
    (block.extend attached).bodies = block.bodies ++ OrderedMap.values attached := by
  simp [bodies, extend, OrderedMap.values, Function.comp_def]

theorem Everywhere.extend {attached : OrderedMap String Body}
    (here : good (block.extend attached)) (inside : ∀ body ∈ block.bodies, body.Everywhere good)
    (attachedGood : ∀ body ∈ OrderedMap.values attached, body.Everywhere good) :
    (block.extend attached).Everywhere good := by
  refine .intro here fun body member => ?_
  rw [bodies_extend] at member
  rcases List.mem_append.mp member with known | new
  · exact inside body known
  · exact attachedGood body new

theorem Regular.of_noCatchAll (notMap : block.blockType ≠ .map) (none : block.catchAll? = none) :
    block.Regular where
  notMap := notMap
  alone := fun body own accepts => by
    have absent : body.anyAttribute = Option.none := by
      simpa [catchAll?, Option.mem_def.mp own] using none
    simp [absent] at accepts
  plain := by simp [none]

/-- Neither the cardinality nor the own body of a block changes when bodies are attached. -/
theorem Regular.extend (regular : block.Regular) (attached : OrderedMap String Body) :
    (block.extend attached).Regular :=
  ⟨⟨regular.notMap, regular.alone⟩, regular.plain⟩

end Block

/-! The core module -/

section CoreModule

open CoreModule Block

attribute [local simp] Body.addAttribute Body.addBlock Body.acceptAny Block.ofType Block.describedAs
  Block.addLabel Block.items Block.withBody OrderedMap.insert Block.bodies

theorem regular_terraform : terraform.Everywhere Regular := by
  have requiredGood : requiredProviders.Everywhere Regular :=
    .of_flat ⟨⟨by decide, by simp [requiredProviders]⟩, by rintro _ ⟨⟩; rfl⟩
      (by simp [requiredProviders])
  have backendGood : backend.Everywhere Regular :=
    .of_flat (.of_noCatchAll (by decide) rfl) (by simp [backend])
  refine .intro (.of_noCatchAll (by decide) rfl) ?_
  simp [terraform, or_imp, forall_and, requiredGood, backendGood]

theorem regular_provider : provider.Everywhere Regular :=
  .of_flat (.of_noCatchAll (by decide) rfl) (by simp [provider])

theorem regular_resource : resource.Everywhere Regular := by
  have lifecycleGood : lifecycle.Everywhere Regular :=
    .of_flat (.of_noCatchAll (by decide) rfl) (by simp [lifecycle])
  refine .intro (.of_noCatchAll (by decide) rfl) ?_
  simp [resource, metaArguments, lifecycleGood]

theorem regular_data : data.Everywhere Regular :=
  .of_flat (.of_noCatchAll (by decide) rfl) (by simp [data, metaArguments])

theorem regular_moduleCall : moduleCall.Everywhere Regular :=
  .of_flat (.of_noCatchAll (by decide) rfl) (by simp [moduleCall])

theorem regular_variableBlock : variableBlock.Everywhere Regular :=
  .of_flat (.of_noCatchAll (by decide) rfl) (by simp [variableBlock])

theorem regular_output : output.Everywhere Regular :=
  .of_flat (.of_noCatchAll (by decide) rfl) (by simp [output])

theorem regular_locals : locals.Everywhere Regular :=
  .of_flat ⟨⟨by decide, by simp [locals]⟩, by rintro _ ⟨⟩; rfl⟩ (by simp [locals])

theorem regular_coreModuleWith {attachment : Attachment}
    (attached : ∀ body ∈ attachment.bodies, body.Everywhere Regular) :
    (coreModuleWith attachment).Everywhere Regular := by
  simp only [Attachment.bodies, OrderedMap.values, List.map_append, List.forall_mem_append]
    at attached
  obtain ⟨⟨providersGood, resourcesGood⟩, dataSourcesGood⟩ := attached
  have providerGood : (provider.extend attachment.providers).Everywhere Regular :=
    .extend (regular_provider.here.extend _) regular_provider.inside providersGood
  have resourceGood : (resource.extend attachment.resources).Everywhere Regular :=
    .extend (regular_resource.here.extend _) regular_resource.inside resourcesGood
  have dataGood : (data.extend attachment.dataSources).Everywhere Regular :=
    .extend (regular_data.here.extend _) regular_data.inside dataSourcesGood
  simp only [Body.Everywhere, coreModuleWith, List.forall_mem_cons]
  exact ⟨regular_terraform, providerGood, resourceGood, dataGood, regular_moduleCall,
    regular_variableBlock, regular_output, regular_locals, List.forall_mem_nil _⟩

end CoreModule

/-! Provider declarations -/

mutual

theorem BlockDeclaration.regular_toBody : ∀ declaration : BlockDeclaration,
    declaration.toBody.Everywhere Block.Regular
  | ⟨_, blockTypes, _, _⟩ => regular_declaredBlocks blockTypes

theorem NestedBlock.regular_toBlock : ∀ nested : NestedBlock,
    nested.toBlock.Everywhere Block.Regular
  | ⟨nesting, ⟨attributes, blockTypes, description, deprecated⟩, minItems, maxItems⟩ => by
      have bodies : (NestedBlock.toBlock ⟨nesting, ⟨attributes, blockTypes, description,
          deprecated⟩, minItems, maxItems⟩).bodies =
            [BlockDeclaration.toBody ⟨attributes, blockTypes, description, deprecated⟩] := by
        cases nesting <;> rfl
      refine .intro (.of_noCatchAll ?_ rfl) ?_
      · cases nesting <;> exact nofun
      · rw [bodies]
        exact List.forall_mem_singleton.mpr (regular_declaredBlocks blockTypes)

theorem regular_declaredBlocks : ∀ blockTypes : List (String × NestedBlock),
    ∀ entry ∈ declaredBlocks blockTypes, entry.2.Everywhere Block.Regular
  | [] => nofun
  | (_, nested) :: rest =>
      List.forall_mem_cons.mpr ⟨nested.regular_toBlock, regular_declaredBlocks rest⟩

end

namespace Store

variable {disk : Disk} {store : Store} {module : Body}

theorem regular_of_merge (merged : (store.merge disk coreModule).result = .ok module) :
    module.Everywhere Block.Regular := by
  obtain ⟨schemas, found, rfl⟩ := merge_ok merged
  refine regular_coreModuleWith fun body member => ?_
  obtain ⟨address, known, listed⟩ := mem_bodies_attachment member
  obtain ⟨provider, document, declaration, -, -, -, same⟩ := schemaAt_ok (found address known)
  rw [same] at listed
  rcases ProviderDeclaration.mem_bodies_toSchema listed with rfl | ⟨block, -, rfl⟩
  · exact BlockDeclaration.regular_toBody _
  · exact block.regular_toBody

/-- Three local names, of which two share an address; both addresses declare one resource type. -/
def sharedDirectory : Disk where
  workingDirectory := []
  entries := [
    (["p"], .directory),
    (["p", "providers.json"], fileOf (.object [("aws", spec "hashicorp/aws"),
      ("west", spec "hashicorp/aws"), ("mirror", spec "example/mirror")])),
    (["p", "schemas"], .directory),
    (["p", "schemas", "aws.json"], fileOf aws),
    (["p", "schemas", "west.json"], fileOf aws),
    (["p", "schemas", "mirror.json"], fileOf mirror)]
where
  fileOf (json : Json) : Entry := .file (Text.ofChars (json.write .compact 0))
  spec (source : String) : Json := (ProviderSpec.mk source "5.31.0").toJson
  computed : Json := .object [("type", .string "string"), ("computed", .bool true)]
  block (members : List (String × Json)) : Json := .object [("block", .object members)]
  attributes (names : List String) : String × Json :=
    ("attributes", .object (names.map fun name => (name, computed)))
  disks : Json :=
    .object [("nesting_mode", .string "list"), ("block", .object [attributes ["id"]])]
  document (address : String) (declaration : List (String × Json)) : Json :=
    .object [("provider_schemas", .object [(address, .object declaration)])]
  aws : Json := document "registry.terraform.io/hashicorp/aws" [
    ("provider", block [attributes ["region", "version"]]),
    ("resource_schemas", .object [
      ("instance", block [attributes ["arn"]]), ("volume", block [attributes ["count"]])])]
  mirror : Json := document "registry.terraform.io/example/mirror" [
    ("resource_schemas", .object [("instance", block [attributes ["id", "provider"],
      ("block_types", .object [("disk", disks)])])]),
    ("data_source_schemas", .object [("zone", block [attributes ["name"]])])]

end Store

namespace Contract

theorem exists_ofBody {module : Body} (regular : module.Everywhere Block.Regular) :
    ∃ contract, (ofBody module).result = .ok contract := by
  refine exists_ofBodies fun body member => ?_
  cases List.mem_singleton.mp member
  exact fun entry declared => (regular entry declared).imp fun block regular => regular.toSupported

theorem ofDirectory_ok_iff {disk : Disk} {root : String} {contract : Contract} :
    (ofDirectory disk root).result = .ok contract ↔ ∃ module,
      (Store.loadModule disk root).result = .ok module ∧ (ofBody module).result = .ok contract := by
  simp [ofDirectory, bind_eq_ok, mapError_eq_ok]

/-- What a store is merged into lowers, so a run on a directory fails only when its providers are
not resolved, and then with the error of that. -/
theorem resolved_directory_lowers (disk : Disk) :
    (∀ store module, (Store.merge disk store coreModule).result = .ok module →
      ∃ contract, (ofBody module).result = .ok contract) ∧
    ∀ root error, (ofDirectory disk root).result = .error error →
      ∃ fault, error = .source fault ∧ (Store.loadModule disk root).result = .error fault := by
  have lowers (store : Store) (module : Body)
      (merged : (store.merge disk coreModule).result = .ok module) :
      ∃ contract, (ofBody module).result = .ok contract :=
    exists_ofBody (Store.regular_of_merge merged)
  refine ⟨lowers, fun root error failed => ?_⟩
  cases loaded : (Store.loadModule disk root).result with
  | error fault =>
      simp only [ofDirectory, Logged.result_bind, Logged.result_mapError, loaded, mapError_error,
        error_bind, Except.error.injEq] at failed
      exact ⟨fault, failed.symm, rfl⟩
  | ok module =>
      obtain ⟨store, -, merged⟩ := Store.loadModule_ok loaded
      obtain ⟨contract, lowered⟩ := lowers store module merged
      simp [ofDirectory, loaded, lowered] at failed

theorem shared_directory_lowers : ∃ store module contract fault,
    (Store.openAt Store.sharedDirectory "p").result = .ok store ∧
    (store.merge Store.sharedDirectory coreModule).result = .ok module ∧
    (ofBody module).result = .ok contract ∧
    (ofDirectory Store.sharedDirectory "q").result = .error (.source fault) := by
  obtain ⟨module, loaded, -⟩ := exists_ok (Store.loadModule Store.sharedDirectory "p").result
    (fun _ => true) (by decide +kernel)
  obtain ⟨error, failed⟩ := exists_error (ofDirectory Store.sharedDirectory "q").result
    (by decide +kernel)
  obtain ⟨store, opened, merged⟩ := Store.loadModule_ok loaded
  obtain ⟨lowers, fails⟩ := resolved_directory_lowers Store.sharedDirectory
  obtain ⟨contract, lowered⟩ := lowers store module merged
  obtain ⟨fault, rfl, -⟩ := fails "q" error failed
  exact ⟨store, module, contract, fault, opened, merged, lowered, failed⟩

end Contract

end ConfigContract
