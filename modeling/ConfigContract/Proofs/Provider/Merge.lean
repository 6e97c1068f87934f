import ConfigContract.Proofs.Provider.Document
import ConfigContract.Provider.Merge

/-!
A module with its providers attached holds no key twice.
-/

namespace ConfigContract

variable {literal : Json → Prop}

/-! The core module -/

section CoreModule

open CoreModule

attribute [local simp] Body.addAttribute Body.addBlock Body.acceptAny Block.ofType Block.describedAs
  Block.addLabel Block.items Block.withBody Attribute.optional Attribute.required
  Attribute.describedAs Constraint.string Constraint.number Constraint.bool Constraint.dynamic
  Constraint.listOf Constraint.setOf OrderedMap.insert

theorem wellFormed_terraform : terraform.WellFormed literal := by
  simp [terraform, requiredProviders, backend]

theorem wellFormed_resource : resource.WellFormed literal := by
  simp [resource, metaArguments, lifecycle, references, instances]

theorem wellFormed_data : data.WellFormed literal := by
  simp [data, metaArguments, references, instances]

theorem wellFormed_moduleCall : moduleCall.WellFormed literal := by
  simp [moduleCall, references, instances]

theorem coreModule_wellFormed : coreModule.WellFormed literal := by
  have providerGood : provider.WellFormed literal := by simp [provider]
  have variableGood : variableBlock.WellFormed literal := by simp [variableBlock]
  have outputGood : output.WellFormed literal := by simp [output, references]
  have localsGood : locals.WellFormed literal := by simp [locals]
  simp [coreModule, -Block.WellFormed, wellFormed_terraform, providerGood, wellFormed_resource,
    wellFormed_data, wellFormed_moduleCall, variableGood, outputGood, localsGood]

end CoreModule

/-! Attaching bodies -/

namespace OrderedMap

variable {κ α : Type} [DecidableEq κ]

theorem keys_modify (key : κ) (f : α → α) (entries : OrderedMap κ α) :
    keys (modify key f entries) = keys entries := by
  induction entries with
  | nil => rfl
  | cons entry rest ih =>
      obtain ⟨candidate, value⟩ := entry
      by_cases same : candidate = key <;> simp [modify, same, ih]

theorem forall_modify {good : α → Prop} {entries : OrderedMap κ α} {f : α → α}
    (allGood : ∀ entry ∈ entries, good entry.2) (kept : ∀ value, good value → good (f value))
    (key : κ) : ∀ entry ∈ modify key f entries, good entry.2 := by
  induction entries with
  | nil => exact allGood
  | cons entry rest ih =>
      obtain ⟨candidate, value⟩ := entry
      obtain ⟨valueGood, restGood⟩ := List.forall_mem_cons.mp allGood
      unfold modify
      split
      · exact List.forall_mem_cons.mpr ⟨kept value valueGood, restGood⟩
      · exact List.forall_mem_cons.mpr ⟨valueGood, ih restGood⟩

end OrderedMap

theorem Block.WellFormed.addDependent {block : Block} (wellFormed : block.WellFormed literal)
    {body : Body} (bodyGood : body.WellFormed literal) (index : UInt64) (value : String) :
    (block.addDependent index value body).WellFormed literal := by
  obtain ⟨_, _, _, _, _, _, dependents⟩ := block
  refine ⟨wellFormed.1, (dependentsWellFormed_iff _).mpr fun dependent member => ?_⟩
  rcases List.mem_append.mp member with old | new
  · exact (dependentsWellFormed_iff dependents).mp wellFormed.2 dependent old
  · cases List.mem_singleton.mp new
    exact bodyGood

namespace Body

variable {module merged : Body}

theorem WellFormed.attach (wellFormed : module.WellFormed literal) {body : Body}
    (bodyGood : body.WellFormed literal) {block value : String}
    (attached : (module.attach block value body).result = .ok merged) :
    merged.WellFormed literal := by
  obtain ⟨description, attributes, blocks, anyAttribute⟩ := module
  unfold Body.attach at attached
  split at attached
  · cases attached
    obtain ⟨distinct, attributesGood, distinctBlocks, blocksGood, anyGood⟩ := wellFormed
    refine ⟨distinct, attributesGood,
      .of_keys (OrderedMap.keys_modify block _ blocks) distinctBlocks,
      (blocksWellFormed_iff _).mpr ?_, anyGood⟩
    exact OrderedMap.forall_modify ((blocksWellFormed_iff blocks).mp blocksGood)
      (fun known knownGood => knownGood.addDependent bodyGood 0 value) block
  · cases attached
    exact wellFormed

theorem WellFormed.attachAll (wellFormed : module.WellFormed literal) {block : String}
    {bodies : OrderedMap String Body} (bodiesGood : ∀ entry ∈ bodies, entry.2.WellFormed literal)
    (attached : (attachAll block bodies module).result = .ok merged) :
    merged.WellFormed literal := by
  induction bodies generalizing module with
  | nil =>
      cases attached
      exact wellFormed
  | cons entry rest ih =>
      obtain ⟨bodyGood, restGood⟩ := List.forall_mem_cons.mp bodiesGood
      simp only [Body.attachAll, Logged.result_bind, bind_eq_ok] at attached
      obtain ⟨next, attachedFirst, attachedRest⟩ := attached
      exact ih (wellFormed.attach bodyGood attachedFirst) restGood attachedRest

end Body

/-! Loading a module -/

theorem readFile_ok {α : Type} {disk : Disk} {read : Text → Except Fault α} {path : String}
    {value : α} (succeeded : Store.readFile disk read path = .ok value) :
    ∃ text, disk.read path = .ok text ∧ read text = .ok value := by
  unfold Store.readFile at succeeded
  split at succeeded
  next => cases succeeded
  next text found => exact ⟨text, found, mapError_eq_ok.mp succeeded⟩

def ProviderSchema.WellFormed (literal : Json → Prop) (schema : ProviderSchema) : Prop :=
  schema.provider.WellFormed literal ∧ (∀ entry ∈ schema.resources, entry.2.WellFormed literal) ∧
    ∀ entry ∈ schema.dataSources, entry.2.WellFormed literal

theorem ProviderDeclaration.wellFormed_toSchema {declaration : ProviderDeclaration}
    (wellFormed : declaration.WellFormed) : declaration.toSchema.WellFormed literal := by
  have bodiesGood {schemas : OrderedMap String SchemaDeclaration}
      (schemasGood : ∀ entry ∈ schemas, entry.2.block.WellFormed) :
      ∀ entry ∈ bodies schemas, entry.2.WellFormed literal := by
    rintro entry member
    obtain ⟨given, known, rfl⟩ := List.mem_map.mp member
    exact given.2.block.wellFormed_toBody (schemasGood given known)
  obtain ⟨provider, resources, dataSources⟩ := declaration
  obtain ⟨providerGood, resourcesGood, dataSourcesGood⟩ := wellFormed
  refine ⟨?_, bodiesGood resourcesGood, bodiesGood dataSourcesGood⟩
  cases provider with
  | none => exact Body.wellFormed_empty
  | some schema => exact schema.block.wellFormed_toBody (providerGood schema rfl)

namespace Store

variable {disk : Disk} {store : Store} {module merged : Body}

theorem wellFormed_of_providerSchema {address : Address} {constraint : VersionConstraint}
    {schema : ProviderSchema}
    (found : (store.providerSchema disk address constraint).result = .ok schema) :
    schema.WellFormed literal := by
  unfold providerSchema at found
  split at found
  next => cases found
  next provider known =>
    split at found
    next => cases found
    next =>
      simp only [Logged.result_bind, Logged.result_ofExcept, bind_eq_ok] at found
      obtain ⟨document, read, found⟩ := found
      obtain ⟨text, -, readText⟩ := readFile_ok read
      have documentGood := Document.wellFormed_of_read readText
      split at found
      next => cases found
      next declaration listed =>
        cases found
        exact ProviderDeclaration.wellFormed_toSchema
          (documentGood _ (OrderedMap.mem_of_get? listed))

theorem wellFormed_mergeOne (wellFormed : module.WellFormed literal) {attached : List Address}
    {localName : String} {address : Address}
    (succeeded : (store.mergeOne disk attached module localName address).result = .ok merged) :
    merged.WellFormed literal := by
  unfold mergeOne at succeeded
  split at succeeded
  next => cases succeeded
  next constraint required =>
    simp only [Logged.result_bind, bind_eq_ok] at succeeded
    obtain ⟨schema, found, withProvider, attachedProvider, succeeded⟩ := succeeded
    obtain ⟨providerGood, resourcesGood, dataSourcesGood⟩ : schema.WellFormed literal :=
      wellFormed_of_providerSchema found
    have providerAttached := wellFormed.attach providerGood attachedProvider
    split at succeeded
    next =>
      cases succeeded
      exact providerAttached
    next =>
      simp only [Logged.result_bind, Logged.result_tell, ok_bind, bind_eq_ok] at succeeded
      obtain ⟨withResources, attachedResources, attachedDataSources⟩ := succeeded
      exact (providerAttached.attachAll resourcesGood attachedResources).attachAll dataSourcesGood
        attachedDataSources

theorem wellFormed_mergeFrom {references : OrderedMap String Address} {attached : List Address}
    (wellFormed : module.WellFormed literal)
    (succeeded : (mergeFrom disk store references attached module).result = .ok merged) :
    merged.WellFormed literal := by
  induction references generalizing attached module with
  | nil =>
      cases succeeded
      exact wellFormed
  | cons entry rest ih =>
      simp only [mergeFrom, Logged.result_bind, bind_eq_ok] at succeeded
      obtain ⟨next, mergedFirst, mergedRest⟩ := succeeded
      exact ih (wellFormed_mergeOne wellFormed mergedFirst) mergedRest

/-- A module that is loaded holds no key twice, and no values of literals. -/
theorem wellFormed_of_loadModule {root : String}
    (loaded : (loadModule disk root).result = .ok module) : module.WellFormed literal := by
  simp only [loadModule, merge, Logged.result_bind, bind_eq_ok] at loaded
  obtain ⟨store, -, merged⟩ := loaded
  exact wellFormed_mergeFrom coreModule_wellFormed merged

end Store

end ConfigContract
