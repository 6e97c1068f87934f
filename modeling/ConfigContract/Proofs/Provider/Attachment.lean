import ConfigContract.Proofs.Except
import ConfigContract.Proofs.Provider.Merge

/-!
What the providers of a store attach to a module, as one list of bodies for each of the three blocks
that take them, how merging fails, and which schema documents the attached bodies come from.
-/

namespace ConfigContract

structure Attachment where
  providers : OrderedMap String Body := []
  resources : OrderedMap String Body := []
  dataSources : OrderedMap String Body := []

def Attachment.bodies (attachment : Attachment) : List Body :=
  OrderedMap.values (attachment.providers ++ attachment.resources ++ attachment.dataSources)

def Block.extend (block : Block) (attached : OrderedMap String Body) : Block :=
  { block with dependents := block.dependents ++ attached.map fun (value, body) =>
      ⟨[⟨0, value⟩], body⟩ }

def Attachment.forBlock (attachment : Attachment) (block : String) : OrderedMap String Body :=
  if block = "provider" then attachment.providers
  else if block = "resource" then attachment.resources
  else if block = "data" then attachment.dataSources
  else []

def Body.extendedBy (module : Body) (attachment : Attachment) : Body :=
  { module with blocks := module.blocks.map fun (name, block) =>
      (name, block.extend (attachment.forBlock name)) }

def coreModuleWith (attachment : Attachment) : Body :=
  { blocks := [
      ("terraform", CoreModule.terraform),
      ("provider", CoreModule.provider.extend attachment.providers),
      ("resource", CoreModule.resource.extend attachment.resources),
      ("data", CoreModule.data.extend attachment.dataSources),
      ("module", CoreModule.moduleCall),
      ("variable", CoreModule.variableBlock),
      ("output", CoreModule.output),
      ("locals", CoreModule.locals)] }

theorem Block.extend_nil (block : Block) : block.extend [] = block := by
  cases block
  simp [extend]

theorem Block.extend_append (block : Block) (first second : OrderedMap String Body) :
    block.extend (first ++ second) = (block.extend first).extend second := by
  simp [extend]

theorem Block.extend_single (block : Block) (value : String) (body : Body) :
    block.extend [(value, body)] = block.addDependent 0 value body := rfl

theorem coreModule_eq : coreModule = coreModuleWith {} := by
  simp [coreModule, coreModuleWith, Body.addBlock, OrderedMap.insert, Block.extend_nil]

theorem coreModule_extendedBy (attachment : Attachment) :
    coreModule.extendedBy attachment = coreModuleWith attachment := by
  simp [coreModule_eq, coreModuleWith, Body.extendedBy, Attachment.forBlock, Block.extend_nil]

theorem distinct_coreModule : OrderedMap.Distinct coreModule.blocks := by
  simp [coreModule_eq, coreModuleWith]

/-! Attaching bodies to a module -/

section Attach

variable {module : Body}

theorem Attachment.forBlock_nil (block : String) : ({} : Attachment).forBlock block = [] := by
  simp [forBlock]

theorem Body.extendedBy_nil (module : Body) : module.extendedBy {} = module := by
  cases module
  simp [extendedBy, Attachment.forBlock_nil, Block.extend_nil]

theorem Body.keys_extendedBy (module : Body) (attachment : Attachment) :
    OrderedMap.keys (module.extendedBy attachment).blocks = OrderedMap.keys module.blocks := by
  simp [extendedBy, OrderedMap.keys, Function.comp_def]

/-- Attaching a body for a value of a block is the same as having it in the attachment, whether the
module has the block or not. -/
theorem attach_extendedBy (distinct : OrderedMap.Distinct module.blocks) {given grown : Attachment}
    {block value : String} {body : Body}
    (here : grown.forBlock block = given.forBlock block ++ [(value, body)])
    (elsewhere : ∀ name, name ≠ block → grown.forBlock name = given.forBlock name) :
    ((module.extendedBy given).attach block value body).result = .ok (module.extendedBy grown) := by
  have keys := module.keys_extendedBy given
  unfold Body.attach
  split
  next =>
    have distinctGiven : OrderedMap.Distinct (module.extendedBy given).blocks := .of_keys keys distinct
    have extended : OrderedMap.modify block (fun known => known.addDependent 0 value body)
        (module.extendedBy given).blocks = (module.extendedBy grown).blocks := by
      rw [OrderedMap.modify_of_distinct _ _ distinctGiven]
      simp only [Body.extendedBy, List.map_map]
      refine List.map_congr_left fun entry _ => ?_
      by_cases same : entry.1 = block
      · simp [same, here, Block.extend_append, Block.extend_single]
      · simp [same, elsewhere entry.1 same]
    exact congrArg (fun blocks => Except.ok { module with blocks }) extended
  next absent =>
    have unchanged : (module.extendedBy given).blocks = (module.extendedBy grown).blocks := by
      simp only [Body.extendedBy]
      refine List.map_congr_left fun entry member => ?_
      have known : entry.1 ∈ OrderedMap.keys (module.extendedBy given).blocks :=
        keys ▸ List.mem_map_of_mem member
      have other : entry.1 ≠ block := by
        rintro rfl
        exact absent (OrderedMap.contains_iff.mpr known)
      rw [elsewhere entry.1 other]
    exact congrArg (fun blocks => Except.ok { module with blocks }) unchanged

/-- Bodies are attached one by one; `grow` is the module with those attached so far. -/
theorem attachAll_result {block : String} (grow : OrderedMap String Body → Body)
    (step : ∀ before value body, ((grow before).attach block value body).result =
      .ok (grow (before ++ [(value, body)])))
    (before bodies : OrderedMap String Body) :
    (Body.attachAll block bodies (grow before)).result = .ok (grow (before ++ bodies)) := by
  induction bodies generalizing before with
  | nil => simp [Body.attachAll]
  | cons entry rest ih => simp [Body.attachAll, step, ih]

variable (distinct : OrderedMap.Distinct module.blocks) (attachment : Attachment)
include distinct

theorem attach_provider (value : String) (body : Body) :
    ((module.extendedBy attachment).attach "provider" value body).result =
      .ok (module.extendedBy { attachment with
        providers := attachment.providers ++ [(value, body)] }) :=
  attach_extendedBy distinct rfl fun name other => by simp [Attachment.forBlock, other]

theorem attachAll_resource (bodies : OrderedMap String Body) :
    (Body.attachAll "resource" bodies (module.extendedBy attachment)).result =
      .ok (module.extendedBy { attachment with resources := attachment.resources ++ bodies }) :=
  attachAll_result (fun resources => module.extendedBy { attachment with resources })
    (fun _ _ _ => attach_extendedBy distinct rfl fun name other => by
      simp [Attachment.forBlock, other]) attachment.resources bodies

theorem attachAll_data (bodies : OrderedMap String Body) :
    (Body.attachAll "data" bodies (module.extendedBy attachment)).result =
      .ok (module.extendedBy { attachment with
        dataSources := attachment.dataSources ++ bodies }) :=
  attachAll_result (fun dataSources => module.extendedBy { attachment with dataSources })
    (fun _ _ _ => attach_extendedBy distinct rfl fun name other => by
      simp [Attachment.forBlock, other]) attachment.dataSources bodies

end Attach

/-- A body that a module has no block for is dropped, so attaching never fails. -/
theorem exists_attach (module : Body) (block value : String) (body : Body) :
    ∃ extended, (module.attach block value body).result = .ok extended := by
  unfold Body.attach
  split <;> simp

theorem exists_attachAll (block : String) (bodies : OrderedMap String Body) (module : Body) :
    ∃ extended, (Body.attachAll block bodies module).result = .ok extended := by
  induction bodies generalizing module with
  | nil => simp [Body.attachAll]
  | cons entry rest ih =>
      obtain ⟨value, body⟩ := entry
      obtain ⟨next, attached⟩ := exists_attach module block value body
      obtain ⟨extended, attachedRest⟩ := ih next
      exact ⟨extended, by simp [Body.attachAll, attached, attachedRest]⟩

/-! Merging a store -/

namespace Store

def addresses (store : Store) : List Address := (OrderedMap.values store.references).eraseDups

def schemaAt (disk : Disk) (store : Store) (address : Address) :
    Except SourceError ProviderSchema :=
  match OrderedMap.get? address store.requirements with
  | none => .error (.providerNotFound address)
  | some constraint => (store.providerSchema disk address constraint).result

/-- What local names attach after some addresses: an address brings its resources and data sources
only when it is met first. -/
def attachmentFrom (schemas : Address → ProviderSchema) (references : OrderedMap String Address)
    (attached : List Address) : Attachment :=
  let fresh := ((OrderedMap.values references).filter (· ∉ attached)).eraseDups
  { providers := OrderedMap.mapValues (fun address => (schemas address).provider) references
    resources := fresh.flatMap fun address => (schemas address).resources
    dataSources := fresh.flatMap fun address => (schemas address).dataSources }

def attachment (schemas : Address → ProviderSchema) (store : Store) : Attachment :=
  { providers := OrderedMap.mapValues (fun address => (schemas address).provider) store.references
    resources := store.addresses.flatMap fun address => (schemas address).resources
    dataSources := store.addresses.flatMap fun address => (schemas address).dataSources }

variable {disk : Disk} {store : Store}

theorem attachmentFrom_nil (schemas : Address → ProviderSchema) (store : Store) :
    attachmentFrom schemas store.references [] = store.attachment schemas := by
  simp [attachmentFrom, attachment, addresses]

theorem mergeOne_result {core : Body} (distinct : OrderedMap.Distinct core.blocks)
    (attached : List Address) (given : Attachment) (localName : String)
    {address : Address} {schema : ProviderSchema}
    (found : store.schemaAt disk address = .ok schema) :
    (store.mergeOne disk attached (core.extendedBy given) localName address).result =
      .ok (core.extendedBy {
        providers := given.providers ++ [(localName, schema.provider)]
        resources := given.resources ++ if address ∈ attached then [] else schema.resources
        dataSources :=
          given.dataSources ++ if address ∈ attached then [] else schema.dataSources }) := by
  unfold schemaAt at found
  unfold mergeOne
  cases required : OrderedMap.get? address store.requirements with
  | none => simp [required] at found
  | some constraint =>
      rw [required] at found
      by_cases known : address ∈ attached
      · simp [found, attach_provider distinct, known]
      · simp [found, attach_provider distinct, known, attachAll_resource distinct,
          attachAll_data distinct]

theorem fresh_cons (address : Address) (rest attached : List Address) :
    ((address :: rest).filter (· ∉ attached)).eraseDups =
      (if address ∈ attached then [] else [address]) ++
        (rest.filter (· ∉ address :: attached)).eraseDups := by
  by_cases known : address ∈ attached
  · have same : rest.filter (· ∉ address :: attached) = rest.filter (· ∉ attached) := by
      apply List.filter_congr
      intro other _
      by_cases equal : other = address <;> simp [equal, known]
    rw [List.filter_cons_of_neg (by simpa using known), same]
    simp [known]
  · have split : rest.filter (· ∉ address :: attached) =
        (rest.filter (· ∉ attached)).filter (fun other => !other == address) := by
      rw [List.filter_filter]
      apply List.filter_congr
      intro other _
      by_cases equal : other = address <;> simp [equal]
    rw [List.filter_cons_of_pos (by simpa using known), List.eraseDups_cons, split]
    simp [known]

theorem mergeFrom_result {core : Body} (distinct : OrderedMap.Distinct core.blocks)
    {schemas : Address → ProviderSchema} {references : OrderedMap String Address}
    (found : ∀ address ∈ OrderedMap.values references,
      store.schemaAt disk address = .ok (schemas address))
    (attached : List Address) (given : Attachment) :
    (store.mergeFrom disk references attached (core.extendedBy given)).result =
      .ok (core.extendedBy {
        providers := given.providers ++ (attachmentFrom schemas references attached).providers
        resources := given.resources ++ (attachmentFrom schemas references attached).resources
        dataSources :=
          given.dataSources ++ (attachmentFrom schemas references attached).dataSources }) := by
  induction references generalizing attached given with
  | nil => simp [mergeFrom, attachmentFrom, OrderedMap.values, OrderedMap.mapValues]
  | cons entry rest ih =>
      obtain ⟨localName, address⟩ := entry
      obtain ⟨first, others⟩ := List.forall_mem_cons.mp found
      have fresh := fresh_cons address (OrderedMap.values rest) attached
      rw [mergeFrom, Logged.result_bind, mergeOne_result distinct attached given localName first,
        ok_bind, ih others]
      simp only [attachmentFrom, OrderedMap.mapValues, OrderedMap.values, List.map_cons] at fresh ⊢
      rw [fresh]
      by_cases known : address ∈ attached <;> simp [known]

theorem merge_extends {core : Body} (distinct : OrderedMap.Distinct core.blocks)
    {schemas : Address → ProviderSchema}
    (found : ∀ address ∈ OrderedMap.values store.references,
      store.schemaAt disk address = .ok (schemas address)) :
    (store.merge disk core).result = .ok (core.extendedBy (store.attachment schemas)) := by
  have merged := mergeFrom_result distinct found [] {}
  rw [Body.extendedBy_nil, attachmentFrom_nil] at merged
  exact merged

theorem loadModule_ok {root : String} {module : Body}
    (loaded : (loadModule disk root).result = .ok module) : ∃ store : Store,
      (openAt disk root).result = .ok store ∧
        (store.merge disk coreModule).result = .ok module := by
  simpa only [loadModule, Logged.result_bind, bind_eq_ok] using loaded

/-! What a merged store has found -/

theorem mergeOne_of_error (attached : List Address) (module : Body) (localName : String)
    {address : Address} {error : SourceError}
    (failed : store.schemaAt disk address = .error error) :
    (store.mergeOne disk attached module localName address).result = .error error := by
  unfold schemaAt at failed
  unfold mergeOne
  cases required : OrderedMap.get? address store.requirements with
  | none => simpa [required] using failed
  | some constraint =>
      rw [required] at failed
      simp [failed]

theorem exists_mergeOne (attached : List Address) (module : Body) (localName : String)
    {address : Address} {schema : ProviderSchema}
    (found : store.schemaAt disk address = .ok schema) :
    ∃ merged, (store.mergeOne disk attached module localName address).result = .ok merged := by
  unfold schemaAt at found
  unfold mergeOne
  cases required : OrderedMap.get? address store.requirements with
  | none => simp [required] at found
  | some constraint =>
      rw [required] at found
      obtain ⟨withProvider, attachedProvider⟩ :=
        exists_attach module "provider" localName schema.provider
      obtain ⟨withResources, attachedResources⟩ :=
        exists_attachAll "resource" schema.resources withProvider
      obtain ⟨merged, attachedDataSources⟩ :=
        exists_attachAll "data" schema.dataSources withResources
      by_cases known : address ∈ attached
      · exact ⟨withProvider, by simp [found, attachedProvider, known]⟩
      · exact ⟨merged, by
          simp [found, attachedProvider, attachedResources, attachedDataSources, known]⟩

theorem mergeFrom_eq_error_iff {references : OrderedMap String Address} {attached : List Address}
    {module : Body} {error : SourceError} :
    (store.mergeFrom disk references attached module).result = .error error ↔
      FailsFirst (fun entry => store.schemaAt disk entry.2) references error := by
  induction references generalizing attached module with
  | nil => simpa [mergeFrom] using FailsFirst.not_nil
  | cons entry rest ih =>
      obtain ⟨localName, address⟩ := entry
      rw [mergeFrom, Logged.result_bind]
      cases found : store.schemaAt disk address with
      | error fault =>
          have first : FailsFirst (fun entry => store.schemaAt disk entry.2)
              ((localName, address) :: rest) error ↔ fault = error :=
            FailsFirst.cons_of_error found
          rw [mergeOne_of_error attached module localName found, first]
          simp
      | ok schema =>
          have later : FailsFirst (fun entry => store.schemaAt disk entry.2)
              ((localName, address) :: rest) error ↔ FailsFirst _ rest error :=
            FailsFirst.cons_of_ok found
          obtain ⟨next, merged⟩ := exists_mergeOne attached module localName found
          rw [merged, later]
          exact ih

theorem exists_merge_iff {core : Body} :
    (∃ module, (store.merge disk core).result = .ok module) ↔
      ∀ address ∈ OrderedMap.values store.references, ∃ schema,
        store.schemaAt disk address = .ok schema := by
  have same (error : SourceError) : (store.merge disk core).result = .error error ↔
      (store.references.mapM fun entry => store.schemaAt disk entry.2) = .error error :=
    mergeFrom_eq_error_iff.trans mapM_eq_error_iff.symm
  calc (∃ module, (store.merge disk core).result = .ok module)
    _ ↔ ∀ error, (store.merge disk core).result ≠ .error error := exists_ok_iff_not_error
    _ ↔ ∀ error, (store.references.mapM fun entry => store.schemaAt disk entry.2) ≠ .error error :=
      forall_congr' fun error => not_congr (same error)
    _ ↔ ∀ entry ∈ store.references, ∃ schema, store.schemaAt disk entry.2 = .ok schema := by
      rw [← exists_ok_iff_not_error, exists_mapM_iff]
    _ ↔ _ := by simp only [OrderedMap.values, List.forall_mem_map]

/-- A store that is merged into a module has a schema for every address, and attaches these. -/
theorem merge_extends_of_ok {core module : Body} (distinct : OrderedMap.Distinct core.blocks)
    (merged : (store.merge disk core).result = .ok module) :
    ∃ schemas : Address → ProviderSchema,
      (∀ address ∈ OrderedMap.values store.references,
        store.schemaAt disk address = .ok (schemas address)) ∧
      module = core.extendedBy (store.attachment schemas) := by
  have all := exists_merge_iff.mp ⟨module, merged⟩
  have found : ∀ address ∈ OrderedMap.values store.references, store.schemaAt disk address =
      .ok ((store.schemaAt disk address).toOption.getD {}) := by
    intro address member
    obtain ⟨schema, known⟩ := all address member
    simp [known, Except.toOption]
  exact ⟨_, found, Except.ok.inj (merged.symm.trans (merge_extends distinct found))⟩

/-- A store that is merged into the core module has a schema for every address, and the module is
the core module with what these schemas attach. -/
theorem merge_ok {module : Body} (merged : (store.merge disk coreModule).result = .ok module) :
    ∃ schemas : Address → ProviderSchema,
      (∀ address ∈ OrderedMap.values store.references,
        store.schemaAt disk address = .ok (schemas address)) ∧
      module = coreModuleWith (store.attachment schemas) := by
  obtain ⟨schemas, found, rfl⟩ := merge_extends_of_ok distinct_coreModule merged
  exact ⟨schemas, found, coreModule_extendedBy _⟩

end Store

/-! Where the attached bodies come from -/

def ProviderSchema.bodies (schema : ProviderSchema) : List Body :=
  schema.provider :: OrderedMap.values (schema.resources ++ schema.dataSources)

def ProviderDeclaration.blocks (declaration : ProviderDeclaration) : List BlockDeclaration :=
  (declaration.provider.toList ++
    OrderedMap.values (declaration.resources ++ declaration.dataSources)).map
      SchemaDeclaration.block

theorem ProviderDeclaration.mem_bodies_toSchema {declaration : ProviderDeclaration} {body : Body}
    (member : body ∈ declaration.toSchema.bodies) :
    body = ({} : BlockDeclaration).toBody ∨ ∃ block ∈ declaration.blocks, body = block.toBody := by
  obtain ⟨provider, resources, dataSources⟩ := declaration
  rcases List.mem_cons.mp member with rfl | listed
  · cases provider with
    | none => exact .inl rfl
    | some schema => exact .inr ⟨schema.block, by simp [blocks], rfl⟩
  · simp only [toSchema, ProviderDeclaration.bodies, OrderedMap.mapValues, ← List.map_append,
      OrderedMap.values, List.map_map, List.mem_map] at listed
    obtain ⟨entry, known, rfl⟩ := listed
    refine .inr ⟨entry.2.block, ?_, rfl⟩
    simp only [blocks, OrderedMap.values, List.map_append, List.mem_append, List.mem_map]
    exact .inr (List.mem_append.mp known |>.imp
      (fun here => ⟨_, ⟨entry, here, rfl⟩, rfl⟩) fun here => ⟨_, ⟨entry, here, rfl⟩, rfl⟩)

namespace Store

variable {disk : Disk} {store : Store}

theorem mem_bodies_attachment {schemas : Address → ProviderSchema} {body : Body}
    (member : body ∈ (store.attachment schemas).bodies) :
    ∃ address ∈ OrderedMap.values store.references, body ∈ (schemas address).bodies := by
  simp only [Attachment.bodies, attachment, addresses, OrderedMap.values, OrderedMap.mapValues,
    List.map_append, List.mem_append, List.map_map, List.mem_map, List.map_flatMap,
    List.mem_flatMap, List.mem_eraseDups] at member ⊢
  rcases member with (⟨entry, known, rfl⟩ | ⟨address, known, entry, listed, rfl⟩) |
    ⟨address, known, entry, listed, rfl⟩
  · exact ⟨entry.2, ⟨entry, known, rfl⟩, List.mem_cons_self⟩
  · exact ⟨address, known, List.mem_cons_of_mem _
      (List.mem_map_of_mem (List.mem_append_left _ listed))⟩
  · exact ⟨address, known, List.mem_cons_of_mem _
      (List.mem_map_of_mem (List.mem_append_right _ listed))⟩

theorem wellFormed_schemaAt {address : Address} {schema : ProviderSchema} {literal : Json → Prop}
    (found : store.schemaAt disk address = .ok schema) :
    ∀ body ∈ schema.bodies, body.WellFormed literal := by
  unfold schemaAt at found
  split at found
  next => cases found
  next constraint required =>
    obtain ⟨providerGood, resourcesGood, dataSourcesGood⟩ : schema.WellFormed literal :=
      wellFormed_of_providerSchema found
    simp only [ProviderSchema.bodies, OrderedMap.values, List.forall_mem_cons, List.forall_mem_map,
      List.forall_mem_append]
    exact ⟨providerGood, resourcesGood, dataSourcesGood⟩

theorem schemaAt_ok {address : Address} {schema : ProviderSchema}
    (found : store.schemaAt disk address = .ok schema) :
    ∃ provider document declaration, OrderedMap.get? address store.providers = some provider ∧
      readFile disk Document.read provider.schemaFile = .ok document ∧
      OrderedMap.get? address.render document.providers = some declaration ∧
      schema = declaration.toSchema := by
  unfold schemaAt at found
  split at found
  next => cases found
  next constraint required =>
    unfold providerSchema at found
    split at found
    next => cases found
    next provider known =>
      split at found
      next => cases found
      next =>
        simp only [Logged.result_bind, Logged.result_ofExcept, bind_eq_ok] at found
        obtain ⟨document, read, found⟩ := found
        split at found
        next => cases found
        next declaration listed =>
          cases found
          exact ⟨provider, document, declaration, known, read, listed, rfl⟩

end Store

end ConfigContract
