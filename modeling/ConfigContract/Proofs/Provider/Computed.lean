import ConfigContract.Proofs.Lowering.Fresh
import ConfigContract.Proofs.Provider.Content

/-!
The computed attributes of a merged store. The documents of providers may repeat names of the core
module and of each other; no note is left stale by that, since the core module notes nothing.
-/

namespace ConfigContract

open OrderedMap (keys)

/-! Documents that use each name of a block once -/

mutual

def BlockDeclaration.Unambiguous : BlockDeclaration → Prop
  | ⟨attributes, blockTypes, _, _⟩ =>
      (∀ key ∈ keys attributes, key ∉ keys blockTypes) ∧ nestedBlocksUnambiguous blockTypes

def NestedBlock.Unambiguous : NestedBlock → Prop
  | ⟨_, block, _, _⟩ => block.Unambiguous

def nestedBlocksUnambiguous : List (String × NestedBlock) → Prop
  | [] => True
  | (_, nested) :: rest => nested.Unambiguous ∧ nestedBlocksUnambiguous rest

end

def Document.Unambiguous (document : Document) : Prop :=
  ∀ entry ∈ document.providers, ∀ block ∈ entry.2.blocks, block.Unambiguous

def Store.Unambiguous (disk : Disk) (store : Store) : Prop :=
  ∀ entry ∈ store.providers, ∀ document,
    Store.readFile disk Document.read entry.2.schemaFile = .ok document → document.Unambiguous

mutual

def BlockDeclaration.decideUnambiguous : (declaration : BlockDeclaration) →
    Decidable declaration.Unambiguous
  | ⟨attributes, blockTypes, _, _⟩ =>
      have := decideNestedBlocksUnambiguous blockTypes
      inferInstanceAs (Decidable ((∀ key ∈ keys attributes, key ∉ keys blockTypes) ∧
        nestedBlocksUnambiguous blockTypes))

def NestedBlock.decideUnambiguous : (nested : NestedBlock) → Decidable nested.Unambiguous
  | ⟨_, block, _, _⟩ => block.decideUnambiguous

def decideNestedBlocksUnambiguous : (blockTypes : List (String × NestedBlock)) →
    Decidable (nestedBlocksUnambiguous blockTypes)
  | [] => .isTrue trivial
  | (_, nested) :: rest =>
      have := nested.decideUnambiguous
      have := decideNestedBlocksUnambiguous rest
      inferInstanceAs (Decidable (nested.Unambiguous ∧ nestedBlocksUnambiguous rest))

end

instance : DecidablePred BlockDeclaration.Unambiguous := BlockDeclaration.decideUnambiguous

instance : DecidablePred Document.Unambiguous := fun document =>
  inferInstanceAs (Decidable (∀ entry ∈ document.providers, ∀ block ∈ entry.2.blocks,
    block.Unambiguous))

theorem Store.unambiguous_iff {disk : Disk} {store : Store} : store.Unambiguous disk ↔
    ∀ entry ∈ store.providers, ∀ document ∈
      (Store.readFile disk Document.read entry.2.schemaFile).toOption, document.Unambiguous := by
  have ofRead (result : Except SourceError Document) (document : Document) :
      document ∈ result.toOption ↔ result = .ok document := by
    cases result <;> simp [Except.toOption]
  simp only [Store.Unambiguous, ofRead]

instance (disk : Disk) (store : Store) : Decidable (store.Unambiguous disk) :=
  decidable_of_iff' _ Store.unambiguous_iff

theorem BlockDeclaration.nodup_names_toBody {declaration : BlockDeclaration}
    (wellFormed : declaration.WellFormed) (unambiguous : declaration.Unambiguous) :
    declaration.toBody.names.Nodup := by
  rw [names_toBody, names, List.nodup_append]
  obtain ⟨attributes, blockTypes, description, deprecated⟩ := declaration
  refine ⟨wellFormed.1, wellFormed.2.2.1, fun key declared other nested same => ?_⟩
  exact unambiguous.1 key declared (same ▸ nested)

mutual

theorem BlockDeclaration.fresh_toBody : ∀ declaration : BlockDeclaration,
    declaration.WellFormed → declaration.Unambiguous → ∀ path,
      ¬ Body.LeavesStale [declaration.toBody] path
  | ⟨attributes, blockTypes, description, deprecated⟩, wellFormed, unambiguous, path => by
      refine Body.fresh_of_nodup ?_ fun key block declares _ tuple _ _ => ?_
      · simpa using BlockDeclaration.nodup_names_toBody wellFormed unambiguous
      · obtain ⟨body, bodyMem, declared⟩ := Body.mem_allDeclarations.mp declares
        cases List.mem_singleton.mp bodyMem
        rcases Body.mem_declarations declared with ⟨_, -, other⟩ | ⟨nested, listed, same⟩
        · cases other
        · cases same
          exact fresh_declaredBlocks blockTypes wellFormed.2.2.2 unambiguous.2 _ listed tuple _

theorem NestedBlock.fresh_toBlock : ∀ nested : NestedBlock,
    nested.WellFormed → nested.Unambiguous → ∀ tuple path,
      ¬ Body.LeavesStale (nested.toBlock.bodiesFor tuple) path
  | ⟨nesting, block, minItems, maxItems⟩, wellFormed, unambiguous, tuple, path => by
      have bare : (NestedBlock.toBlock ⟨nesting, block, minItems, maxItems⟩).dependents = [] := by
        rw [NestedBlock.toBlock]
        exact nesting.dependents_toBlock
      rw [Block.bodiesFor_of_bare bare]
      exact block.fresh_toBody wellFormed unambiguous path

theorem fresh_declaredBlocks : ∀ blockTypes : List (String × NestedBlock),
    nestedBlocksWellFormed blockTypes → nestedBlocksUnambiguous blockTypes →
      ∀ entry ∈ declaredBlocks blockTypes, ∀ tuple path,
        ¬ Body.LeavesStale (entry.2.bodiesFor tuple) path
  | [], _, _ => nofun
  | (_, nested) :: rest, wellFormed, unambiguous =>
      List.forall_mem_cons.mpr ⟨nested.fresh_toBlock wellFormed.1 unambiguous.1,
        fresh_declaredBlocks rest wellFormed.2 unambiguous.2⟩

end

/-! The core module notes nothing -/

section CoreModule

open CoreModule

theorem silent_provider (path : Path) : provider.ownBody.Silent path := ⟨_, rfl, rfl⟩

theorem silent_data (path : Path) : data.ownBody.Silent path := ⟨_, rfl, rfl⟩

theorem silent_resource (type : String) :
    resource.ownBody.Silent ⟨["resource", type, Path.anyLabel]⟩ := ⟨_, rfl, rfl⟩

theorem silent_coreModule : coreModule.Silent .root := ⟨_, rfl, rfl⟩

end CoreModule

/-! What a store attaches -/

def FromDeclaration (body : Body) : Prop :=
  ∃ block : BlockDeclaration, block.WellFormed ∧ block.Unambiguous ∧ body = block.toBody

theorem ProviderDeclaration.WellFormed.blocks {declaration : ProviderDeclaration}
    (wellFormed : declaration.WellFormed) : ∀ block ∈ declaration.blocks, block.WellFormed := by
  obtain ⟨providerGood, resourcesGood, dataSourcesGood⟩ := wellFormed
  simp only [ProviderDeclaration.blocks, OrderedMap.values, List.forall_mem_map,
    List.forall_mem_append]
  exact ⟨fun schema known => providerGood schema (Option.mem_toList.mp known), resourcesGood,
    dataSourcesGood⟩

namespace Store

variable {disk : Disk} {store : Store} {schemas : Address → ProviderSchema}

theorem exists_declaration (unambiguous : store.Unambiguous disk)
    (found : ∀ address ∈ OrderedMap.values store.references,
      store.schemaAt disk address = .ok (schemas address)) {body : Body}
    (member : body ∈ (store.attachment schemas).bodies) :
    FromDeclaration body := by
  obtain ⟨address, configured, listed⟩ := mem_bodies_attachment member
  obtain ⟨provider, document, declaration, known, read, declared, same⟩ :=
    schemaAt_ok (found address configured)
  obtain ⟨text, -, readText⟩ := readFile_ok read
  have declaredMem := OrderedMap.mem_of_get? declared
  have wellFormed := Document.wellFormed_of_read readText _ declaredMem
  have plain := unambiguous _ (OrderedMap.mem_of_get? known) document read _ declaredMem
  rw [same] at listed
  rcases ProviderDeclaration.mem_bodies_toSchema listed with rfl | ⟨block, blockMem, rfl⟩
  · exact ⟨{}, ⟨OrderedMap.distinct_nil, trivial, OrderedMap.distinct_nil, trivial⟩,
      ⟨nofun, trivial⟩, rfl⟩
  · exact ⟨block, wellFormed.blocks block blockMem, plain block blockMem, rfl⟩

end Store

/-! No note of a merged store is stale -/

theorem fresh_extended {block : Block} {common : Body} {attached : OrderedMap String Body}
    (extensible : block.Extensible common)
    (declared : ∀ entry ∈ attached, FromDeclaration entry.2) {label : Label} {labels : List Label}
    (first : (block.extend attached).labels = label :: labels)
    (completable : label.completable = true) (free : ∀ other ∈ labels, other.completable = false)
    {value : String} (named : value ∈ (block.extend attached).namedValues 0) (rest : List String)
    {path : Path} (silent : common.Silent path) :
    ¬ Body.LeavesStale ((block.extend attached).bodiesFor (value :: rest)) path := by
  obtain ⟨own, selected, bodies⟩ := extensible.exists_bodiesFor first completable free named
  have listed := List.mem_reverse.mp (OrderedMap.mem_of_get? selected)
  obtain ⟨declaration, wellFormed, unambiguous, rfl⟩ := declared _ listed
  rw [bodies]
  exact Body.fresh_join silent extensible.wellFormed
    (BlockDeclaration.nodup_names_toBody wellFormed unambiguous)
    (declaration.fresh_toBody wellFormed unambiguous path)

/-- Only three blocks of the core module change when bodies are attached. -/
theorem mem_coreModuleWith {attachment : Attachment} {entry : String × Declaration}
    (declares : entry ∈ Body.allDeclarations [coreModuleWith attachment]) :
    entry ∈ Body.allDeclarations [coreModule] ∨
      entry = ("provider", .block (CoreModule.provider.extend attachment.providers)) ∨
      entry = ("resource", .block (CoreModule.resource.extend attachment.resources)) ∨
      entry = ("data", .block (CoreModule.data.extend attachment.dataSources)) := by
  simp only [Body.allDeclarations, Body.declarations, coreModuleWith, OrderedMap.mapValues,
    List.flatMap_singleton, List.map_nil, List.nil_append, List.map_cons, List.mem_cons,
    List.not_mem_nil, or_false] at declares
  rcases declares with rfl | rfl | rfl | rfl | rfl | rfl | rfl | rfl
  · exact .inl (Body.survivor?_mem rfl)
  · exact .inr (.inl rfl)
  · exact .inr (.inr (.inl rfl))
  · exact .inr (.inr (.inr rfl))
  all_goals exact .inl (Body.survivor?_mem rfl)

theorem fresh_coreModuleWith {attachment : Attachment}
    (declared : ∀ body ∈ attachment.bodies, FromDeclaration body) :
    ¬ Body.LeavesStale [coreModuleWith attachment] .root := by
  have coreGood : coreModule.WellFormed fun _ => True := coreModule_wellFormed
  simp only [Attachment.bodies, OrderedMap.values, List.map_append, List.forall_mem_append,
    List.forall_mem_map] at declared
  obtain ⟨⟨providers, resources⟩, dataSources⟩ := declared
  refine Body.fresh_of_nodup ?_ fun key block declares noCatchAll tuple label kept => ?_
  · show ["terraform", "provider", "resource", "data", "module", "variable", "output",
      "locals"].Nodup
    decide
  · rcases mem_coreModuleWith declares with core | provider | resource | data
    · exact fun stale =>
        silent_coreModule.fresh coreGood (.inBlock core noCatchAll label kept stale)
    · cases provider
      rw [Block.tuples_of_label rfl rfl] at label
      obtain ⟨value, named, rfl⟩ := List.mem_map.mp label
      exact fresh_extended extensible_provider providers rfl rfl (List.forall_mem_nil _) named []
        (silent_provider _)
    · cases resource
      rw [Block.tuples_of_labels rfl rfl rfl] at label
      obtain ⟨value, named, rfl⟩ := List.mem_map.mp label
      exact fresh_extended extensible_resource resources rfl rfl (List.forall_mem_singleton.mpr rfl)
        named [Path.anyLabel] (silent_resource value)
    · cases data
      rw [Block.tuples_of_labels rfl rfl rfl] at label
      obtain ⟨value, named, rfl⟩ := List.mem_map.mp label
      exact fresh_extended extensible_data dataSources rfl rfl (List.forall_mem_singleton.mpr rfl)
        named [Path.anyLabel] (silent_data _)

/-! Where a merged store notes something -/

inductive Store.Brings (disk : Disk) (store : Store) : List String → Prop
  | provider {localName : String} (configured : localName ∈ keys store.references) :
      Brings disk store ["provider", localName]
  | resource {address : Address} {schema : ProviderSchema} {type : String}
      (configured : address ∈ store.addresses)
      (found : store.schemaAt disk address = .ok schema) (declared : type ∈ keys schema.resources) :
      Brings disk store ["resource", type, Path.anyLabel]
  | dataSource {address : Address} {schema : ProviderSchema} {type : String}
      (configured : address ∈ store.addresses)
      (found : store.schemaAt disk address = .ok schema)
      (declared : type ∈ keys schema.dataSources) :
      Brings disk store ["data", type, Path.anyLabel]

namespace Block.Extensible

variable {block : Block} {common : Body} {attached : OrderedMap String Body} {path : Path}
  {lowered : Lowered Member} {field : ComputedField}

/-- With one label, notes stand below the values that bodies are attached for. -/
theorem under_label (extensible : block.Extensible common) {label : Label}
    (labels : (block.extend attached).labels = [label]) (completable : label.completable = true)
    (wellFormed : (block.extend attached).WellFormed fun _ => True)
    (succeeded : ((block.extend attached).lower path).result = .ok lowered)
    (noted : field ∈ lowered.fields) :
    ∃ value ∈ keys attached, path.segments ++ [value] <+: field.path := by
  obtain ⟨tuple, leads, rest, split⟩ :=
    under_tuples wellFormed extensible.noCatchAll succeeded noted
  rw [tuples_of_label labels completable, namedValues_extend extensible.bare] at leads
  obtain ⟨value, named, rfl⟩ := List.mem_map.mp leads
  exact ⟨value, List.mem_eraseDups.mp named, rest, by rw [split, List.append_assoc]⟩

/-- With a free label after the first, notes stand in what the dictionaries hold. -/
theorem under_labels (extensible : block.Extensible common) {label free : Label}
    (labels : (block.extend attached).labels = [label, free])
    (completable : label.completable = true) (notCompletable : free.completable = false)
    (wellFormed : (block.extend attached).WellFormed fun _ => True)
    (succeeded : ((block.extend attached).lower path).result = .ok lowered)
    (noted : field ∈ lowered.fields) :
    ∃ value ∈ keys attached, path.segments ++ [value, Path.anyLabel] <+: field.path := by
  obtain ⟨tuple, leads, rest, split⟩ :=
    under_tuples wellFormed extensible.noCatchAll succeeded noted
  rw [tuples_of_labels labels completable notCompletable, namedValues_extend extensible.bare]
    at leads
  obtain ⟨value, named, rfl⟩ := List.mem_map.mp leads
  exact ⟨value, List.mem_eraseDups.mp named, rest, by rw [split, List.append_assoc]⟩

end Block.Extensible

theorem Store.brings_of_noted {disk : Disk} {store : Store} {schemas : Address → ProviderSchema}
    (found : ∀ address ∈ store.addresses, store.schemaAt disk address = .ok (schemas address))
    (wellFormed : (coreModuleWith (store.attachment schemas)).WellFormed fun _ => True)
    {lowered : Lowered Members}
    (lowers : (Body.lowerAll [coreModuleWith (store.attachment schemas)] .root).result =
      .ok lowered) {field : ComputedField} (noted : field ∈ lowered.fields) :
    ∃ place, store.Brings disk place ∧ place <+: field.path := by
  have only : ∀ body ∈ [coreModuleWith (store.attachment schemas)],
      body.WellFormed fun _ => True := by simpa using wellFormed
  have loweredAt := Body.loweredAt only lowers
  rw [loweredAt.fields] at noted
  obtain ⟨⟨key, declaration⟩, declares, noted⟩ := List.mem_flatMap.mp noted
  obtain ⟨part, lowersPart⟩ := loweredAt.succeeds _ declares
  have sound := Body.wellFormed_declaration only declares
  rcases mem_coreModuleWith declares with core | provider | resource | data
  · have coreGood : coreModule.WellFormed fun _ => True := coreModule_wellFormed
    rw [silent_coreModule.noted coreGood (by simpa [Body.allDeclarations] using core)] at noted
    simp at noted
  · cases provider
    simp only [lowersPart, notedFields] at noted
    obtain ⟨localName, named, leads⟩ :=
      extensible_provider.under_label rfl rfl sound lowersPart noted
    rw [Store.attachment, OrderedMap.keys_mapValues] at named
    exact ⟨_, .provider named, leads⟩
  · cases resource
    simp only [lowersPart, notedFields] at noted
    obtain ⟨type, named, leads⟩ :=
      extensible_resource.under_labels rfl rfl rfl sound lowersPart noted
    obtain ⟨address, configured, declared⟩ := OrderedMap.mem_keys_flatMap.mp named
    exact ⟨_, .resource configured (found address configured) declared, leads⟩
  · cases data
    simp only [lowersPart, notedFields] at noted
    obtain ⟨type, named, leads⟩ :=
      extensible_data.under_labels rfl rfl rfl sound lowersPart noted
    obtain ⟨address, configured, declared⟩ := OrderedMap.mem_keys_flatMap.mp named
    exact ⟨_, .dataSource configured (found address configured) declared, leads⟩

namespace Contract

/-- Where the documents of a store use each name of a block once, the contract of the merged store
notes exactly its computed attributes outside of lists, each once; they are all brought by the
store. -/
theorem merged_store_notes (disk : Disk) (store : Store) (module : Body)
    (unambiguous : store.Unambiguous disk)
    (merged : (store.merge disk coreModule).result = .ok module) :
    ∃ contract, (ofBody module).result = .ok contract ∧
      (contract.computedFields.map ComputedField.path).Nodup ∧
      (∀ segments, segments ∈ contract.computedFields.map ComputedField.path ↔
        ∃ member, Members.find? contract.schema segments = some (.member member) ∧
          member.computed = true) ∧
      ∀ segments ∈ contract.computedFields.map ComputedField.path,
        ∃ place, store.Brings disk place ∧ place <+: segments := by
  have regular := Store.regular_of_merge merged
  have wellFormed : module.WellFormed fun _ => True :=
    Store.wellFormed_mergeFrom coreModule_wellFormed merged
  obtain ⟨schemas, found, rfl⟩ := Store.merge_ok merged
  obtain ⟨contract, succeeded⟩ := exists_ofBody regular
  obtain ⟨lowered, lowers, rfl⟩ := ofBodies_ok succeeded
  have only : ∀ body ∈ [coreModuleWith (store.attachment schemas)],
      body.WellFormed fun _ => True := by simpa using wellFormed
  have fresh : ¬ Body.LeavesStale [coreModuleWith (store.attachment schemas)] .root :=
    fresh_coreModuleWith fun body member => Store.exists_declaration unambiguous found member
  have noCatchAll (segments : List String) :
      ¬ Body.CatchAllAt [coreModuleWith (store.attachment schemas)] segments := by
    refine Body.not_catchAllAt (fun body member => ?_) segments
    cases List.mem_singleton.mp member
    exact fun entry declared => (regular entry declared).imp fun block known => known.plain
  have settled := Body.settled_lowerAll _ only .root lowered lowers fresh false
  refine ⟨_, succeeded, settled.unique, fun segments => ⟨fun noted => ?_, ?_⟩, ?_⟩
  · obtain ⟨field, fieldMem, rfl⟩ := List.mem_map.mp noted
    obtain ⟨last, leads, -, atLast⟩ := sound_root_iff.mp settled.sound field fieldMem
    cases last with
    | member reached => exact ⟨reached, leads, atLast⟩
    | content held => exact absurd atLast.2 (noCatchAll _)
  · rintro ⟨member, reached, computed⟩
    cases segments with
    | nil => simp [Members.find?] at reached
    | cons key rest =>
        rw [find?_eq_follow? false] at reached
        exact Body.complete_lowerAll _ only .root lowered lowers false _ (.member member) reached
          computed
  · intro segments noted
    obtain ⟨field, fieldMem, rfl⟩ := List.mem_map.mp noted
    exact Store.brings_of_noted (by simpa [Store.addresses] using found) wellFormed lowers fieldMem

def sharedPaths : List (List String) := [
  ["provider", "aws", "region"], ["provider", "aws", "version"],
  ["provider", "west", "region"], ["provider", "west", "version"],
  ["resource", "instance", "_", "id"], ["resource", "instance", "_", "provider"],
  ["resource", "volume", "_", "count"], ["data", "zone", "_", "name"]]

theorem shared_store_notes : ∃ (store : Store) (module : Body) (contract : Contract),
    store.Unambiguous Store.sharedDirectory ∧
    (store.merge Store.sharedDirectory coreModule).result = .ok module ∧
    (ofBody module).result = .ok contract ∧
    contract.computedFields.map ComputedField.path = sharedPaths ∧
    ∀ segments ∈ sharedPaths, ∃ member,
      Members.find? contract.schema segments = some (.member member) ∧ member.computed = true := by
  obtain ⟨store, -, checked⟩ := exists_ok (Store.openAt Store.sharedDirectory "p").result
    (fun store => decide (store.Unambiguous Store.sharedDirectory) &&
      (store.merge Store.sharedDirectory coreModule).result.toOption.any fun module =>
        (ofBody module).result.toOption.any fun contract =>
          contract.computedFields.map ComputedField.path = sharedPaths) (by decide +kernel)
  obtain ⟨unambiguous, mergedChecked⟩ := Bool.and_eq_true_iff.mp checked
  obtain ⟨module, merged, loweredChecked⟩ := exists_ok _ _ mergedChecked
  obtain ⟨contract, lowered, paths⟩ := exists_ok _ _ loweredChecked
  have unambiguous := of_decide_eq_true unambiguous
  have paths := of_decide_eq_true paths
  obtain ⟨same, loweredAgain, -, positions, -⟩ :=
    merged_store_notes Store.sharedDirectory store module unambiguous merged
  cases lowered.symm.trans loweredAgain
  exact ⟨store, module, contract, unambiguous, merged, lowered, paths, fun segments noted =>
    (positions segments).mp (paths ▸ noted)⟩

end Contract

end ConfigContract
