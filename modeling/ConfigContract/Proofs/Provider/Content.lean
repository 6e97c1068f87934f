import ConfigContract.Proofs.Lowering.Members
import ConfigContract.Proofs.Lowering.Report
import ConfigContract.Proofs.Provider.Opening

/-!
What stands in the contract of a merged store: a member for each local name and each type that its
providers declare, with the attributes and blocks that are declared for it.
-/

namespace ConfigContract

def Block.ownBody (block : Block) : Body := block.body.getD {}

/-- A closed object with the members of a common body, which have the given names, and over them
those of an own body. -/
def Joined (path : Path) (common own : Body) (names : List String) (type : ContractType) : Prop :=
  ∃ members shared declared, type = .object false members ∧
    (common.lower path).result = .ok shared ∧ (own.lower path).result = .ok declared ∧
    OrderedMap.keys members =
      (names ++ OrderedMap.keys own.attributes ++ OrderedMap.keys own.blocks).eraseDups ∧
    ∀ key, OrderedMap.get? key members =
      (OrderedMap.get? key declared.value).or (OrderedMap.get? key shared.value)

theorem joined_of_lowerAll {common own : Body} {path : Path} {merged : Lowered Members}
    (commonDistinct : OrderedMap.Distinct common.attributes)
    (ownDistinct : OrderedMap.Distinct own.attributes)
    (lowers : (Body.lowerAll [common, own] path).result = .ok merged) :
    Joined path common own common.names (.object false merged.value) := by
  have distinct : ∀ body ∈ [common] ++ [own], OrderedMap.Distinct body.attributes := by
    simp [commonDistinct, ownDistinct]
  have together : (Body.lowerAll ([common] ++ [own]) path).result = .ok merged := lowers
  obtain ⟨shared, declared, lowersCommon, lowersOwn, overlay⟩ :=
    Body.lowerAll_append_iff.mp together
  rw [Body.lowerAll_single commonDistinct] at lowersCommon
  rw [Body.lowerAll_single ownDistinct] at lowersOwn
  refine ⟨merged.value, shared, declared, rfl, lowersCommon, lowersOwn, ?_, overlay.member⟩
  simpa [Body.names] using Body.keys_of_lowerAll distinct lowers

/-! Blocks with attached bodies -/

namespace Block

variable {block : Block} {common : Body} {attached : OrderedMap String Body}

structure Extensible (block : Block) (common : Body) : Prop where
  own : block.body = some common
  plain : common.anyAttribute = none
  wellFormed : common.WellFormed fun _ => True
  bare : block.dependents = []
  object : block.blockType = .object

theorem namedValues_extend (bare : block.dependents = []) :
    (block.extend attached).namedValues 0 = (OrderedMap.keys attached).eraseDups := by
  have keys : ((block.extend attached).dependents.flatMap DependentBody.keys) =
      attached.map fun entry => ⟨0, entry.1⟩ := by
    simp [extend, bare, List.flatMap_map, ← List.map_eq_flatMap]
  rw [namedValues, keys]
  simp [List.filter_map, Function.comp_def, OrderedMap.keys]

theorem dependentFor_extend (bare : block.dependents = []) (value : String) :
    (block.extend attached).dependentFor 0 value = OrderedMap.get? value attached.reverse := by
  have reversed : (block.extend attached).dependents.reverse =
      attached.reverse.map fun entry => ⟨[⟨0, entry.1⟩], entry.2⟩ := by
    simp [extend, bare]
  rw [dependentFor, reversed]
  induction attached.reverse with
  | nil => rfl
  | cons entry rest ih =>
      by_cases same : entry.1 = value
      · simp [DependentBody.carries, OrderedMap.get?, same]
      · simpa [DependentBody.carries, OrderedMap.get?, same] using ih

namespace Extensible

theorem noCatchAll (extensible : block.Extensible common) :
    (block.extend attached).catchAll? = none := by
  simp [catchAll?, extend, extensible.own, extensible.plain]

theorem exists_bodiesFor (extensible : block.Extensible common) {label : Label}
    {labels : List Label} (first : (block.extend attached).labels = label :: labels)
    (completable : label.completable = true)
    (free : ∀ other ∈ labels, other.completable = false) {value : String}
    (named : value ∈ (block.extend attached).namedValues 0) : ∃ own,
      OrderedMap.get? value attached.reverse = some own ∧
      ∀ rest, (block.extend attached).bodiesFor (value :: rest) = [common, own] := by
  have known : value ∈ OrderedMap.keys attached.reverse := by
    simpa [namedValues_extend extensible.bare, OrderedMap.keys] using named
  obtain ⟨own, found⟩ := OrderedMap.exists_of_mem_keys known
  refine ⟨own, found, fun rest => ?_⟩
  have body : (block.extend attached).body = some common := extensible.own
  simp [bodiesFor, body, first, selectedFrom, selectedAt, completable,
    dependentFor_extend extensible.bare, found, selectedFrom_of_free free]

theorem exists_joined (extensible : block.Extensible common) {label : Label} {labels : List Label}
    (first : (block.extend attached).labels = label :: labels)
    (completable : label.completable = true)
    (free : ∀ other ∈ labels, other.completable = false)
    (distinct : ∀ entry ∈ attached, OrderedMap.Distinct entry.2.attributes) {value : String}
    (named : value ∈ (block.extend attached).namedValues 0) {rest : List String} {path : Path}
    {merged : Lowered Members} {type : ContractType} (closed : Policy.isOpenObject path = false)
    (lowers : (Body.lowerAll ((block.extend attached).bodiesFor (value :: rest)) path).result =
      .ok merged)
    (finished : (block.extend attached).finishedType path merged.value = some type) : ∃ own,
      OrderedMap.get? value attached.reverse = some own ∧
      Joined path common own common.names type := by
  obtain ⟨own, selected, bodies⟩ := extensible.exists_bodiesFor first completable free named
  have ownDistinct := distinct _ (List.mem_reverse.mp (OrderedMap.mem_of_get? selected))
  have single : (block.extend attached).blockType = .object := extensible.object
  rw [bodies] at lowers
  rw [finishedType_object single, closed, Option.some.injEq] at finished
  exact ⟨own, selected, finished ▸ joined_of_lowerAll extensible.wellFormed.distinct_attributes
    ownDistinct lowers⟩

theorem members_of_label (extensible : block.Extensible common) {label : Label}
    (labels : (block.extend attached).labels = [label]) (completable : label.completable = true)
    (distinct : ∀ entry ∈ attached, OrderedMap.Distinct entry.2.attributes) {path : Path}
    (closed : ∀ value, Policy.isOpenObject (path.child value) = false) {part : Lowered Member}
    (lowers : ((block.extend attached).lower path).result = .ok part) : ∃ content,
      part.value.type = .object (Policy.isOpenObject path) content ∧
      OrderedMap.keys content = (OrderedMap.keys attached).eraseDups ∧
      ∀ value ∈ OrderedMap.keys content, ∃ own member,
        OrderedMap.get? value attached.reverse = some own ∧
        OrderedMap.get? value content = some member ∧
        Joined (path.child value) common own common.names member.type := by
  obtain ⟨content, type, keys⟩ := first_level labels completable extensible.noCatchAll lowers
  refine ⟨content, type, keys.trans (namedValues_extend extensible.bare), fun value known => ?_⟩
  rw [keys] at known
  obtain ⟨member, merged, found, lowersBodies, finished⟩ :=
    member_of_label labels completable extensible.noCatchAll lowers known type
  obtain ⟨own, selected, joined⟩ := extensible.exists_joined labels completable (by simp) distinct
    known (closed value) lowersBodies finished
  exact ⟨own, member, selected, found, joined⟩

theorem members_of_labels (extensible : block.Extensible common) {label free : Label}
    (labels : (block.extend attached).labels = [label, free])
    (completable : label.completable = true) (notCompletable : free.completable = false)
    (distinct : ∀ entry ∈ attached, OrderedMap.Distinct entry.2.attributes) {path : Path}
    (closed : ∀ value, Policy.isOpenObject (path.child value).wildcard = false)
    {part : Lowered Member} (lowers : ((block.extend attached).lower path).result = .ok part) :
    ∃ content, part.value.type = .object (Policy.isOpenObject path) content ∧
      OrderedMap.keys content = (OrderedMap.keys attached).eraseDups ∧
      ∀ value ∈ OrderedMap.keys content, ∃ own member held,
        OrderedMap.get? value attached.reverse = some own ∧
        OrderedMap.get? value content = some member ∧ member.type = .dictionary held ∧
        Joined (path.child value).wildcard common own common.names held := by
  obtain ⟨content, type, keys⟩ := first_level labels completable extensible.noCatchAll lowers
  refine ⟨content, type, keys.trans (namedValues_extend extensible.bare), fun value known => ?_⟩
  rw [keys] at known
  obtain ⟨member, held, merged, found, dictionary, lowersBodies, finished⟩ :=
    member_of_labels labels completable notCompletable extensible.noCatchAll lowers known type
  obtain ⟨own, selected, joined⟩ := extensible.exists_joined labels completable
    (by simpa using notCompletable) distinct known (closed value) lowersBodies finished
  exact ⟨own, member, held, selected, found, dictionary, joined⟩

end Extensible

end Block

theorem wellFormed_ownBody {literal : Json → Prop} (key : String) {block : Block} {common : Body}
    (declares : Body.survivor? [coreModule] key = some (.block block))
    (own : block.body = some common) : common.WellFormed literal := by
  have core : ∀ body ∈ [coreModule], body.WellFormed literal := by
    simpa using coreModule_wellFormed
  have blockGood : block.WellFormed literal :=
    Body.wellFormed_declaration core (Body.survivor?_mem declares)
  exact blockGood.body own

theorem extensible_provider : CoreModule.provider.Extensible CoreModule.provider.ownBody :=
  ⟨rfl, rfl, wellFormed_ownBody "provider" rfl rfl, rfl, rfl⟩

theorem extensible_resource : CoreModule.resource.Extensible CoreModule.resource.ownBody :=
  ⟨rfl, rfl, wellFormed_ownBody "resource" rfl rfl, rfl, rfl⟩

theorem extensible_data : CoreModule.data.Extensible CoreModule.data.ownBody :=
  ⟨rfl, rfl, wellFormed_ownBody "data" rfl rfl, rfl, rfl⟩

/-! Stores -/

namespace Store

variable {disk : Disk} {store : Store}

theorem keyed_schemaAt {address : Address} {schema : ProviderSchema}
    (found : store.schemaAt disk address = .ok schema) :
    OrderedMap.Distinct schema.resources ∧ OrderedMap.Distinct schema.dataSources := by
  obtain ⟨provider, document, declaration, -, read, listed, same⟩ := names_schemaAt found
  obtain ⟨text, -, readText⟩ := readFile_ok read
  obtain ⟨resources, dataSources⟩ :=
    Document.keyed_of_read readText _ (OrderedMap.mem_of_get? listed)
  exact ⟨.of_keys same.keys_resources resources, .of_keys same.keys_dataSources dataSources⟩

theorem distinct_attached {schemas : Address → ProviderSchema}
    (found : ∀ address ∈ OrderedMap.values store.references,
      store.schemaAt disk address = .ok (schemas address)) :
    ∀ body ∈ (store.attachment schemas).bodies, OrderedMap.Distinct body.attributes := by
  intro body member
  obtain ⟨address, configured, listed⟩ := mem_bodies_attachment member
  have wellFormed : ∀ body ∈ (schemas address).bodies, body.WellFormed fun _ => True :=
    wellFormed_schemaAt (found address configured)
  exact (wellFormed body listed).distinct_attributes

end Store

/-! The contract of a merged store -/

namespace Contract

def Lists (contract : Contract) (block : String) (content : Members) : Prop :=
  ∃ member, OrderedMap.get? block contract.schema = some member ∧
    member.type = .object true content

/-- The local names in the order of configuration, each with the body of its address. -/
def HoldsProviders (contract : Contract) (references : OrderedMap String Address)
    (body : Address → Body) : Prop :=
  ∃ content, contract.Lists "provider" content ∧
    OrderedMap.keys content = OrderedMap.keys references ∧
    ∀ localName ∈ OrderedMap.keys references, ∃ address member,
      OrderedMap.get? localName references = some address ∧
      OrderedMap.get? localName content = some member ∧
      Joined ⟨["provider", localName]⟩ CoreModule.provider.ownBody (body address)
        ["alias", "version"] member.type

/-- The types that addresses bring, in the order in which they are met first; of several bodies for
a type that of the last address counts. -/
def HoldsTypes (contract : Contract) (block : String) (common : Body) (names : List String)
    (addresses : List Address) (bodies : Address → OrderedMap String Body) : Prop :=
  ∃ content, contract.Lists block content ∧
    OrderedMap.keys content =
      (addresses.flatMap fun address => OrderedMap.keys (bodies address)).eraseDups ∧
    ∀ type ∈ OrderedMap.keys content, ∃ own member held,
      (addresses.reverse.findSome? fun address => OrderedMap.get? type (bodies address)) =
        some own ∧
      OrderedMap.get? type content = some member ∧ member.type = .dictionary held ∧
      Joined ⟨[block, type, Path.anyLabel]⟩ common own names held

section Holds

attribute [local simp] Policy.isOpenObject Policy.openObjects PathPattern.accepts
  SegmentPattern.accepts

variable {attachment : Attachment} {contract : Contract}

/-- A key of the core module stands in the contract for its block, lowered with what is attached. -/
theorem exists_lowered {module : Body} (plain : OrderedMap.Distinct module.attributes)
    (succeeded : (ofBody module).result = .ok contract) (key : String) {block : Block}
    (survives : Body.survivor? [module] key = some (.block block)) : ∃ part,
      (block.lower ⟨[key]⟩).result = .ok part ∧
      OrderedMap.get? key contract.schema = some part.value := by
  obtain ⟨lowered, lowers, rfl⟩ := ofBodies_ok succeeded
  have loweredAt := Body.loweredAt_of_lowerAll (by simpa using plain) lowers
  obtain ⟨part, lowersPart⟩ := loweredAt.succeeds _ (Body.survivor?_mem survives)
  exact ⟨part, lowersPart, loweredAt.lookup survives lowersPart⟩

/-- A block that two modules share stands for the same member in both contracts. -/
theorem same_member {module other : Body} {second : Contract}
    (plain : OrderedMap.Distinct module.attributes)
    (otherPlain : OrderedMap.Distinct other.attributes)
    (succeeded : (ofBody module).result = .ok contract)
    (otherSucceeded : (ofBody other).result = .ok second) {key : String} {block : Block}
    (survives : Body.survivor? [module] key = some (.block block))
    (otherSurvives : Body.survivor? [other] key = some (.block block)) :
    OrderedMap.get? key contract.schema = OrderedMap.get? key second.schema := by
  obtain ⟨part, lowers, member⟩ := exists_lowered plain succeeded key survives
  obtain ⟨_, lowersAgain, same⟩ := exists_lowered otherPlain otherSucceeded key otherSurvives
  cases lowers.symm.trans lowersAgain
  exact member.trans same.symm

theorem exists_ofCoreModule : ∃ core, (ofBody coreModule).result = .ok core := by
  rw [coreModule_eq]
  exact exists_ofBody (regular_coreModuleWith nofun)

theorem holdsProviders {references : OrderedMap String Address} {body : Address → Body}
    (distinct : OrderedMap.Distinct references)
    (attached : attachment.providers = OrderedMap.mapValues body references)
    (bodiesGood : ∀ entry ∈ attachment.providers, OrderedMap.Distinct entry.2.attributes)
    (succeeded : (ofBody (coreModuleWith attachment)).result = .ok contract) :
    contract.HoldsProviders references body := by
  have closed (localName : String) :
      Policy.isOpenObject ((Path.mk ["provider"]).child localName) = false := by simp
  have labels : (CoreModule.provider.extend attachment.providers).labels =
      [⟨"name", none, true⟩] := rfl
  have sameKeys : OrderedMap.keys attachment.providers = OrderedMap.keys references := by
    rw [attached, OrderedMap.keys_mapValues]
  obtain ⟨part, lowers, found⟩ := exists_lowered OrderedMap.distinct_nil succeeded "provider" rfl
  obtain ⟨content, type, keys, members⟩ :=
    extensible_provider.members_of_label labels rfl bodiesGood closed lowers
  rw [sameKeys, OrderedMap.eraseDups_of_nodup distinct] at keys
  refine ⟨content, ⟨part.value, found, type⟩, keys, fun localName configured => ?_⟩
  obtain ⟨own, member, selected, listed, joined⟩ := members localName (keys ▸ configured)
  rw [OrderedMap.get?_reverse localName (.of_keys sameKeys distinct), attached,
    OrderedMap.get?_mapValues] at selected
  obtain ⟨address, known, rfl⟩ := Option.map_eq_some_iff.mp selected
  exact ⟨address, member, known, listed, joined⟩

theorem holdsTypes {key : String} {block : Block} {common : Body} {addresses : List Address}
    {bodies : Address → OrderedMap String Body} (extensible : block.Extensible common)
    {label free : Label} (labels : block.labels = [label, free])
    (completable : label.completable = true) (notCompletable : free.completable = false)
    (isOpen : Policy.isOpenObject ⟨[key]⟩ = true)
    (closed : ∀ type, Policy.isOpenObject ((Path.mk [key]).child type).wildcard = false)
    (distinct : ∀ address ∈ addresses, OrderedMap.Distinct (bodies address))
    (bodiesGood : ∀ entry ∈ addresses.flatMap bodies, OrderedMap.Distinct entry.2.attributes)
    (succeeded : (ofBody (coreModuleWith attachment)).result = .ok contract)
    (survives : Body.survivor? [coreModuleWith attachment] key =
      some (.block (block.extend (addresses.flatMap bodies)))) :
    contract.HoldsTypes key common common.names addresses bodies := by
  obtain ⟨part, lowers, found⟩ := exists_lowered OrderedMap.distinct_nil succeeded key survives
  obtain ⟨content, type, keys, members⟩ := extensible.members_of_labels labels completable
    notCompletable bodiesGood closed lowers
  rw [isOpen] at type
  refine ⟨content, ⟨part.value, found, type⟩, ?_, fun type known => ?_⟩
  · rw [keys]
    simp [OrderedMap.keys, List.map_flatMap]
  · obtain ⟨own, member, held, selected, listed, dictionary, joined⟩ := members type known
    rw [OrderedMap.get?_reverse_flatMap type distinct] at selected
    exact ⟨own, member, held, selected, listed, dictionary, joined⟩

/-- The contract of a merged store holds what the schemas of its addresses declare: the providers
by local name, the resources and data sources by type, each with the arguments that all of them
accept. The other members are those of the core module. -/
theorem merged_store_content (disk : Disk) (store : Store) (module : Body)
    (distinct : OrderedMap.Distinct store.references)
    (merged : (store.merge disk coreModule).result = .ok module) :
    ∃ (schemas : Address → ProviderSchema) (core contract : Contract),
      (∀ address ∈ store.addresses, store.schemaAt disk address = .ok (schemas address)) ∧
      (ofBody coreModule).result = .ok core ∧ (ofBody module).result = .ok contract ∧
      contract.HoldsProviders store.references (fun address => (schemas address).provider) ∧
      contract.HoldsTypes "resource" CoreModule.resource.ownBody
        ["count", "for_each", "provider", "depends_on", "lifecycle"] store.addresses
        (fun address => (schemas address).resources) ∧
      contract.HoldsTypes "data" CoreModule.data.ownBody
        ["count", "for_each", "provider", "depends_on"] store.addresses
        (fun address => (schemas address).dataSources) ∧
      OrderedMap.keys contract.schema =
        ["terraform", "provider", "resource", "data", "module", "variable", "output", "locals"] ∧
      ∀ key ∈ ["terraform", "module", "variable", "output", "locals"],
        OrderedMap.get? key contract.schema = OrderedMap.get? key core.schema := by
  obtain ⟨contract, lowered⟩ := exists_ofBody (Store.regular_of_merge merged)
  obtain ⟨schemas, found, rfl⟩ := Store.merge_ok merged
  obtain ⟨core, loweredCore⟩ := exists_ofCoreModule
  have known : ∀ address ∈ store.addresses,
      store.schemaAt disk address = .ok (schemas address) := by
    simpa [Store.addresses] using found
  have distinctAttributes := Store.distinct_attached found
  simp only [Attachment.bodies, OrderedMap.values, List.map_append, List.forall_mem_append,
    List.forall_mem_map] at distinctAttributes
  obtain ⟨⟨providers, resources⟩, dataSources⟩ := distinctAttributes
  refine ⟨schemas, core, contract, known, loweredCore, lowered,
    holdsProviders distinct rfl providers lowered, ?_, ?_, ?_, ?_⟩
  · exact holdsTypes extensible_resource rfl rfl rfl rfl (by simp [Path.wildcard])
      (fun address member => (Store.keyed_schemaAt (known address member)).1) resources lowered rfl
  · exact holdsTypes extensible_data rfl rfl rfl rfl (by simp [Path.wildcard])
      (fun address member => (Store.keyed_schemaAt (known address member)).2) dataSources lowered
      rfl
  · obtain ⟨members, lowers, rfl⟩ := ofBodies_ok lowered
    rw [Body.keys_of_lowerAll (by simp [coreModuleWith]) lowers]
    rfl
  · have same {key : String} {block : Block}
        (survives : Body.survivor? [coreModuleWith (store.attachment schemas)] key =
          some (.block block))
        (survivesCore : Body.survivor? [coreModule] key = some (.block block)) :=
      same_member OrderedMap.distinct_nil OrderedMap.distinct_nil lowered loweredCore survives
        survivesCore
    simp only [List.forall_mem_cons]
    exact ⟨same rfl rfl, same rfl rfl, same rfl rfl, same rfl rfl, same rfl rfl,
      List.forall_mem_nil _⟩

/-- The three local names have two addresses, and one resource type comes from both of them. -/
theorem shared_store_content :
    ∃ (store : Store) (module : Body) (schemas : Address → ProviderSchema) (contract : Contract),
      OrderedMap.keys store.references = ["aws", "west", "mirror"] ∧
      store.addresses.map Address.render =
        ["registry.terraform.io/hashicorp/aws", "registry.terraform.io/example/mirror"] ∧
      OrderedMap.Distinct store.references ∧
      (store.merge Store.sharedDirectory coreModule).result = .ok module ∧
      (∀ address ∈ store.addresses,
        store.schemaAt Store.sharedDirectory address = .ok (schemas address)) ∧
      (ofBody module).result = .ok contract ∧
      contract.HoldsProviders store.references (fun address => (schemas address).provider) ∧
      contract.HoldsTypes "resource" CoreModule.resource.ownBody
        ["count", "for_each", "provider", "depends_on", "lifecycle"] store.addresses
        (fun address => (schemas address).resources) ∧
      contract.HoldsTypes "data" CoreModule.data.ownBody
        ["count", "for_each", "provider", "depends_on"] store.addresses
        (fun address => (schemas address).dataSources) := by
  obtain ⟨store, opened, checked⟩ := exists_ok (Store.openAt Store.sharedDirectory "p").result
    (fun store => OrderedMap.keys store.references = ["aws", "west", "mirror"] &&
      store.addresses.map Address.render =
        ["registry.terraform.io/hashicorp/aws", "registry.terraform.io/example/mirror"] &&
      (store.merge Store.sharedDirectory coreModule).result.toOption.any fun _ => true)
    (by decide +kernel)
  simp only [Bool.and_eq_true, decide_eq_true_eq] at checked
  obtain ⟨⟨localNames, addresses⟩, merges⟩ := checked
  obtain ⟨module, merged, -⟩ := exists_ok _ _ merges
  have distinct := Store.distinct_references opened
  obtain ⟨schemas, _, contract, found, -, lowered, providers, resources, dataSources, -⟩ :=
    merged_store_content Store.sharedDirectory store module distinct merged
  exact ⟨store, module, schemas, contract, localNames, addresses, distinct, merged, found, lowered,
    providers, resources, dataSources⟩

end Holds

end Contract

end ConfigContract
