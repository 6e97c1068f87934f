import ConfigContract.Proofs.Pointwise
import ConfigContract.Proofs.Provider.Computed

/-!
Modules whose providers attach the same bodies but for one type: their contracts differ only inside
that type's member, and in the computed attributes noted below it.
-/

namespace ConfigContract

open OrderedMap (Pointwise OnlyAt)

/-! What is declared for types -/

inductive TypeKind where
  | resource
  | dataSource
deriving DecidableEq

namespace TypeKind

def block : TypeKind → String
  | resource => "resource"
  | dataSource => "data"

def core : TypeKind → Block
  | resource => CoreModule.resource
  | dataSource => CoreModule.data

theorem extensible_core (kind : TypeKind) : kind.core.Extensible kind.core.ownBody := by
  cases kind with
  | resource => exact extensible_resource
  | dataSource => exact extensible_data

theorem labels_core (kind : TypeKind) :
    kind.core.labels = [⟨"type", none, true⟩, ⟨"name", none, false⟩] := by
  cases kind <;> rfl

end TypeKind

variable {α β : Type} {kind : TypeKind} {type : String}

structure TypesAlikeBut (kind : TypeKind) (type : String)
    (first second : TypeKind → OrderedMap String α) : Prop where
  same : ∀ listed ≠ kind, first listed = second listed
  differ : Pointwise (OnlyAt type fun _ _ => True) (first kind) (second kind)

namespace TypesAlikeBut

theorem refl (types : TypeKind → OrderedMap String α) : TypesAlikeBut kind type types types where
  same _ _ := rfl
  differ := .refl (OnlyAt.refl (fun _ => trivial) type) (types kind)

theorem mapValues {first second : TypeKind → OrderedMap String α}
    (alike : TypesAlikeBut kind type first second) (f : α → β) :
    TypesAlikeBut kind type (fun listed => OrderedMap.mapValues f (first listed))
      (fun listed => OrderedMap.mapValues f (second listed)) where
  same listed other := congrArg (OrderedMap.mapValues f) (alike.same listed other)
  differ := alike.differ.mapValues fun _ _ _ differ =>
    .intro (fun different => congrArg f (differ.eq different)) fun _ => trivial

theorem flatMap {first second : α → TypeKind → OrderedMap String β} {sources : List α}
    (alike : ∀ source ∈ sources, TypesAlikeBut kind type (first source) (second source)) :
    TypesAlikeBut kind type (fun listed => sources.flatMap fun source => first source listed)
      (fun listed => sources.flatMap fun source => second source listed) where
  same listed other := List.flatMap_congr fun source member => (alike source member).same listed other
  differ := .flatMap fun source member => (alike source member).differ

end TypesAlikeBut

def ProviderDeclaration.types (declaration : ProviderDeclaration) :
    TypeKind → OrderedMap String SchemaDeclaration
  | .resource => declaration.resources
  | .dataSource => declaration.dataSources

def ProviderSchema.types (schema : ProviderSchema) : TypeKind → OrderedMap String Body
  | .resource => schema.resources
  | .dataSource => schema.dataSources

def Attachment.types (attachment : Attachment) : TypeKind → OrderedMap String Body
  | .resource => attachment.resources
  | .dataSource => attachment.dataSources

def ProviderDeclaration.AlikeBut (kind : TypeKind) (type : String)
    (first second : ProviderDeclaration) : Prop :=
  first.provider = second.provider ∧ TypesAlikeBut kind type first.types second.types

def ProviderSchema.AlikeBut (kind : TypeKind) (type : String) (first second : ProviderSchema) :
    Prop :=
  first.provider = second.provider ∧ TypesAlikeBut kind type first.types second.types

def Attachment.AlikeBut (kind : TypeKind) (type : String) (first second : Attachment) : Prop :=
  first.providers = second.providers ∧ TypesAlikeBut kind type first.types second.types

def Document.AlikeBut (kind : TypeKind) (type : String) (first second : Document) : Prop :=
  Pointwise (fun _ => ProviderDeclaration.AlikeBut kind type) first.providers second.providers

theorem Document.AlikeBut.refl (document : Document) : document.AlikeBut kind type document :=
  Pointwise.refl (fun _ declaration => ⟨rfl, .refl declaration.types⟩) document.providers

theorem ProviderDeclaration.AlikeBut.toSchema {first second : ProviderDeclaration}
    (alike : first.AlikeBut kind type second) :
    first.toSchema.AlikeBut kind type second.toSchema := by
  have types (declaration : ProviderDeclaration) : declaration.toSchema.types =
      fun listed => OrderedMap.mapValues (fun schema => schema.block.toBody)
        (declaration.types listed) := by
    funext listed
    cases listed <;> rfl
  refine ⟨?_, ?_⟩
  · simp only [ProviderDeclaration.toSchema, alike.1]
  · rw [types, types]
    exact alike.2.mapValues fun schema => schema.block.toBody

/-! Blocks with another body for one value -/

def Member.blank (member : Member) : Member := { member with type := .dynamic }

def ContractType.blankAt (key : String) : ContractType → ContractType
  | .object isOpen content => .object isOpen (OrderedMap.modify key Member.blank content)
  | type => type

def Member.blankAt (key : String) (member : Member) : Member :=
  { member with type := member.type.blankAt key }

def apartFrom (place : List String) (fields : List ComputedField) : List ComputedField :=
  fields.filter fun field => !place.isPrefixOf field.path

theorem apartFrom_flatMap (place : List String) (sources : List α) (f : α → List ComputedField) :
    apartFrom place (sources.flatMap f) = sources.flatMap fun source => apartFrom place (f source) :=
  List.filter_flatMap

theorem apartFrom_of_under {place : List String} {path : Path} {fields : List ComputedField}
    (inside : place <+: path.segments) (under : Under path fields) : apartFrom place fields = [] := by
  refine List.filter_eq_nil_iff.mpr fun field noted => ?_
  obtain ⟨rest, leads⟩ := under field noted
  have below : place <+: field.path := leads ▸ inside.trans (List.prefix_append _ rest)
  simpa using below

theorem Frame.pointwise_forEachValue
    {lower : String → Part → Logged LowerError (Lowered Member)} {value : String}
    {first second : OrderedMap String Part} {shown : Member}
    (differ : Pointwise (OnlyAt value fun _ _ => True) first second)
    (blank : ∀ part lowered, (lower value part).result = .ok lowered → lowered.value.blank = shown)
    {content other : Lowered Members} (lowers : (forEachValue lower first).result = .ok content)
    (lowersOther : (forEachValue lower second).result = .ok other) :
    Pointwise (OnlyAt value fun member another => member.blank = another.blank) content.value
      other.value := by
  induction differ using Pointwise.entry_induction generalizing content other with
  | nil =>
      cases lowers
      cases lowersOther
      exact .nil
  | cons key part otherPart _ _ both _ ih =>
      simp only [forEachValue, Logged.result_bind, bind_eq_ok] at lowers lowersOther
      obtain ⟨member, lowersPart, rest, later, built⟩ := lowers
      obtain ⟨otherMember, lowersOtherPart, otherRest, otherLater, otherBuilt⟩ := lowersOther
      cases built
      cases otherBuilt
      refine .cons ⟨rfl, .intro (fun different => ?_) fun hit => ?_⟩ (ih later otherLater)
      · have samePart : part = otherPart := OnlyAt.eq both different
        subst samePart
        exact congrArg Lowered.value (Except.ok.inj (lowersPart.symm.trans lowersOtherPart))
      · have samePlace : key = value := hit
        subst samePlace
        exact (blank part member lowersPart).trans (blank otherPart otherMember lowersOtherPart).symm

namespace Block

variable {core : Block} {common : Body} {attached others : OrderedMap String Body}

theorem knownAt_extend (bare : core.dependents = []) :
    (core.extend attached).knownAt 0 =
      OrderedMap.insertAll [] (OrderedMap.mapValues Body.part attached) := by
  have contributions (entries : OrderedMap String Body) :
      (entries.map fun entry => DependentBody.mk [⟨0, entry.1⟩] entry.2).flatMap (fun dependent =>
        LabelChoice.contribution 0 (dependent.keys, dependent.body.part)) =
          OrderedMap.mapValues Body.part entries := by
    simp [LabelChoice.contribution, List.flatMap_map, OrderedMap.mapValues, ← List.map_eq_flatMap]
  rw [knownAt, LabelChoice.collect_eq, dependentParts_eq, List.flatMap_map, ← contributions]
  simp only [extend, bare, List.nil_append]

theorem bodiesFor_extend (extensible : core.Extensible common) {label : Label}
    {labels : List Label} (first : core.labels = label :: labels)
    (completable : label.completable = true) (free : ∀ other ∈ labels, other.completable = false)
    (differ : Pointwise (OnlyAt type fun _ _ => True) attached others) {value : String}
    (named : value ∈ (core.extend attached).namedValues 0) (different : value ≠ type)
    (rest : List String) :
    (core.extend attached).bodiesFor (value :: rest) =
      (core.extend others).bodiesFor (value :: rest) := by
  have sameNames : (core.extend others).namedValues 0 = (core.extend attached).namedValues 0 := by
    rw [namedValues_extend extensible.bare, namedValues_extend extensible.bare, differ.keys]
  have firstOf (bodies : OrderedMap String Body) : (core.extend bodies).labels = label :: labels :=
    first
  obtain ⟨own, selected, bodies⟩ :=
    extensible.exists_bodiesFor (firstOf attached) completable free named
  obtain ⟨other, selectedOther, bodiesOther⟩ :=
    extensible.exists_bodiesFor (firstOf others) completable free (sameNames ▸ named)
  have reversed : Pointwise (OnlyAt type fun _ _ => True) attached.reverse others.reverse :=
    List.forall₂_reverse_iff.mpr differ
  rcases reversed.get? value with ⟨absent, -⟩ | ⟨body, another, known, knownToo, both⟩
  · simp [absent] at selected
  · have same : own = other := by
      cases known.symm.trans selected
      cases knownToo.symm.trans selectedOther
      exact both.eq different
    rw [bodies, bodiesOther, same]

theorem under_finishedFields {block : Block} (wellFormed : block.WellFormed fun _ => True)
    (tuple : List String) (place : Path) :
    Under place (block.finishedFields place (notedFields
      (Body.lowerAll (block.bodiesFor tuple) place).result)) := by
  unfold finishedFields
  split
  next =>
    cases lowers : (Body.lowerAll (block.bodiesFor tuple) place).result with
    | error error => exact nofun
    | ok merged => exact Body.under_lowerAll _ (wellFormed.bodiesFor tuple) place merged lowers
  next => exact nofun

theorem exists_content (extensible : core.Extensible common) {label free : Label}
    (labels : core.labels = [label, free]) (completable : label.completable = true)
    (notCompletable : free.completable = false) {path : Path} {lowered : Lowered Member}
    (succeeded : ((core.extend attached).lower path).result = .ok lowered) : ∃ content,
      (Frame.forEachValue (fun value part =>
        core.frame.expand [.anyValue] [common.part, part] (path.child value))
          (OrderedMap.insertAll [] (OrderedMap.mapValues Body.part attached))).result =
            .ok content ∧
      lowered.value = .container core.frame.expandedDescription
        (.object (Policy.isOpenObject path) content.value) := by
  have choices : (core.extend attached).choicesFrom 0 (core.extend attached).labels =
      [.known ((core.extend attached).knownAt 0), .anyValue] := by
    show (core.extend attached).choicesFrom 0 core.labels = _
    rw [labels, choicesFrom_of_completable _ _ _ completable,
      choicesFrom_of_free _ _ _ notCompletable]
    rfl
  have own : (core.extend attached).body = some common := extensible.own
  rw [lower_eq_expand _ path extensible.noCatchAll, choices, own, knownAt_extend extensible.bare]
    at succeeded
  simp only [Frame.expand, Logged.result_bind, bind_eq_ok] at succeeded
  obtain ⟨content, lowers, built⟩ := succeeded
  cases built
  exact ⟨content, lowers, rfl⟩

theorem blankAt_lower (extensible : core.Extensible common) {label free : Label}
    (labels : core.labels = [label, free]) (completable : label.completable = true)
    (notCompletable : free.completable = false)
    (differ : Pointwise (OnlyAt type fun _ _ => True) attached others) {path : Path}
    {lowered other : Lowered Member}
    (succeeded : ((core.extend attached).lower path).result = .ok lowered)
    (succeededToo : ((core.extend others).lower path).result = .ok other) :
    lowered.value.blankAt type = other.value.blankAt type := by
  obtain ⟨content, lowers, value⟩ :=
    exists_content extensible labels completable notCompletable succeeded
  obtain ⟨otherContent, lowersToo, otherValue⟩ :=
    exists_content extensible labels completable notCompletable succeededToo
  have parts : Pointwise (OnlyAt type fun _ _ => True)
      (OrderedMap.insertAll [] (OrderedMap.mapValues Body.part attached))
      (OrderedMap.insertAll [] (OrderedMap.mapValues Body.part others)) := by
    refine Pointwise.insertAll .nil (differ.mapValues fun _ _ _ both => ?_)
    exact .intro (fun different => congrArg Body.part (both.eq different)) fun _ => trivial
  have blank (part : Part) (dictionary : Lowered Member)
      (lowersPart : (core.frame.expand [.anyValue] [common.part, part] (path.child type)).result =
        .ok dictionary) :
      dictionary.value.blank = .container core.frame.expandedDescription .dynamic := by
    simp only [Frame.expand, Logged.result_bind, bind_eq_ok] at lowersPart
    obtain ⟨inner, -, built⟩ := lowersPart
    cases built
    rfl
  have members := Frame.pointwise_forEachValue parts blank lowers lowersToo
  have distinct : OrderedMap.Distinct content.value := by
    rw [OrderedMap.Distinct, (Frame.gathered_of_forEachValue lowers).keys]
    exact OrderedMap.distinct_insertAll OrderedMap.distinct_nil _
  have same := members.modify_eq distinct fun _ _ equal => equal
  simp only [value, otherValue, Member.blankAt, Member.container, ContractType.blankAt, same]

/-- Below the value the notes may differ, elsewhere they are those of the same bodies. -/
theorem apartFrom_lower (extensible : core.Extensible common) {label free : Label}
    (labels : core.labels = [label, free]) (completable : label.completable = true)
    (notCompletable : free.completable = false)
    (differ : Pointwise (OnlyAt type fun _ _ => True) attached others) {path : Path}
    (wellFormed : (core.extend attached).WellFormed fun _ => True)
    (wellFormedToo : (core.extend others).WellFormed fun _ => True)
    {lowered other : Lowered Member}
    (succeeded : ((core.extend attached).lower path).result = .ok lowered)
    (succeededToo : ((core.extend others).lower path).result = .ok other) :
    apartFrom (path.segments ++ [type]) lowered.fields =
      apartFrom (path.segments ++ [type]) other.fields := by
  have tuples (bodies : OrderedMap String Body) : (core.extend bodies).tuples =
      (OrderedMap.keys bodies).eraseDups.map fun value => [value, Path.anyLabel] := by
    have sameLabels : (core.extend bodies).labels = [label, free] := labels
    rw [tuples_of_labels sameLabels completable notCompletable, namedValues_extend extensible.bare]
  rw [(lower_follows_tuples _ path lowered extensible.noCatchAll succeeded).2.2,
    (lower_follows_tuples _ path other extensible.noCatchAll succeededToo).2.2,
    apartFrom_flatMap, apartFrom_flatMap, tuples, tuples, ← differ.keys, List.flatMap_map,
    List.flatMap_map]
  refine List.flatMap_congr fun value named => ?_
  by_cases hit : value = type
  · subst hit
    have inside : path.segments ++ [value] <+: (path.descend [value, Path.anyLabel]).segments :=
      ⟨[Path.anyLabel], by simp [Path.descend]⟩
    have nothing (bodies : OrderedMap String Body)
        (wellFormed : (core.extend bodies).WellFormed fun _ => True) :
        apartFrom (path.segments ++ [value]) ((core.extend bodies).finishedFields
          (path.descend [value, Path.anyLabel]) (notedFields
            (Body.lowerAll ((core.extend bodies).bodiesFor [value, Path.anyLabel])
              (path.descend [value, Path.anyLabel])).result)) = [] :=
      apartFrom_of_under inside (under_finishedFields wellFormed _ _)
    rw [nothing attached wellFormed, nothing others wellFormedToo]
  · have same : (core.extend attached).bodiesFor [value, Path.anyLabel] =
        (core.extend others).bodiesFor [value, Path.anyLabel] := by
      refine bodiesFor_extend extensible labels completable ?_ differ ?_ hit _
      · exact List.forall_mem_singleton.mpr notCompletable
      · rwa [namedValues_extend extensible.bare]
    rw [same]
    rfl

end Block

/-! Modules with another body for one type -/

/-- A block of the core module with other bodies attached, but for one value the same ones. -/
def Block.Reattached (kind : TypeKind) (type : String) (block other : Block) : Prop :=
  ∃ attached others, block = kind.core.extend attached ∧ other = kind.core.extend others ∧
    Pointwise (OnlyAt type fun _ _ => True) attached others

theorem Attachment.AlikeBut.blocks {first second : Attachment}
    (alike : first.AlikeBut kind type second) :
    Pointwise (OnlyAt kind.block (Block.Reattached kind type)) (coreModuleWith first).blocks
      (coreModuleWith second).blocks := by
  obtain ⟨providers, same, differ⟩ := alike
  cases kind with
  | resource =>
      have dataSources : first.dataSources = second.dataSources := same .dataSource (by decide)
      have extended : Block.Reattached .resource type (CoreModule.resource.extend first.resources)
          (CoreModule.resource.extend second.resources) := ⟨_, _, rfl, rfl, differ⟩
      simpa [Pointwise, OnlyAt, coreModuleWith, TypeKind.block, providers, dataSources] using
        extended
  | dataSource =>
      have resources : first.resources = second.resources := same .resource (by decide)
      have extended : Block.Reattached .dataSource type (CoreModule.data.extend first.dataSources)
          (CoreModule.data.extend second.dataSources) := ⟨_, _, rfl, rfl, differ⟩
      simpa [Pointwise, OnlyAt, coreModuleWith, TypeKind.block, providers, resources] using
        extended

theorem Declaration.Yields.pointwise {literal : Json → Prop}
    {related : String → Declaration → Declaration → Prop}
    {results : String → Lowered Member → Lowered Member → Prop} {path : Path}
    {entries others : List (String × Declaration)}
    {parts otherParts : List (String × Lowered Member)} (alike : Pointwise related entries others)
    (yields : Yields path entries parts) (yieldsToo : Yields path others otherParts)
    (good : ∀ entry ∈ entries, entry.2.WellFormed literal)
    (goodToo : ∀ entry ∈ others, entry.2.WellFormed literal)
    (each : ∀ key declaration other part otherPart, related key declaration other →
      declaration.WellFormed literal → other.WellFormed literal →
      declaration.lower (path.child key) = .ok part → other.lower (path.child key) = .ok otherPart →
        results key part otherPart) : Pointwise results parts otherParts := by
  induction alike generalizing parts otherParts with
  | nil =>
      cases yields
      cases yieldsToo
      exact .nil
  | @cons entry other _ _ both _ ih =>
      cases yields with
      | cons first later =>
          cases yieldsToo with
          | cons firstToo laterToo =>
              obtain ⟨firstGood, laterGood⟩ := List.forall_mem_cons.mp good
              obtain ⟨firstGoodToo, laterGoodToo⟩ := List.forall_mem_cons.mp goodToo
              obtain ⟨name, another⟩ := other
              obtain ⟨rfl, both⟩ := both
              obtain ⟨key, declaration⟩ := entry
              refine .cons ⟨first.1.trans firstToo.1.symm, ?_⟩ (ih later laterToo laterGood laterGoodToo)
              rw [first.1]
              exact each _ _ _ _ _ both firstGood firstGoodToo first.2 firstToo.2

namespace Contract

def schemaApartFrom (contract : Contract) (block type : String) : Members :=
  OrderedMap.modify block (Member.blankAt type) contract.schema

def fieldsApartFrom (contract : Contract) (block type : String) : List ComputedField :=
  apartFrom [block, type] contract.computedFields

def YieldsApart (block type key : String) (part other : Lowered Member) : Prop :=
  OnlyAt block (fun member another => member.blankAt type = another.blankAt type) key part.value
      other.value ∧
    apartFrom [block, type] part.fields = apartFrom [block, type] other.fields

theorem yieldsApart_of_lower {key : String} {block other : Block} {part otherPart : Lowered Member}
    (alike : OnlyAt kind.block (Block.Reattached kind type) key block other)
    (wellFormed : block.WellFormed fun _ => True) (wellFormedToo : other.WellFormed fun _ => True)
    (lowers : (block.lower ⟨[key]⟩).result = .ok part)
    (lowersToo : (other.lower ⟨[key]⟩).result = .ok otherPart) :
    YieldsApart kind.block type key part otherPart := by
  by_cases hit : key = kind.block
  · subst hit
    obtain ⟨attached, others, rfl, rfl, differ⟩ := alike.at_key
    have extensible := kind.extensible_core
    have values := Block.blankAt_lower extensible kind.labels_core rfl rfl differ lowers lowersToo
    exact ⟨.intro (fun different => absurd rfl different) fun _ => values,
      Block.apartFrom_lower extensible kind.labels_core rfl rfl differ wellFormed wellFormedToo lowers
        lowersToo⟩
  · cases alike.eq hit
    cases lowers.symm.trans lowersToo
    exact ⟨.intro (fun _ => rfl) fun _ => rfl, rfl⟩

variable {first second : Attachment} {contract other : Contract}

theorem exists_parts {module : Body} (bare : module.attributes = [])
    (succeeded : (ofBody module).result = .ok contract) : ∃ parts,
      Declaration.Yields .root (OrderedMap.mapValues .block module.blocks) parts ∧
      contract.schema = OrderedMap.insertAll [] (OrderedMap.mapValues Lowered.value parts) ∧
      contract.computedFields = parts.flatMap fun part => part.2.fields := by
  have distinct : OrderedMap.Distinct module.attributes := by simp [bare]
  obtain ⟨lowered, lowers, rfl⟩ := ofBodies_ok succeeded
  rw [Body.lowerAll_single distinct, Body.lower_result _ _ distinct, map_eq_ok] at lowers
  obtain ⟨parts, lowersEach, rfl⟩ := lowers
  rw [Body.declarations, bare] at lowersEach
  exact ⟨parts, Declaration.yields_of_mapM lowersEach, rfl, by simp [Lowered.write]⟩

theorem apart_of_attachments (alike : first.AlikeBut kind type second)
    (wellFormed : (coreModuleWith first).WellFormed fun _ => True)
    (wellFormedToo : (coreModuleWith second).WellFormed fun _ => True)
    (succeeded : (ofBody (coreModuleWith first)).result = .ok contract)
    (succeededToo : (ofBody (coreModuleWith second)).result = .ok other) :
    contract.schemaApartFrom kind.block type = other.schemaApartFrom kind.block type ∧
      contract.fieldsApartFrom kind.block type = other.fieldsApartFrom kind.block type := by
  obtain ⟨parts, yields, schema, fields⟩ := exists_parts rfl succeeded
  obtain ⟨otherParts, yieldsToo, otherSchema, otherFields⟩ := exists_parts rfl succeededToo
  have declared : Pointwise (fun key declaration another => ∃ block other,
      declaration = Declaration.block block ∧ another = Declaration.block other ∧
        OnlyAt kind.block (Block.Reattached kind type) key block other)
      (OrderedMap.mapValues Declaration.block (coreModuleWith first).blocks)
      (OrderedMap.mapValues Declaration.block (coreModuleWith second).blocks) :=
    alike.blocks.mapValues fun key block other both => ⟨block, other, rfl, rfl, both⟩
  have good {module : Body} (wellFormed : module.WellFormed fun _ => True) :
      ∀ entry ∈ OrderedMap.mapValues Declaration.block module.blocks,
        entry.2.WellFormed fun _ => True := by
    intro entry member
    obtain ⟨known, listed, rfl⟩ := List.mem_map.mp member
    exact wellFormed.block listed
  have apart : Pointwise (YieldsApart kind.block type) parts otherParts := by
    refine yields.pointwise declared yieldsToo (good wellFormed) (good wellFormedToo) ?_
    rintro key _ _ part otherPart ⟨block, other, rfl, rfl, both⟩ blockGood otherGood lowers lowersToo
    exact yieldsApart_of_lower both blockGood otherGood lowers lowersToo
  constructor
  · have members := Pointwise.insertAll .nil (apart.mapValues fun _ _ _ both => both.1)
    rw [schemaApartFrom, schemaApartFrom, schema, otherSchema]
    exact members.modify_eq (OrderedMap.distinct_insertAll OrderedMap.distinct_nil _)
      fun _ _ same => same
  · rw [fieldsApartFrom, fieldsApartFrom, fields, otherFields, apartFrom_flatMap, apartFrom_flatMap]
    exact apart.flatMap_eq fun _ _ _ both => both.2

end Contract

end ConfigContract
