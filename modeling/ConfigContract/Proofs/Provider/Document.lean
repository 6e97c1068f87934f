import ConfigContract.Proofs.Schema.Decoded
import ConfigContract.Provider.Decoding

/-!
Schema documents that are read hold no key twice, and neither do the module schemas that they mean.
-/

namespace ConfigContract

open Reader

mutual

@[simp] def AttributeDeclaration.WellFormed : AttributeDeclaration → Prop
  | ⟨type, nestedType, _, _, _, _, _, _⟩ =>
      (∀ given ∈ type, given.WellFormed) ∧ nestedTypeWellFormed nestedType

@[simp] def nestedTypeWellFormed : Option NestedType → Prop
  | none => True
  | some ⟨attributes, _, _, _⟩ =>
      OrderedMap.Distinct attributes ∧ declarationsWellFormed attributes

@[simp] def declarationsWellFormed : List (String × AttributeDeclaration) → Prop
  | [] => True
  | (_, declaration) :: rest => declaration.WellFormed ∧ declarationsWellFormed rest

end

mutual

@[simp] def BlockDeclaration.WellFormed : BlockDeclaration → Prop
  | ⟨attributes, blockTypes, _, _⟩ =>
      OrderedMap.Distinct attributes ∧ declarationsWellFormed attributes ∧
        OrderedMap.Distinct blockTypes ∧ nestedBlocksWellFormed blockTypes

@[simp] def NestedBlock.WellFormed : NestedBlock → Prop
  | ⟨_, block, _, _⟩ => block.WellFormed

@[simp] def nestedBlocksWellFormed : List (String × NestedBlock) → Prop
  | [] => True
  | (_, nested) :: rest => nested.WellFormed ∧ nestedBlocksWellFormed rest

end

theorem declarationsWellFormed_iff (declarations : List (String × AttributeDeclaration)) :
    declarationsWellFormed declarations ↔ ∀ entry ∈ declarations, entry.2.WellFormed := by
  induction declarations with
  | nil => simp
  | cons entry rest ih => simp [ih]

theorem nestedBlocksWellFormed_iff (blockTypes : List (String × NestedBlock)) :
    nestedBlocksWellFormed blockTypes ↔ ∀ entry ∈ blockTypes, entry.2.WellFormed := by
  induction blockTypes with
  | nil => simp
  | cons entry rest ih => simp [ih]

def ProviderDeclaration.WellFormed (declaration : ProviderDeclaration) : Prop :=
  (∀ schema ∈ declaration.provider, schema.block.WellFormed) ∧
    (∀ entry ∈ declaration.resources, entry.2.block.WellFormed) ∧
      ∀ entry ∈ declaration.dataSources, entry.2.block.WellFormed

def Document.WellFormed (document : Document) : Prop :=
  ∀ entry ∈ document.providers, entry.2.WellFormed

/-! Reading declarations -/

namespace DeclarationReaders

structure Sound (readers : DeclarationReaders) : Prop where
  declared : readers.declared.Ensures AttributeDeclaration.WellFormed
  attributes : readers.attributes.Ensures fun attributes =>
    OrderedMap.Distinct attributes ∧ ∀ entry ∈ attributes, entry.2.WellFormed
  nestedType : readers.nestedType.Ensures fun nested => nestedTypeWellFormed (some nested)
  block : readers.block.Ensures BlockDeclaration.WellFormed
  blockTypes : readers.blockTypes.Ensures fun blockTypes =>
    OrderedMap.Distinct blockTypes ∧ ∀ entry ∈ blockTypes, entry.2.WellFormed
  nestedBlock : readers.nestedBlock.Ensures NestedBlock.WellFormed
  schema : readers.schema.Ensures fun schema => schema.block.WellFormed
  schemas : readers.schemas.Ensures fun schemas => ∀ entry ∈ schemas, entry.2.block.WellFormed
  provider : readers.provider.Ensures ProviderDeclaration.WellFormed
  providers : readers.providers.Ensures fun providers => ∀ entry ∈ providers, entry.2.WellFormed
  document : readers.document.Ensures Document.WellFormed
  valueTypes : readers.valueTypes.Sound

variable {inner : DeclarationReaders}

theorem Sound.keeps_attribute (sound : inner.Sound) :
    ∀ field ∈ inner.attributeFields, field.Keeps AttributeDeclaration.WellFormed := by
  intro field member
  simp only [attributeFields, List.mem_cons, List.not_mem_nil, or_false] at member
  rcases member with rfl | rfl | others
  · refine .field sound.valueTypes.type.optional ?_
    rintro ⟨⟩ type wellFormed typeGood
    exact ⟨typeGood, wellFormed.2⟩
  · refine .field sound.nestedType.optional ?_
    rintro ⟨⟩ nested wellFormed nestedGood
    refine ⟨wellFormed.1, ?_⟩
    cases nested with
    | none => trivial
    | some nested => exact nestedGood nested rfl
  · rcases others with rfl | rfl | rfl | rfl | rfl | rfl <;>
      exact .field (.anything _) fun ⟨_, _, _, _, _, _, _, _⟩ _ wellFormed _ => wellFormed

theorem Sound.keeps_nestedType (sound : inner.Sound) :
    ∀ field ∈ inner.nestedTypeFields,
      field.Keeps fun nested => nestedTypeWellFormed (some nested) := by
  intro field member
  simp only [nestedTypeFields, List.mem_cons, List.not_mem_nil, or_false] at member
  rcases member with rfl | rfl | others
  · refine .field sound.attributes ?_
    rintro ⟨⟩ attributes - ⟨distinct, allGood⟩
    exact ⟨distinct, (declarationsWellFormed_iff attributes).mpr allGood⟩
  · exact .required (.anything _) fun ⟨_, _, _, _⟩ _ wellFormed _ => wellFormed
  · rcases others with rfl | rfl <;>
      exact .field (.anything _) fun ⟨_, _, _, _⟩ _ wellFormed _ => wellFormed

theorem Sound.keeps_block (sound : inner.Sound) :
    ∀ field ∈ inner.blockFields, field.Keeps BlockDeclaration.WellFormed := by
  intro field member
  simp only [blockFields, List.mem_cons, List.not_mem_nil, or_false] at member
  rcases member with rfl | rfl | others
  · refine .field sound.attributes ?_
    rintro ⟨⟩ attributes wellFormed ⟨distinct, allGood⟩
    exact ⟨distinct, (declarationsWellFormed_iff attributes).mpr allGood, wellFormed.2.2⟩
  · refine .field sound.blockTypes ?_
    rintro ⟨⟩ blockTypes wellFormed ⟨distinct, allGood⟩
    have nestedGood := (nestedBlocksWellFormed_iff blockTypes).mpr allGood
    exact ⟨wellFormed.1, wellFormed.2.1, distinct, nestedGood⟩
  · rcases others with rfl | rfl <;>
      exact .field (.anything _) fun ⟨_, _, _, _⟩ _ wellFormed _ => wellFormed

theorem Sound.keeps_nestedBlock (sound : inner.Sound) :
    ∀ field ∈ inner.nestedBlockFields, field.Keeps NestedBlock.WellFormed := by
  intro field member
  simp only [nestedBlockFields, List.mem_cons, List.not_mem_nil, or_false] at member
  rcases member with rfl | rfl | others
  · exact .required (.anything _) fun ⟨_, _, _, _⟩ _ wellFormed _ => wellFormed
  · exact .field sound.block fun ⟨_, _, _, _⟩ _ _ blockGood => blockGood
  · rcases others with rfl | rfl <;>
      exact .field (.anything _) fun ⟨_, _, _, _⟩ _ wellFormed _ => wellFormed

theorem Sound.keeps_schema (sound : inner.Sound) :
    ∀ field ∈ inner.schemaFields, field.Keeps fun schema => schema.block.WellFormed := by
  intro field member
  simp only [schemaFields, List.mem_cons, List.not_mem_nil, or_false] at member
  rcases member with rfl | rfl
  · exact .field (.anything _) fun _ _ wellFormed _ => wellFormed
  · exact .required sound.block fun _ _ _ blockGood => blockGood

theorem Sound.keeps_provider (sound : inner.Sound) :
    ∀ field ∈ inner.providerFields, field.Keeps ProviderDeclaration.WellFormed := by
  intro field member
  simp only [providerFields, List.mem_cons, List.not_mem_nil, or_false] at member
  rcases member with rfl | rfl | rfl
  · refine .field sound.schema.optional ?_
    rintro declared provider ⟨-, resourcesGood, dataSourcesGood⟩ providerGood
    exact ⟨providerGood, resourcesGood, dataSourcesGood⟩
  · refine .field sound.schemas ?_
    rintro declared resources ⟨providerGood, -, dataSourcesGood⟩ resourcesGood
    exact ⟨providerGood, resourcesGood, dataSourcesGood⟩
  · refine .field sound.schemas ?_
    rintro declared dataSources ⟨providerGood, resourcesGood, -⟩ dataSourcesGood
    exact ⟨providerGood, resourcesGood, dataSourcesGood⟩

theorem Sound.keeps_document (sound : inner.Sound) :
    ∀ field ∈ inner.documentFields, field.Keeps Document.WellFormed := by
  intro field member
  simp only [documentFields, List.mem_cons, List.not_mem_nil, or_false] at member
  rcases member with rfl | rfl
  · exact .field (.anything _) fun _ _ wellFormed _ => wellFormed
  · exact .field sound.providers fun _ _ _ providersGood => providersGood

theorem Sound.atDepth (sound : inner.Sound) (depth : Nat) : (atDepth depth inner).Sound where
  declared := .record _ depth sound.keeps_attribute ⟨nofun, trivial⟩
  attributes := .map depth sound.declared
  nestedType := .record _ depth sound.keeps_nestedType ⟨OrderedMap.distinct_nil, trivial⟩
  block := .record _ depth sound.keeps_block
    ⟨OrderedMap.distinct_nil, trivial, OrderedMap.distinct_nil, trivial⟩
  blockTypes := .map depth sound.nestedBlock
  nestedBlock := .record _ depth sound.keeps_nestedBlock
    ⟨OrderedMap.distinct_nil, trivial, OrderedMap.distinct_nil, trivial⟩
  schema := .record _ depth sound.keeps_schema
    ⟨OrderedMap.distinct_nil, trivial, OrderedMap.distinct_nil, trivial⟩
  schemas := fun _ _ _ read => ((sound.schema.map depth) read).2
  provider := .record _ depth sound.keeps_provider ⟨nofun, nofun, nofun⟩
  providers := fun _ _ _ read => ((sound.provider.map depth) read).2
  document := .record _ depth sound.keeps_document nofun
  valueTypes := sound.valueTypes.atDepth depth

theorem sound_default : (default : DeclarationReaders).Sound :=
  ⟨.fail _, .fail _, .fail _, .fail _, .fail _, .fail _, .fail _, .fail _, .fail _, .fail _,
    .fail _, ValueTypeReaders.sound_default⟩

theorem sound_ofDepth (depth : Nat) : (ofDepth depth).Sound :=
  (below_induction sound_default Sound.atDepth depth).atDepth depth

end DeclarationReaders

theorem Document.wellFormed_of_read {text : Text} {document : Document}
    (read : Document.read text = .ok document) : document.WellFormed := by
  obtain ⟨⟨value, rest⟩, readValue, rfl⟩ := map_eq_ok.mp read
  exact (DeclarationReaders.sound_ofDepth greatestDepth).document readValue

/-! Schemas by type name -/

def ProviderDeclaration.Keyed (declaration : ProviderDeclaration) : Prop :=
  OrderedMap.Distinct declaration.resources ∧ OrderedMap.Distinct declaration.dataSources

def Document.Keyed (document : Document) : Prop := ∀ entry ∈ document.providers, entry.2.Keyed

namespace DeclarationReaders

structure Keyed (readers : DeclarationReaders) : Prop where
  schemas : readers.schemas.Ensures OrderedMap.Distinct
  provider : readers.provider.Ensures ProviderDeclaration.Keyed
  providers : readers.providers.Ensures fun providers => ∀ entry ∈ providers, entry.2.Keyed
  document : readers.document.Ensures Document.Keyed

variable {inner : DeclarationReaders}

theorem Keyed.keeps_provider (keyed : inner.Keyed) :
    ∀ field ∈ inner.providerFields, field.Keeps ProviderDeclaration.Keyed := by
  intro field member
  simp only [providerFields, List.mem_cons, List.not_mem_nil, or_false] at member
  rcases member with rfl | rfl | rfl
  · exact .field (.anything _) fun _ _ keyed _ => keyed
  · exact .field keyed.schemas fun _ _ keyed distinct => ⟨distinct, keyed.2⟩
  · exact .field keyed.schemas fun _ _ keyed distinct => ⟨keyed.1, distinct⟩

theorem Keyed.keeps_document (keyed : inner.Keyed) :
    ∀ field ∈ inner.documentFields, field.Keeps Document.Keyed := by
  intro field member
  simp only [documentFields, List.mem_cons, List.not_mem_nil, or_false] at member
  rcases member with rfl | rfl
  · exact .field (.anything _) fun _ _ keyed _ => keyed
  · exact .field keyed.providers fun _ _ _ providersKeyed => providersKeyed

theorem keyed_default : (default : DeclarationReaders).Keyed := ⟨.fail _, .fail _, .fail _, .fail _⟩

theorem Keyed.atDepth (keyed : inner.Keyed) (depth : Nat) : (atDepth depth inner).Keyed where
  schemas := fun _ _ _ read => ((Ensures.anything inner.schema).map depth read).1
  provider := .record _ depth keyed.keeps_provider
    ⟨OrderedMap.distinct_nil, OrderedMap.distinct_nil⟩
  providers := fun _ _ _ read => (keyed.provider.map depth read).2
  document := .record _ depth keyed.keeps_document nofun

theorem keyed_ofDepth (depth : Nat) : (ofDepth depth).Keyed :=
  (below_induction keyed_default Keyed.atDepth depth).atDepth depth

end DeclarationReaders

theorem Document.keyed_of_read {text : Text} {document : Document}
    (read : Document.read text = .ok document) : document.Keyed := by
  obtain ⟨⟨value, rest⟩, readValue, rfl⟩ := map_eq_ok.mp read
  exact (DeclarationReaders.keyed_ofDepth greatestDepth).document readValue

/-! From declarations to module schemas -/

variable {literal : Json → Prop}

theorem keys_fieldAttributes (fields : List (String × ValueType)) :
    OrderedMap.keys (fieldAttributes fields) = OrderedMap.keys fields := by
  induction fields with
  | nil => rfl
  | cons entry rest ih => exact congrArg (entry.1 :: ·) ih

mutual

theorem ValueType.wellFormed_toConstraint : ∀ type : ValueType, type.WellFormed →
    type.toConstraint.WellFormed literal
  | .dynamic, _ => trivial
  | .string, _ => trivial
  | .number, _ => trivial
  | .bool, _ => trivial
  | .list element, wellFormed => ⟨element.wellFormed_toConstraint wellFormed, trivial⟩
  | .set element, wellFormed => ⟨element.wellFormed_toConstraint wellFormed, trivial⟩
  | .map element, wellFormed => ⟨element.wellFormed_toConstraint wellFormed, trivial⟩
  | .object fields, wellFormed =>
      ⟨.of_keys (keys_fieldAttributes fields) wellFormed.1,
        attributesWellFormed_fields fields wellFormed.2⟩
  | .tuple elements, wellFormed => alternativesWellFormed_elements elements wellFormed

theorem attributesWellFormed_fields : ∀ fields : List (String × ValueType),
    fieldsWellFormed fields → attributesWellFormed literal (fieldAttributes fields)
  | [], _ => trivial
  | (_, type) :: rest, wellFormed =>
      ⟨⟨type.wellFormed_toConstraint wellFormed.1, trivial⟩,
        attributesWellFormed_fields rest wellFormed.2⟩

theorem alternativesWellFormed_elements : ∀ elements : List ValueType,
    elementsWellFormed elements → alternativesWellFormed literal (elementConstraints elements)
  | [], _ => trivial
  | type :: rest, wellFormed =>
      ⟨⟨type.wellFormed_toConstraint wellFormed.1, trivial⟩,
        alternativesWellFormed_elements rest wellFormed.2⟩

end

theorem Nesting.wellFormed_toConstraint (nesting : Nesting) {object : Constraint}
    (wellFormed : object.WellFormed literal) (minItems maxItems : UInt64) :
    (nesting.toConstraint object minItems maxItems).WellFormed literal := by
  cases nesting with
  | single => exact wellFormed
  | group => exact wellFormed
  | list => exact ⟨wellFormed, trivial⟩
  | set => exact ⟨wellFormed, trivial⟩
  | map => exact ⟨wellFormed, trivial⟩

theorem keys_declaredAttributes (declarations : List (String × AttributeDeclaration)) :
    OrderedMap.keys (declaredAttributes declarations) = OrderedMap.keys declarations := by
  induction declarations with
  | nil => rfl
  | cons entry rest ih => exact congrArg (entry.1 :: ·) ih

mutual

theorem AttributeDeclaration.wellFormed_toAttribute : ∀ declaration : AttributeDeclaration,
    declaration.WellFormed → declaration.toAttribute.WellFormed literal
  | ⟨type, nestedType, _, _, _, _, _, _⟩, wellFormed => by
      refine formWellFormed nestedType ?_ wellFormed.2
      cases type with
      | none => trivial
      | some type => exact ⟨type.wellFormed_toConstraint (wellFormed.1 type rfl), trivial⟩

theorem formWellFormed : ∀ (nestedType : Option NestedType) {constraints : List Constraint},
    constraintsWellFormed literal constraints → nestedTypeWellFormed nestedType →
      constraintsWellFormed literal (formConstraints nestedType constraints)
  | none, _, constraintsGood, _ => constraintsGood
  | some ⟨attributes, nesting, minItems, maxItems⟩, _, _, wellFormed =>
      have objectGood : (Constraint.object (declaredAttributes attributes)).WellFormed literal :=
        ⟨.of_keys (keys_declaredAttributes attributes) wellFormed.1,
          declaredWellFormed attributes wellFormed.2⟩
      ⟨nesting.wellFormed_toConstraint objectGood minItems maxItems, trivial⟩

theorem declaredWellFormed : ∀ declarations : List (String × AttributeDeclaration),
    declarationsWellFormed declarations →
      attributesWellFormed literal (declaredAttributes declarations)
  | [], _ => trivial
  | (_, declaration) :: rest, wellFormed =>
      ⟨declaration.wellFormed_toAttribute wellFormed.1, declaredWellFormed rest wellFormed.2⟩

end

theorem keys_declaredBlocks (blockTypes : List (String × NestedBlock)) :
    OrderedMap.keys (declaredBlocks blockTypes) = OrderedMap.keys blockTypes := by
  induction blockTypes with
  | nil => rfl
  | cons entry rest ih => exact congrArg (entry.1 :: ·) ih

theorem Nesting.dependents_toBlock (nesting : Nesting) : nesting.toBlock.dependents = [] := by
  cases nesting <;> rfl

mutual

theorem BlockDeclaration.wellFormed_toBody : ∀ declaration : BlockDeclaration,
    declaration.WellFormed → declaration.toBody.WellFormed literal
  | ⟨attributes, blockTypes, _, _⟩, ⟨distinct, attributesGood, distinctBlocks, blocksGood⟩ =>
      ⟨.of_keys (keys_declaredAttributes attributes) distinct,
        declaredWellFormed attributes attributesGood,
        .of_keys (keys_declaredBlocks blockTypes) distinctBlocks,
        declaredBlocksWellFormed blockTypes blocksGood, nofun⟩

theorem NestedBlock.wellFormed_toBlock : ∀ nested : NestedBlock,
    nested.WellFormed → nested.toBlock.WellFormed literal
  | ⟨nesting, block, _, _⟩, wellFormed => by
      refine ⟨block.wellFormed_toBody wellFormed, ?_⟩
      show dependentsWellFormed literal nesting.toBlock.dependents
      rw [nesting.dependents_toBlock]
      trivial

theorem declaredBlocksWellFormed : ∀ blockTypes : List (String × NestedBlock),
    nestedBlocksWellFormed blockTypes → blocksWellFormed literal (declaredBlocks blockTypes)
  | [], _ => trivial
  | (_, nested) :: rest, wellFormed =>
      ⟨nested.wellFormed_toBlock wellFormed.1, declaredBlocksWellFormed rest wellFormed.2⟩

end

end ConfigContract
