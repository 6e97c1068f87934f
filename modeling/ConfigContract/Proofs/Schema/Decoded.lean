import ConfigContract.Proofs.Json.Ensures
import ConfigContract.Proofs.Schema.WellFormed
import ConfigContract.Schema.Decoding

/-!
Module schemas that are read hold no key twice.
-/

namespace ConfigContract

open Reader

/-! Value types -/

namespace ValueTypeReaders

structure Sound (readers : ValueTypeReaders) : Prop where
  type : readers.type.Ensures ValueType.WellFormed
  fields : readers.fields.Ensures fun fields =>
    OrderedMap.Distinct fields ∧ ∀ entry ∈ fields, entry.2.WellFormed
  types : readers.types.Ensures fun types => ∀ type ∈ types, type.WellFormed

theorem named_wellFormed (name : String) : (named name).Ensures ValueType.WellFormed := by
  unfold named
  split
  next type known =>
    refine .pure ?_
    have member := OrderedMap.mem_of_get? known
    simp only [primitives, List.mem_cons, Prod.mk.injEq, List.not_mem_nil, or_false] at member
    rcases member with ⟨-, rfl⟩ | ⟨-, rfl⟩ | ⟨-, rfl⟩ | ⟨-, rfl⟩ <;> trivial
  next => exact .fail _

theorem Sound.element {inner : ValueTypeReaders} (sound : inner.Sound) {kind : String}
    {reader : Reader ValueType} (known : inner.element kind = some reader) :
    reader.Ensures ValueType.WellFormed := by
  unfold ValueTypeReaders.element at known
  split at known
  · exact Option.some.inj known ▸ .fmap sound.type
  · exact Option.some.inj known ▸ .fmap sound.type
  · exact Option.some.inj known ▸ .fmap sound.type
  · refine Option.some.inj known ▸ .fmap fun _ fields _ read => ?_
    obtain ⟨distinct, allGood⟩ := sound.fields read
    exact ⟨distinct, (fieldsWellFormed_iff fields).mpr allGood⟩
  · exact Option.some.inj known ▸ .fmap fun _ types _ read =>
      (elementsWellFormed_iff types).mpr (sound.types read)
  · cases known

theorem Sound.pair {inner : ValueTypeReaders} (sound : inner.Sound) (depth : Nat) :
    (pair depth inner).Ensures ValueType.WellFormed := by
  intro text type rest read
  unfold ValueTypeReaders.pair at read
  refine Ensures.after _ (fun _ => .after _ fun another => ?_) read
  cases another with
  | false => exact .fail _
  | true =>
      refine .after _ fun kind => ?_
      split
      next => exact .fail _
      next reader known =>
        refine .after _ fun another => ?_
        cases another with
        | false => exact .fail _
        | true =>
            exact ((sound.element known).within _).bind fun _ wellFormed =>
              .after _ fun _ => .after _ fun _ => .pure wellFormed

theorem Sound.atDepth {inner : ValueTypeReaders} (sound : inner.Sound) (depth : Nat) :
    (atDepth depth inner).Sound where
  type := by
    refine .after _ fun _ text type rest read => ?_
    split at read
    · exact Ensures.after _ named_wellFormed read
    · exact sound.pair depth read
    · exact Ensures.after (enter depth) (fun _ => .fail _) read
    · cases read
  fields := .map depth sound.type
  types := .list depth sound.type

theorem sound_default : (default : ValueTypeReaders).Sound := ⟨.fail _, .fail _, .fail _⟩

end ValueTypeReaders

/-! Attributes and constraints -/

namespace AttributeReaders

structure Sound (readers : AttributeReaders) : Prop where
  declared : readers.declared.Ensures (Attribute.WellFormed fun _ => True)
  attributes : readers.attributes.Ensures fun attributes =>
    OrderedMap.Distinct attributes ∧ ∀ entry ∈ attributes, entry.2.WellFormed fun _ => True
  constraint : readers.constraint.Ensures (Constraint.WellFormed fun _ => True)
  constraints : readers.constraints.Ensures (constraintsWellFormed fun _ => True)
  alternatives : readers.alternatives.Ensures (alternativesWellFormed fun _ => True)
  objectForm : readers.objectForm.Ensures (Constraint.WellFormed fun _ => True)
  listForm : readers.listForm.Ensures (Constraint.WellFormed fun _ => True)
  setForm : readers.setForm.Ensures (Constraint.WellFormed fun _ => True)
  mapForm : readers.mapForm.Ensures (Constraint.WellFormed fun _ => True)
  tupleForm : readers.tupleForm.Ensures (Constraint.WellFormed fun _ => True)
  valueTypes : readers.valueTypes.Sound

variable {inner : AttributeReaders}

theorem Sound.keeps_attribute (sound : inner.Sound) :
    ∀ field ∈ inner.attributeFields, field.Keeps (Attribute.WellFormed fun _ => True) := by
  intro field member
  simp only [attributeFields, List.mem_cons, List.not_mem_nil, or_false] at member
  rcases member with rfl | rfl | rfl | rfl | rfl | rfl
  case inr.inr.inr.inr.inr =>
    exact .field sound.constraints fun ⟨_, _, _, _, _, _⟩ _ _ constraintsGood => constraintsGood
  all_goals exact .field (.anything _) fun ⟨_, _, _, _, _, _⟩ _ wellFormed _ => wellFormed

theorem Sound.keeps_elements (sound : inner.Sound) :
    ∀ field ∈ inner.elementFields,
      field.Keeps fun elements => constraintsWellFormed (fun _ => True) elements.element := by
  intro field member
  simp only [elementFields, List.mem_cons, List.not_mem_nil, or_false] at member
  rcases member with rfl | rfl | rfl
  · exact .required sound.constraints fun _ _ _ elementGood => elementGood
  · exact .field (.anything _) fun _ _ wellFormed _ => wellFormed
  · exact .field (.anything _) fun _ _ wellFormed _ => wellFormed

theorem Sound.bare_constraint :
    ∀ variant ∈ inner.constraintVariants,
      variant.bare.Ensures (Constraint.WellFormed fun _ => True) := by
  intro variant member
  simp only [constraintVariants, List.mem_cons, List.not_mem_nil, or_false] at member
  rcases member with rfl | rfl | rfl | rfl | rfl | rfl | rfl | rfl | rfl
  case inr.inr.inr.inr.inr.inr.inr.inr => exact .pure trivial
  all_goals exact .fail _

theorem Sound.loaded_constraint (sound : inner.Sound) :
    ∀ variant ∈ inner.constraintVariants,
      variant.loaded.Ensures (Constraint.WellFormed fun _ => True) := by
  intro variant member
  simp only [constraintVariants, List.mem_cons, List.not_mem_nil, or_false] at member
  rcases member with rfl | rfl | rfl | rfl | rfl | rfl | rfl | rfl | rfl
  · exact .fmap sound.objectForm
  · exact .fmap sound.listForm
  · exact .fmap sound.setForm
  · exact .fmap sound.mapForm
  · exact .fmap sound.tupleForm
  · exact .fmap sound.valueTypes.type
  · exact .fmap fun _ _ _ _ => trivial
  · exact .fmap fun _ _ _ _ => trivial
  · exact .after _ fun _ => .pure trivial

theorem Sound.atDepth (sound : inner.Sound) (depth : Nat) : (atDepth depth inner).Sound where
  declared := .record _ depth sound.keeps_attribute trivial
  attributes := .map depth sound.declared
  constraint := .variants depth Sound.bare_constraint sound.loaded_constraint
  constraints := fun _ constraints _ read =>
    (constraintsWellFormed_iff constraints).mpr (sound.constraint.list depth read)
  alternatives := fun _ alternatives _ read =>
    (alternativesWellFormed_iff alternatives).mpr (sound.constraints.list depth read)
  objectForm := by
    refine .fmap (.record _ depth (List.forall_mem_singleton.mpr ?_) ⟨.nil, trivial⟩)
    refine .required sound.attributes fun _ attributes _ attributesGood => ?_
    exact ⟨attributesGood.1, (attributesWellFormed_iff attributes).mpr attributesGood.2⟩
  listForm := .fmap (.record _ depth sound.keeps_elements trivial)
  setForm := .fmap (.record _ depth sound.keeps_elements trivial)
  mapForm := .fmap (.record _ depth (List.forall_mem_singleton.mpr
    (.required sound.constraints fun _ _ _ elementGood => elementGood)) trivial)
  tupleForm := .fmap (.record _ depth (List.forall_mem_singleton.mpr
    (.required sound.alternatives fun _ _ _ elementsGood => elementsGood)) trivial)
  valueTypes := sound.valueTypes.atDepth depth

theorem sound_default : (default : AttributeReaders).Sound :=
  ⟨.fail _, .fail _, .fail _, .fail _, .fail _, .fail _, .fail _, .fail _, .fail _, .fail _,
    ValueTypeReaders.sound_default⟩

end AttributeReaders

/-! Bodies and blocks -/

namespace BodyReaders

structure Sound (readers : BodyReaders) : Prop where
  body : readers.body.Ensures (Body.WellFormed fun _ => True)
  blocks : readers.blocks.Ensures fun blocks =>
    OrderedMap.Distinct blocks ∧ ∀ entry ∈ blocks, entry.2.WellFormed fun _ => True
  block : readers.block.Ensures (Block.WellFormed fun _ => True)
  dependents : readers.dependents.Ensures (dependentsWellFormed fun _ => True)
  dependent : readers.dependent.Ensures fun dependent => dependent.body.WellFormed fun _ => True
  attributes : readers.attributes.Sound

variable {inner : BodyReaders}

theorem Sound.keeps_body (sound : inner.Sound) :
    ∀ field ∈ inner.bodyFields, field.Keeps (Body.WellFormed fun _ => True) := by
  intro field member
  simp only [bodyFields, List.mem_cons, List.not_mem_nil, or_false] at member
  rcases member with rfl | rfl | rfl | rfl
  · exact .field (.anything _) fun ⟨_, _, _, _⟩ _ wellFormed _ => wellFormed
  · refine .field sound.attributes.attributes ?_
    rintro ⟨⟩ attributes ⟨-, -, others⟩ ⟨distinct, attributesGood⟩
    exact ⟨distinct, (attributesWellFormed_iff attributes).mpr attributesGood, others⟩
  · refine .field sound.blocks ?_
    rintro ⟨⟩ blocks ⟨distinct, attributesGood, -, -, anyGood⟩ ⟨distinctBlocks, blocksGood⟩
    exact ⟨distinct, attributesGood, distinctBlocks, (blocksWellFormed_iff blocks).mpr blocksGood,
      anyGood⟩
  · refine .field sound.attributes.declared.optional ?_
    rintro ⟨⟩ anyAttribute ⟨distinct, attributesGood, distinctBlocks, blocksGood, -⟩ anyGood
    exact ⟨distinct, attributesGood, distinctBlocks, blocksGood, anyGood⟩

theorem Sound.keeps_block (sound : inner.Sound) :
    ∀ field ∈ inner.blockFields, field.Keeps (Block.WellFormed fun _ => True) := by
  intro field member
  simp only [blockFields, List.mem_cons, List.not_mem_nil, or_false] at member
  rcases member with rfl | rfl | rfl | rfl | rfl | rfl | rfl
  case inr.inr.inr.inr.inr.inl =>
    refine .field sound.body.optional ?_
    rintro ⟨⟩ body wellFormed bodyGood
    refine ⟨?_, wellFormed.2⟩
    cases body with
    | none => trivial
    | some body => exact bodyGood body rfl
  case inr.inr.inr.inr.inr.inr =>
    refine .field sound.dependents ?_
    rintro ⟨⟩ dependents wellFormed dependentsGood
    exact ⟨wellFormed.1, dependentsGood⟩
  all_goals exact .field (.anything _) fun ⟨_, _, _, _, _, _, _⟩ _ wellFormed _ => wellFormed

theorem Sound.keeps_dependent (sound : inner.Sound) :
    ∀ field ∈ inner.dependentFields,
      field.Keeps fun dependent => dependent.body.WellFormed fun _ => True := by
  intro field member
  simp only [dependentFields, List.mem_cons, List.not_mem_nil, or_false] at member
  rcases member with rfl | rfl
  · exact .required (.anything _) fun _ _ wellFormed _ => wellFormed
  · exact .required sound.body fun _ _ _ bodyGood => bodyGood

theorem Sound.atDepth (sound : inner.Sound) (depth : Nat) : (atDepth depth inner).Sound where
  body := .record _ depth sound.keeps_body Body.wellFormed_empty
  blocks := .map depth sound.block
  block := .record _ depth sound.keeps_block ⟨trivial, trivial⟩
  dependents := fun _ dependents _ read =>
    (dependentsWellFormed_iff dependents).mpr (sound.dependent.list depth read)
  dependent := .record _ depth sound.keeps_dependent Body.wellFormed_empty
  attributes := sound.attributes.atDepth depth

theorem sound_default : (default : BodyReaders).Sound :=
  ⟨.fail _, .fail _, .fail _, .fail _, .fail _, AttributeReaders.sound_default⟩

theorem sound_ofDepth (depth : Nat) : (ofDepth depth).Sound :=
  (below_induction sound_default Sound.atDepth depth).atDepth depth

end BodyReaders

theorem Schema.wellFormed_of_readBody {text : Text} {body : Body}
    (read : readBody text = .ok body) : body.WellFormed fun _ => True := by
  obtain ⟨⟨value, rest⟩, readValue, rfl⟩ := map_eq_ok.mp read
  exact (BodyReaders.sound_ofDepth greatestDepth).body readValue

end ConfigContract
