import ConfigContract.Proofs.OrderedMap
import ConfigContract.Schema.Basic
import Mathlib.Algebra.Group.Int.Defs

/-!
Schemas in which no map, at any depth, holds a key twice. Readers and builders yield no others. What
the values of literals have to be is left open.
-/

namespace ConfigContract

mutual

/-- JSON without fractions: integers of 64 bits, signed or unsigned, and no key twice. -/
@[simp] def Json.Integral : Json → Prop
  | .number (.integer value) => -(2 ^ 63) ≤ value ∧ value < 2 ^ 64
  | .number (.float _) => False
  | .array items => itemsIntegral items
  | .object members => OrderedMap.Distinct members ∧ membersIntegral members
  | _ => True

@[simp] def itemsIntegral : List Json → Prop
  | [] => True
  | item :: rest => item.Integral ∧ itemsIntegral rest

@[simp] def membersIntegral : List (String × Json) → Prop
  | [] => True
  | (_, value) :: rest => value.Integral ∧ membersIntegral rest

end

mutual

@[simp] def ValueType.WellFormed : ValueType → Prop
  | .list element => element.WellFormed
  | .set element => element.WellFormed
  | .map element => element.WellFormed
  | .object fields => OrderedMap.Distinct fields ∧ fieldsWellFormed fields
  | .tuple elements => elementsWellFormed elements
  | _ => True

@[simp] def fieldsWellFormed : List (String × ValueType) → Prop
  | [] => True
  | (_, type) :: rest => type.WellFormed ∧ fieldsWellFormed rest

@[simp] def elementsWellFormed : List ValueType → Prop
  | [] => True
  | type :: rest => type.WellFormed ∧ elementsWellFormed rest

end

mutual

@[simp] def Attribute.WellFormed (literal : Json → Prop) : Attribute → Prop
  | ⟨_, _, _, _, _, constraints⟩ => constraintsWellFormed literal constraints

@[simp] def Constraint.WellFormed (literal : Json → Prop) : Constraint → Prop
  | .object attributes => OrderedMap.Distinct attributes ∧ attributesWellFormed literal attributes
  | .list element _ _ => constraintsWellFormed literal element
  | .set element _ _ => constraintsWellFormed literal element
  | .map element => constraintsWellFormed literal element
  | .tuple elements => alternativesWellFormed literal elements
  | .literalType type => type.WellFormed
  | .literalValue value => literal value
  | .keyword _ => True
  | .reference => True

@[simp] def constraintsWellFormed (literal : Json → Prop) : List Constraint → Prop
  | [] => True
  | constraint :: rest => constraint.WellFormed literal ∧ constraintsWellFormed literal rest

@[simp] def alternativesWellFormed (literal : Json → Prop) : List (List Constraint) → Prop
  | [] => True
  | constraints :: rest =>
      constraintsWellFormed literal constraints ∧ alternativesWellFormed literal rest

@[simp] def attributesWellFormed (literal : Json → Prop) : List (String × Attribute) → Prop
  | [] => True
  | (_, declared) :: rest => declared.WellFormed literal ∧ attributesWellFormed literal rest

end

mutual

@[simp] def Body.WellFormed (literal : Json → Prop) : Body → Prop
  | ⟨_, attributes, blocks, anyAttribute⟩ =>
      OrderedMap.Distinct attributes ∧ attributesWellFormed literal attributes ∧
        OrderedMap.Distinct blocks ∧ blocksWellFormed literal blocks ∧
          ∀ declared ∈ anyAttribute, declared.WellFormed literal

@[simp] def Block.WellFormed (literal : Json → Prop) : Block → Prop
  | ⟨_, _, _, _, _, body, dependents⟩ =>
      bodyWellFormed literal body ∧ dependentsWellFormed literal dependents

@[simp] def bodyWellFormed (literal : Json → Prop) : Option Body → Prop
  | none => True
  | some body => body.WellFormed literal

@[simp] def blocksWellFormed (literal : Json → Prop) : List (String × Block) → Prop
  | [] => True
  | (_, block) :: rest => block.WellFormed literal ∧ blocksWellFormed literal rest

@[simp] def dependentsWellFormed (literal : Json → Prop) : List DependentBody → Prop
  | [] => True
  | ⟨_, body⟩ :: rest => body.WellFormed literal ∧ dependentsWellFormed literal rest

end

theorem fieldsWellFormed_iff (fields : List (String × ValueType)) :
    fieldsWellFormed fields ↔ ∀ entry ∈ fields, entry.2.WellFormed := by
  induction fields with
  | nil => simp
  | cons entry rest ih => simp [ih]

theorem elementsWellFormed_iff (elements : List ValueType) :
    elementsWellFormed elements ↔ ∀ type ∈ elements, type.WellFormed := by
  induction elements with
  | nil => simp
  | cons type rest ih => simp [ih]

variable {literal : Json → Prop}

theorem constraintsWellFormed_iff (constraints : List Constraint) :
    constraintsWellFormed literal constraints ↔
      ∀ constraint ∈ constraints, constraint.WellFormed literal := by
  induction constraints with
  | nil => simp
  | cons constraint rest ih => simp [ih]

theorem alternativesWellFormed_iff (alternatives : List (List Constraint)) :
    alternativesWellFormed literal alternatives ↔
      ∀ constraints ∈ alternatives, constraintsWellFormed literal constraints := by
  induction alternatives with
  | nil => simp
  | cons constraints rest ih => simp [ih]

theorem attributesWellFormed_iff (attributes : List (String × Attribute)) :
    attributesWellFormed literal attributes ↔ ∀ entry ∈ attributes, entry.2.WellFormed literal := by
  induction attributes with
  | nil => simp
  | cons entry rest ih => simp [ih]

theorem blocksWellFormed_iff (blocks : List (String × Block)) :
    blocksWellFormed literal blocks ↔ ∀ entry ∈ blocks, entry.2.WellFormed literal := by
  induction blocks with
  | nil => simp
  | cons entry rest ih => simp [ih]

theorem dependentsWellFormed_iff (dependents : List DependentBody) :
    dependentsWellFormed literal dependents ↔
      ∀ dependent ∈ dependents, dependent.body.WellFormed literal := by
  induction dependents with
  | nil => simp
  | cons dependent rest ih =>
      obtain ⟨keys, body⟩ := dependent
      simp [ih]

namespace Body

variable {body : Body}

theorem wellFormed_empty : ({} : Body).WellFormed literal :=
  ⟨List.nodup_nil, trivial, List.nodup_nil, trivial, nofun⟩

theorem WellFormed.distinct_attributes (wellFormed : body.WellFormed literal) :
    OrderedMap.Distinct body.attributes := by
  cases body
  exact wellFormed.1

theorem WellFormed.attribute (wellFormed : body.WellFormed literal) {entry : String × Attribute}
    (member : entry ∈ body.attributes) : entry.2.WellFormed literal := by
  cases body
  exact (attributesWellFormed_iff _).mp wellFormed.2.1 entry member

theorem WellFormed.block (wellFormed : body.WellFormed literal) {entry : String × Block}
    (member : entry ∈ body.blocks) : entry.2.WellFormed literal := by
  cases body
  exact (blocksWellFormed_iff _).mp wellFormed.2.2.2.1 entry member

theorem WellFormed.anyAttribute (wellFormed : body.WellFormed literal) {declared : Attribute}
    (present : body.anyAttribute = some declared) : declared.WellFormed literal := by
  cases body
  exact wellFormed.2.2.2.2 declared present

end Body

namespace Block

variable {block : Block}

theorem WellFormed.body (wellFormed : block.WellFormed literal) {body : Body}
    (present : block.body = some body) : body.WellFormed literal := by
  cases block
  cases present
  exact wellFormed.1

theorem WellFormed.dependent (wellFormed : block.WellFormed literal) {dependent : DependentBody}
    (member : dependent ∈ block.dependents) : dependent.body.WellFormed literal := by
  cases block
  exact (dependentsWellFormed_iff _).mp wellFormed.2 dependent member

end Block

end ConfigContract
