import ConfigContract.Proofs.Rearranged
import ConfigContract.Schema.Basic

/-!
Schemas that differ, at any depth, only in the order of attributes, of blocks, of the members of
object constraints, and of dependent bodies. Maps hold each key once. Labels, the forms of an
expression and the elements of a tuple keep their order, and so do the dependent bodies of a block
where two of them share a key: there the order decides which one counts.
-/

namespace ConfigContract

mutual

def Attribute.Reordered : Attribute → Attribute → Prop
  | ⟨description, isOptional, isRequired, isComputed, isSensitive, constraints⟩ => fun other =>
      ∃ others, other = ⟨description, isOptional, isRequired, isComputed, isSensitive, others⟩ ∧
        constraintsMatch constraints others

def Constraint.Reordered : Constraint → Constraint → Prop
  | .object attributes => fun other => ∃ others arranged, other = .object others ∧
      OrderedMap.Distinct attributes ∧ attributesMatch attributes arranged ∧ arranged.Perm others
  | .list element minItems maxItems => fun other => ∃ others,
      other = .list others minItems maxItems ∧ constraintsMatch element others
  | .set element minItems maxItems => fun other => ∃ others,
      other = .set others minItems maxItems ∧ constraintsMatch element others
  | .map element => fun other => ∃ others, other = .map others ∧ constraintsMatch element others
  | .tuple elements => fun other => ∃ others,
      other = .tuple others ∧ alternativesMatch elements others
  | .literalType type => fun other => other = .literalType type
  | .literalValue value => fun other => other = .literalValue value
  | .keyword word => fun other => other = .keyword word
  | .reference => fun other => other = .reference

def constraintsMatch : List Constraint → List Constraint → Prop
  | [] => fun others => others = []
  | constraint :: rest => fun others => ∃ other later, others = other :: later ∧
      constraint.Reordered other ∧ constraintsMatch rest later

def alternativesMatch : List (List Constraint) → List (List Constraint) → Prop
  | [] => fun others => others = []
  | constraints :: rest => fun others => ∃ other later, others = other :: later ∧
      constraintsMatch constraints other ∧ alternativesMatch rest later

def attributesMatch : List (String × Attribute) → List (String × Attribute) → Prop
  | [] => fun others => others = []
  | (key, declared) :: rest => fun others => ∃ other later, others = (key, other) :: later ∧
      declared.Reordered other ∧ attributesMatch rest later

end

/-- No key selects two of the dependent bodies. -/
def Unshared (dependents : List DependentBody) : Prop :=
  (dependents.map DependentBody.keys).Pairwise List.Disjoint

mutual

def Body.Reordered : Body → Body → Prop
  | ⟨description, attributes, blocks, anyAttribute⟩ => fun other =>
      other.description = description ∧
      OrderedMap.Rearranged (fun _ => Attribute.Reordered) attributes other.attributes ∧
      (OrderedMap.Distinct blocks ∧
        ∃ arranged, blocksMatch blocks arranged ∧ arranged.Perm other.blocks) ∧
      Option.Rel Attribute.Reordered anyAttribute other.anyAttribute

def Block.Reordered : Block → Block → Prop
  | ⟨description, labels, blockType, minItems, maxItems, body, dependents⟩ => fun other =>
      ∃ own others arranged,
        other = ⟨description, labels, blockType, minItems, maxItems, own, others⟩ ∧
        bodyMatch body own ∧ dependentsMatch dependents arranged ∧
        (arranged = others ∨ Unshared dependents ∧ arranged.Perm others)

def bodyMatch : Option Body → Option Body → Prop
  | none => fun other => other = none
  | some body => fun other => ∃ own, other = some own ∧ body.Reordered own

def blocksMatch : List (String × Block) → List (String × Block) → Prop
  | [] => fun others => others = []
  | (key, block) :: rest => fun others => ∃ other later, others = (key, other) :: later ∧
      block.Reordered other ∧ blocksMatch rest later

def dependentsMatch : List DependentBody → List DependentBody → Prop
  | [] => fun others => others = []
  | ⟨keys, body⟩ :: rest => fun others => ∃ other later, others = ⟨keys, other⟩ :: later ∧
      body.Reordered other ∧ dependentsMatch rest later

end

theorem blocksMatch_iff (blocks others : List (String × Block)) :
    blocksMatch blocks others ↔
      OrderedMap.Pointwise (fun _ => Block.Reordered) blocks others := by
  induction blocks generalizing others with
  | nil => exact OrderedMap.Pointwise.nil_iff.symm
  | cons entry rest ih => simp only [blocksMatch, OrderedMap.Pointwise.cons_iff, ih]

theorem dependentsMatch_iff (dependents others : List DependentBody) :
    dependentsMatch dependents others ↔
      List.Forall₂ (fun dependent other => dependent.keys = other.keys ∧
        dependent.body.Reordered other.body) dependents others := by
  induction dependents generalizing others with
  | nil => exact List.forall₂_nil_left_iff.symm
  | cons dependent rest ih =>
      obtain ⟨keys, body⟩ := dependent
      simp only [dependentsMatch, ih]
      constructor
      · rintro ⟨other, later, rfl, reordered, matched⟩
        exact .cons ⟨rfl, reordered⟩ matched
      · intro matched
        cases matched with
        | @cons _ another _ later first matched =>
            obtain ⟨sameKeys, other⟩ := another
            obtain ⟨rfl, reordered⟩ := first
            exact ⟨other, later, rfl, reordered, matched⟩

namespace Body.Reordered

variable {body other : Body}

theorem description (reordered : body.Reordered other) : body.description = other.description := by
  cases body
  exact reordered.1.symm

theorem attributes (reordered : body.Reordered other) :
    OrderedMap.Rearranged (fun _ => Attribute.Reordered) body.attributes other.attributes := by
  cases body
  exact reordered.2.1

theorem blocks (reordered : body.Reordered other) :
    OrderedMap.Rearranged (fun _ => Block.Reordered) body.blocks other.blocks := by
  cases body
  obtain ⟨distinct, arranged, matched, perm⟩ := reordered.2.2.1
  exact ⟨distinct, arranged, (blocksMatch_iff _ _).mp matched, perm⟩

theorem anyAttribute (reordered : body.Reordered other) :
    Option.Rel Attribute.Reordered body.anyAttribute other.anyAttribute := by
  cases body
  exact reordered.2.2.2

end Body.Reordered

end ConfigContract
