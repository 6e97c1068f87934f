import ConfigContract.Contract.Basic
import ConfigContract.Proofs.Rearranged

/-!
Contracts that are equal as nested maps: at every depth the same members, in whatever order.
-/

namespace ConfigContract

mutual

def ContractType.Alike : ContractType → ContractType → Prop
  | .dynamic => fun other => other = .dynamic
  | .string => fun other => other = .string
  | .number => fun other => other = .number
  | .bool => fun other => other = .bool
  | .list min max content => fun other => ∃ inner, other = .list min max inner ∧ content.Alike inner
  | .object isOpen content => fun other => ∃ others arranged, other = .object isOpen others ∧
      OrderedMap.Distinct content ∧ membersMatch content arranged ∧ arranged.Perm others
  | .dictionary content => fun other => ∃ inner, other = .dictionary inner ∧ content.Alike inner

def Member.Alike : Member → Member → Prop
  | ⟨description, optional, computed, type⟩ => fun other => ∃ inner,
      other = ⟨description, optional, computed, inner⟩ ∧ type.Alike inner

def membersMatch : List (String × Member) → List (String × Member) → Prop
  | [] => fun others => others = []
  | (key, member) :: rest => fun others => ∃ other later, others = (key, other) :: later ∧
      member.Alike other ∧ membersMatch rest later

end

def Members.Alike (content others : Members) : Prop :=
  OrderedMap.Rearranged (fun _ => Member.Alike) content others

theorem membersMatch_iff (content others : Members) :
    membersMatch content others ↔
      OrderedMap.Pointwise (fun _ => Member.Alike) content others := by
  induction content generalizing others with
  | nil => exact OrderedMap.Pointwise.nil_iff.symm
  | cons entry rest ih => simp only [membersMatch, OrderedMap.Pointwise.cons_iff, ih]

theorem Member.Alike.type {member other : Member} (alike : member.Alike other) :
    member.type.Alike other.type := by
  cases member
  obtain ⟨inner, rfl, both⟩ := alike
  exact both

namespace ContractType

variable {type other : ContractType}

theorem alike_object (isOpen : Bool) {content others : Members} (alike : content.Alike others) :
    (object isOpen content).Alike (object isOpen others) := by
  obtain ⟨distinct, arranged, pointwise, perm⟩ := alike
  exact ⟨others, arranged, rfl, distinct, (membersMatch_iff _ _).mpr pointwise, perm⟩

theorem Alike.bounded (alike : type.Alike other) (minItems maxItems : UInt64) :
    (bounded minItems maxItems type).Alike (bounded minItems maxItems other) :=
  ⟨other, rfl, alike⟩

theorem Alike.dictionary (alike : type.Alike other) :
    (dictionary type).Alike (dictionary other) := ⟨other, rfl, alike⟩

theorem Alike.container (alike : type.Alike other) (description : String) :
    (Member.container description type).Alike (Member.container description other) :=
  ⟨other, rfl, alike⟩

theorem Alike.isList (alike : type.Alike other) : type.isList = other.isList := by
  cases type with
  | dynamic | string | number | bool =>
      cases alike
      rfl
  | list | dictionary =>
      obtain ⟨inner, rfl, -⟩ := alike
      rfl
  | object =>
      obtain ⟨others, arranged, rfl, -⟩ := alike
      rfl

end ContractType

end ConfigContract
