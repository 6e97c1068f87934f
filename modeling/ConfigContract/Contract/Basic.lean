import ConfigContract.OrderedMap

/-!
Contracts: the types that the values of a configuration module have to have, with the attributes
that providers compute.
-/

namespace ConfigContract

mutual

inductive ContractType where
  | dynamic
  | string
  | number
  | bool
  | list (min max : Option UInt64) (content : ContractType)
  | object (isOpen : Bool) (content : List (String × Member))
  | dictionary (content : ContractType)

structure Member where
  description : String
  optional : Bool
  computed : Bool
  type : ContractType

end

abbrev Members := OrderedMap String Member

/-- The place of an attribute that its provider computes; `force` when nothing else may set it. -/
structure ComputedField where
  force : Bool
  path : List String
deriving DecidableEq, Repr

structure Contract where
  computedFields : List ComputedField
  schema : Members

namespace ContractType

/-- A bound of zero is no bound. -/
def bound (n : UInt64) : Option UInt64 := if n = 0 then none else some n

@[simp] theorem bound_eq_none_iff {n : UInt64} : bound n = none ↔ n = 0 := by
  simp [bound]

@[simp] theorem bound_eq_some_iff {n count : UInt64} :
    bound n = some count ↔ n = count ∧ count ≠ 0 := by
  rw [bound]
  split
  next zero =>
    subst zero
    exact ⟨nofun, fun ⟨same, nonzero⟩ => absurd same.symm nonzero⟩
  next nonzero =>
    rw [Option.some.injEq]
    exact ⟨fun same => ⟨same, same ▸ nonzero⟩, And.left⟩

def bounded (minItems maxItems : UInt64) (content : ContractType) : ContractType :=
  .list (bound minItems) (bound maxItems) content

def isList : ContractType → Bool
  | .list .. => true
  | _ => false

end ContractType

namespace Member

/-- What a block or a label expands to. -/
def container (description : String) (type : ContractType) : Member :=
  { description, optional := true, computed := false, type }

end Member

end ConfigContract
