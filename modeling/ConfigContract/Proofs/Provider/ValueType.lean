import ConfigContract.Proofs.Lowering.Records
import ConfigContract.Provider.Document

/-!
The contract type that a value type of a schema document stands for, read off the type in one step:
the forms that it is converted to are lowered to the same.
-/

namespace ConfigContract

namespace Member

/-- A part of an object value. Nothing computes it, and only an `id` that is no list is required. -/
def ofField (key : String) (type : ContractType) : Member :=
  { description := "", optional := key != "id" || type.isList, computed := false, type }

end Member

mutual

/-- Maps and tuples have no contract type of their own. -/
def ValueType.meaning : ValueType → ContractType
  | .string => .string
  | .number => .number
  | .bool => .bool
  | .list element => .list none none element.meaning
  | .set element => .list none none element.meaning
  | .object fields => .object false (fieldMeanings fields)
  | .dynamic => .dynamic
  | .map _ => .dynamic
  | .tuple _ => .dynamic

def fieldMeanings : List (String × ValueType) → Members
  | [] => []
  | (key, type) :: rest => (key, .ofField key type.meaning) :: fieldMeanings rest

end

theorem fieldMeanings_eq (fields : List (String × ValueType)) :
    fieldMeanings fields =
      fields.map fun field => (field.1, Member.ofField field.1 field.2.meaning) := by
  induction fields with
  | nil => rfl
  | cons field rest ih => rw [fieldMeanings, ih, List.map_cons]

/-- An optional attribute whose type notes nothing does not note itself either. -/
theorem memberOf_optional (constraints : List Constraint) (path : Path) (key : String)
    (type : ContractType) :
    memberOf (.optional constraints) (path.child key) { value := type } =
      { value := .ofField key type } := by
  cases list : type.isList with
  | true => simp [memberOf, list, Member.ofField, Attribute.optional]
  | false =>
      have named : (some key == some "id") = (key == "id") := rfl
      simp [memberOf, list, Member.ofField, Attribute.optional, classify, named, bne]

/-- An element that notes nothing has nothing to hide. -/
theorem lower_elements {element : Path → Yield ContractType} {path : Path}
    {type : ContractType} (silent : element path = { value := type }) :
    (Reading.elements 0 0 element).lower path = { value := .list none none type } := by
  simp only [Reading.elements, silent]
  rfl

mutual

theorem ValueType.reading_toConstraint : ∀ (type : ValueType) (path : Path),
    type.toConstraint.reading.lower path = { value := type.meaning }
  | .string, _ => rfl
  | .number, _ => rfl
  | .bool, _ => rfl
  | .dynamic, _ => rfl
  | .map _, _ => rfl
  | .tuple _, _ => rfl
  | .list element, path => by
      refine lower_elements ?_
      rw [deciding_single, element.reading_toConstraint path]
  | .set element, path => by
      refine lower_elements ?_
      rw [deciding_single, element.reading_toConstraint path]
  | .object fields, path => by
      simp only [ValueType.toConstraint, Constraint.reading, Reading.object,
        lowerAttributes_fieldAttributes fields path]
      rfl

theorem lowerAttributes_fieldAttributes : ∀ (fields : List (String × ValueType)) (path : Path),
    lowerAttributes (fieldAttributes fields) path = { value := fieldMeanings fields }
  | [], _ => rfl
  | (key, type) :: rest, path => by
      have member : (Attribute.optional [type.toConstraint]).lower (path.child key) =
          { value := .ofField key type.meaning } := by
        rw [Attribute.lower_eq, lowerConstraints, Attribute.optional, deciding_single,
          type.reading_toConstraint (path.child key)]
        exact memberOf_optional [type.toConstraint] path key type.meaning
      simp only [fieldAttributes, lowerAttributes, member,
        lowerAttributes_fieldAttributes rest path]
      rfl

end

/-- Value types lower by structure, the same at every path and with nothing noted. Objects are
closed and keep their keys in order. -/
theorem ValueType.lowers_by_structure (type : ValueType) (path : Path) :
    lowerConstraints type.constraints path = { value := type.meaning } ∧
    ∀ fields, (ValueType.object fields).meaning = .object false
      (fields.map fun field => (field.1, Member.ofField field.1 field.2.meaning)) := by
  refine ⟨?_, fun fields => ?_⟩
  · rw [lowerConstraints, constraints, deciding_single]
    exact type.reading_toConstraint path
  · rw [meaning, fieldMeanings_eq]

example : (ValueType.set (.object [("id", .number), ("tags", .map .string)])).meaning =
    .list none none (.object false [("id", ⟨"", false, false, .number⟩),
      ("tags", ⟨"", true, false, .dynamic⟩)]) := rfl

end ConfigContract
