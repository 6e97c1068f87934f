import ConfigContract.Contract.Basic
import ConfigContract.Schema.Encoding

/-!
The JSON form of contracts.
-/

namespace ConfigContract

open Encoding

def optionalBound (name : String) (bound : Option UInt64) : Option (String × Json) :=
  bound.map fun n => (name, .unsigned n)

mutual

def ContractType.toJson : ContractType → Json
  | .dynamic => .string "Dynamic"
  | .string => .string "String"
  | .number => .string "Number"
  | .bool => .string "Bool"
  | .list min max content =>
      tagged "List" (.record [
        optionalBound "min" min,
        optionalBound "max" max,
        some ("content", content.toJson)])
  | .object isOpen content =>
      tagged "Object" (.object [
        ("open", .bool isOpen),
        ("content", .object (membersToJson content))])
  | .dictionary content => tagged "Dictionary" content.toJson

def Member.toJson : Member → Json
  | ⟨description, optional, computed, type⟩ =>
      .object [
        ("description", .string description),
        ("optional", .bool optional),
        ("computed", .bool computed),
        ("type", type.toJson)]

def membersToJson : List (String × Member) → List (String × Json)
  | [] => []
  | (key, member) :: rest => (key, member.toJson) :: membersToJson rest

end

def ComputedField.toJson (field : ComputedField) : Json :=
  .object [("force", .bool field.force), ("path", .strings field.path)]

def Contract.toJson (contract : Contract) : Json :=
  .object [
    ("computed_fields", .array (contract.computedFields.map ComputedField.toJson)),
    ("schema", .object (membersToJson contract.schema))]

end ConfigContract
