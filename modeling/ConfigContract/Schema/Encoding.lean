import ConfigContract.Schema.Basic

/-!
The JSON form of module schemas. Absent descriptions, bodies and catch-alls are left out, and so are
empty lists of attributes, blocks, labels and dependent bodies.
-/

namespace ConfigContract

namespace Encoding

def optionalString (name : String) (value : Option String) : Option (String × Json) :=
  value.map fun s => (name, .string s)

def nonemptyArray (name : String) (items : List Json) : Option (String × Json) :=
  if items.isEmpty then none else some (name, .array items)

def nonemptyObject (name : String) (members : List (String × Json)) : Option (String × Json) :=
  if members.isEmpty then none else some (name, .object members)

def tagged (name : String) (value : Json) : Json := .object [(name, value)]

end Encoding

open Encoding

mutual

def ValueType.toJson : ValueType → Json
  | .dynamic => .string "dynamic"
  | .string => .string "string"
  | .number => .string "number"
  | .bool => .string "bool"
  | .list element => .array [.string "list", element.toJson]
  | .set element => .array [.string "set", element.toJson]
  | .map element => .array [.string "map", element.toJson]
  | .object fields => .array [.string "object", .object (valueTypeFieldsToJson fields)]
  | .tuple elements => .array [.string "tuple", .array (valueTypesToJson elements)]

def valueTypeFieldsToJson : List (String × ValueType) → List (String × Json)
  | [] => []
  | (key, type) :: rest => (key, type.toJson) :: valueTypeFieldsToJson rest

def valueTypesToJson : List ValueType → List Json
  | [] => []
  | type :: rest => type.toJson :: valueTypesToJson rest

end

mutual

def Attribute.toJson : Attribute → Json
  | ⟨description, isOptional, isRequired, isComputed, isSensitive, constraints⟩ =>
      .record [
        optionalString "description" description,
        some ("is_optional", .bool isOptional),
        some ("is_required", .bool isRequired),
        some ("is_computed", .bool isComputed),
        some ("is_sensitive", .bool isSensitive),
        some ("constraints", .array (constraintsToJson constraints))]

def Constraint.toJson : Constraint → Json
  | .object attributes =>
      tagged "object" (.object [("attributes", .object (attributesToJson attributes))])
  | .list element minItems maxItems =>
      tagged "list" (.object [("elem", .array (constraintsToJson element)),
        ("min_items", .unsigned minItems), ("max_items", .unsigned maxItems)])
  | .set element minItems maxItems =>
      tagged "set" (.object [("elem", .array (constraintsToJson element)),
        ("min_items", .unsigned minItems), ("max_items", .unsigned maxItems)])
  | .map element => tagged "map" (.object [("elem", .array (constraintsToJson element))])
  | .tuple elements => tagged "tuple" (.object [("elems", .array (alternativesToJson elements))])
  | .literalType type => tagged "literal_type" type.toJson
  | .literalValue value => tagged "literal_value" value
  | .keyword word => tagged "keyword" (.string word)
  | .reference => .string "reference"

def attributesToJson : List (String × Attribute) → List (String × Json)
  | [] => []
  | (key, declared) :: rest => (key, declared.toJson) :: attributesToJson rest

def constraintsToJson : List Constraint → List Json
  | [] => []
  | constraint :: rest => constraint.toJson :: constraintsToJson rest

def alternativesToJson : List (List Constraint) → List Json
  | [] => []
  | constraints :: rest => .array (constraintsToJson constraints) :: alternativesToJson rest

end

def BlockType.name : BlockType → String
  | .nil => "nil"
  | .object => "object"
  | .list => "list"
  | .set => "set"
  | .map => "map"

def BlockType.toJson (blockType : BlockType) : Json := .string blockType.name

def Label.toJson (label : Label) : Json :=
  .record [
    some ("name", .string label.name),
    optionalString "description" label.description,
    some ("completable", .bool label.completable)]

def LabelKey.toJson (key : LabelKey) : Json :=
  .object [("index", .unsigned key.index), ("value", .string key.value)]

mutual

def Body.toJson : Body → Json
  | ⟨description, attributes, blocks, anyAttribute⟩ =>
      .record [
        optionalString "description" description,
        nonemptyObject "attributes" (attributesToJson attributes),
        nonemptyObject "blocks" (blocksToJson blocks),
        anyAttribute.map fun declared => ("any_attribute", declared.toJson)]

def Block.toJson : Block → Json
  | ⟨description, labels, blockType, minItems, maxItems, body, dependents⟩ =>
      .record [
        optionalString "description" description,
        nonemptyArray "labels" (labels.map Label.toJson),
        some ("block_type", blockType.toJson),
        some ("min_items", .unsigned minItems),
        some ("max_items", .unsigned maxItems),
        optionalBodyToJson body,
        nonemptyArray "dependent_body" (dependentsToJson dependents)]

def DependentBody.toJson : DependentBody → Json
  | ⟨keys, body⟩ =>
      .object [
        ("keys", .object [("labels", .array (keys.map LabelKey.toJson))]),
        ("body", body.toJson)]

def blocksToJson : List (String × Block) → List (String × Json)
  | [] => []
  | (key, block) :: rest => (key, block.toJson) :: blocksToJson rest

def optionalBodyToJson : Option Body → Option (String × Json)
  | none => none
  | some body => some ("body", body.toJson)

def dependentsToJson : List DependentBody → List Json
  | [] => []
  | dependent :: rest => dependent.toJson :: dependentsToJson rest

end

end ConfigContract
