import ConfigContract.Json.Reader
import ConfigContract.Schema.Encoding

/-!
Reading module schemas from their JSON form. The readers of one depth are built from the readers of
the depth below.
-/

namespace ConfigContract

open Reader

/-! Value types -/

structure ValueTypeReaders where
  type : Reader ValueType
  fields : Reader (OrderedMap String ValueType)
  types : Reader (List ValueType)
deriving Inhabited

namespace ValueTypeReaders

def expected : String := "a type name or a [kind, element] pair"

def primitives : List (String × ValueType) :=
  [("dynamic", .dynamic), ("string", .string), ("number", .number), ("bool", .bool)]

def element (inner : ValueTypeReaders) (kind : String) : Option (Reader ValueType) :=
  match kind with
  | "list" => some (.list <$> inner.type)
  | "set" => some (.set <$> inner.type)
  | "map" => some (.map <$> inner.type)
  | "object" => some (.object <$> inner.fields)
  | "tuple" => some (.tuple <$> inner.types)
  | _ => none

def kinds : List String := ["list", "set", "map", "object", "tuple"]

/-- A pair after its opening bracket; further items are passed over. -/
def pair (depth : Nat) (inner : ValueTypeReaders) : Reader ValueType := fun text =>
  (do
    enter depth
    if ← nextItem true then
      let kind ← within (.index 0) Reader.text
      match inner.element kind with
      | none => fail (.unknownVariant kind kinds)
      | some reader =>
          if ← nextItem false then
            let type ← within (.index 1) reader
            discard (items skip (stepsFor text) 2)
            closeArray
            return type
          else fail (.invalidLength 1 expected)
    else fail (.invalidLength 0 expected) : Reader ValueType) text

def named (name : String) : Reader ValueType :=
  match OrderedMap.get? name primitives with
  | some type => pure type
  | none => fail (.unknownVariant name (OrderedMap.keys primitives))

def atDepth (depth : Nat) (inner : ValueTypeReaders) : ValueTypeReaders where
  type := do
    start
    fun text =>
      match text with
      | .char '"' :: rest => (ofToken Token.string >>= named) rest
      | .char '[' :: rest => pair depth inner rest
      | .char '{' :: rest =>
          (enter depth >>= fun _ => fail (.invalidType .map expected)) rest
      | text => unexpected expected text
  fields := Reader.map depth inner.type
  types := Reader.list depth inner.type

def ofDepth (depth : Nat) : ValueTypeReaders := atDepth depth (below atDepth depth)

end ValueTypeReaders

/-! Attributes and constraints -/

structure AttributeReaders where
  declared : Reader Attribute
  attributes : Reader (OrderedMap String Attribute)
  constraint : Reader Constraint
  constraints : Reader (List Constraint)
  alternatives : Reader (List (List Constraint))
  objectForm : Reader Constraint
  listForm : Reader Constraint
  setForm : Reader Constraint
  mapForm : Reader Constraint
  tupleForm : Reader Constraint
  valueTypes : ValueTypeReaders
  value : Reader Json
deriving Inhabited

namespace AttributeReaders

structure Elements where
  element : List Constraint := []
  minItems : UInt64 := 0
  maxItems : UInt64 := 0

def elementFields (inner : AttributeReaders) : List (RecordField Elements) := [
  required "elem" inner.constraints fun elements element => { elements with element },
  field "min_items" (unsigned "u64") fun elements minItems => { elements with minItems },
  field "max_items" (unsigned "u64") fun elements maxItems => { elements with maxItems }]

def attributeFields (inner : AttributeReaders) : List (RecordField Attribute) := [
  field "description" (optional text) fun declared description => { declared with description },
  field "is_optional" bool fun declared isOptional => { declared with isOptional },
  field "is_required" bool fun declared isRequired => { declared with isRequired },
  field "is_computed" bool fun declared isComputed => { declared with isComputed },
  field "is_sensitive" bool fun declared isSensitive => { declared with isSensitive },
  field "constraints" inner.constraints fun declared constraints => { declared with constraints }]

def constraintVariants (inner : AttributeReaders) : List (Variant Constraint) := [
  .struct "object" inner.objectForm id,
  .struct "list" inner.listForm id,
  .struct "set" inner.setForm id,
  .struct "map" inner.mapForm id,
  .struct "tuple" inner.tupleForm id,
  .newtype "literal_type" inner.valueTypes.type .literalType,
  .newtype "literal_value" inner.value .literalValue,
  .newtype "keyword" text .keyword,
  .unit "reference" .reference]

def atDepth (depth : Nat) (inner : AttributeReaders) : AttributeReaders where
  declared := record "struct AttributeSchema" depth inner.attributeFields {}
  attributes := Reader.map depth inner.declared
  constraint := variants depth inner.constraintVariants
  constraints := Reader.list depth inner.constraint
  alternatives := Reader.list depth inner.constraints
  objectForm := .object <$> record "struct variant ExprConstraint::Object" depth
    [required "attributes" inner.attributes fun _ attributes => attributes] []
  listForm := (fun e => .list e.element e.minItems e.maxItems) <$>
    record "struct variant ExprConstraint::List" depth inner.elementFields {}
  setForm := (fun e => .set e.element e.minItems e.maxItems) <$>
    record "struct variant ExprConstraint::Set" depth inner.elementFields {}
  mapForm := .map <$> record "struct variant ExprConstraint::Map" depth
    [required "elem" inner.constraints fun _ element => element] []
  tupleForm := .tuple <$> record "struct variant ExprConstraint::Tuple" depth
    [required "elems" inner.alternatives fun _ elements => elements] []
  valueTypes := .atDepth depth inner.valueTypes
  value := anyValue depth inner.value

def ofDepth (depth : Nat) : AttributeReaders := atDepth depth (below atDepth depth)

end AttributeReaders

/-! Labels -/

def blockTypeVariants : List (Variant BlockType) :=
  [BlockType.nil, .object, .list, .set, .map].map fun blockType => .unit blockType.name blockType

def BlockType.reader (depth : Nat) : Reader BlockType := variants depth blockTypeVariants

def labelFields : List (RecordField Label) := [
  required "name" text fun label name => { label with name },
  field "description" (optional text) fun label description => { label with description },
  field "completable" bool fun label completable => { label with completable }]

def Label.reader (depth : Nat) : Reader Label :=
  record "struct LabelSchema" depth labelFields { name := "" }

def labelKeyFields : List (RecordField LabelKey) := [
  required "index" (unsigned "usize") fun key index => { key with index },
  required "value" text fun key value => { key with value }]

def LabelKey.reader (depth : Nat) : Reader LabelKey :=
  record "struct LabelDependent" depth labelKeyFields { index := 0, value := "" }

/-- The label keys of a dependent body: a record around a list of records. -/
def keysReader (depth : Nat) : Reader (List LabelKey) :=
  record "struct DependencyKeys" depth
    [field "labels" (Reader.list (depth - 1) (LabelKey.reader (depth - 2))) fun _ keys => keys] []

/-! Bodies and blocks -/

structure BodyReaders where
  body : Reader Body
  blocks : Reader (OrderedMap String Block)
  block : Reader Block
  dependents : Reader (List DependentBody)
  dependent : Reader DependentBody
  attributes : AttributeReaders
  blockType : Reader BlockType
  labels : Reader (List Label)
  label : Reader Label
  keys : Reader (List LabelKey)
deriving Inhabited

namespace BodyReaders

def bodyFields (inner : BodyReaders) : List (RecordField Body) := [
  field "description" (optional text) fun body description => { body with description },
  field "attributes" inner.attributes.attributes fun body attributes => { body with attributes },
  field "blocks" inner.blocks fun body blocks => { body with blocks },
  field "any_attribute" (optional inner.attributes.declared) fun body anyAttribute =>
    { body with anyAttribute }]

def blockFields (inner : BodyReaders) : List (RecordField Block) := [
  field "description" (optional text) fun block description => { block with description },
  field "labels" inner.labels fun block labels => { block with labels },
  field "block_type" inner.blockType fun block blockType => { block with blockType },
  field "min_items" (unsigned "u64") fun block minItems => { block with minItems },
  field "max_items" (unsigned "u64") fun block maxItems => { block with maxItems },
  field "body" (optional inner.body) fun block body => { block with body },
  field "dependent_body" inner.dependents fun block dependents => { block with dependents }]

def dependentFields (inner : BodyReaders) : List (RecordField DependentBody) := [
  required "keys" inner.keys fun dependent keys => { dependent with keys },
  required "body" inner.body fun dependent body => { dependent with body }]

def atDepth (depth : Nat) (inner : BodyReaders) : BodyReaders where
  body := record "struct BodySchema" depth inner.bodyFields {}
  blocks := Reader.map depth inner.block
  block := record "struct BlockSchema" depth inner.blockFields {}
  dependents := Reader.list depth inner.dependent
  dependent := record "struct DependentBody" depth inner.dependentFields { keys := [], body := {} }
  attributes := .atDepth depth inner.attributes
  blockType := BlockType.reader depth
  labels := Reader.list depth inner.label
  label := Label.reader depth
  keys := keysReader depth

def ofDepth (depth : Nat) : BodyReaders := atDepth depth (below atDepth depth)

end BodyReaders

namespace Schema

def attributeReaders : AttributeReaders := .ofDepth greatestDepth

def bodyReaders : BodyReaders := .ofDepth greatestDepth

def readValueType : Text → Except Fault ValueType :=
  run (ValueTypeReaders.ofDepth greatestDepth).type

def readAttribute : Text → Except Fault Attribute := run attributeReaders.declared

def readConstraint : Text → Except Fault Constraint := run attributeReaders.constraint

def readConstraints : Text → Except Fault (List Constraint) := run attributeReaders.constraints

def readBody : Text → Except Fault Body := run bodyReaders.body

def readBlock : Text → Except Fault Block := run bodyReaders.block

def readDependentBody : Text → Except Fault DependentBody := run bodyReaders.dependent

def readLabel : Text → Except Fault Label := run (Label.reader greatestDepth)

def readBlockType : Text → Except Fault BlockType := run (BlockType.reader greatestDepth)

end Schema

end ConfigContract
