import ConfigContract.Schema.Basic

/-!
Schema documents of providers, and what they mean as module schemas.
-/

namespace ConfigContract

/-- How often a nested part may occur, and how it is written. -/
inductive Nesting where
  | single
  | group
  | list
  | set
  | map
deriving DecidableEq, Repr

mutual

/-- An attribute of a provider; its form is given by a nested type or else by a value type. -/
structure AttributeDeclaration where
  type : Option ValueType := none
  nestedType : Option NestedType := none
  description : Option String := none
  required : Bool := false
  optional : Bool := false
  computed : Bool := false
  sensitive : Bool := false
  deprecated : Bool := false

structure NestedType where
  attributes : List (String × AttributeDeclaration) := []
  nesting : Nesting
  minItems : UInt64 := 0
  maxItems : UInt64 := 0

end

mutual

structure BlockDeclaration where
  attributes : List (String × AttributeDeclaration) := []
  blockTypes : List (String × NestedBlock) := []
  description : Option String := none
  deprecated : Bool := false

structure NestedBlock where
  nesting : Nesting
  block : BlockDeclaration
  minItems : UInt64 := 0
  maxItems : UInt64 := 0

end

/-- A versioned block at the top of a provider's schema. -/
structure SchemaDeclaration where
  version : UInt64 := 0
  block : BlockDeclaration

structure ProviderDeclaration where
  provider : Option SchemaDeclaration := none
  resources : OrderedMap String SchemaDeclaration := []
  dataSources : OrderedMap String SchemaDeclaration := []

/-- A schema document; its providers are keyed by complete address. -/
structure Document where
  formatVersion : String := ""
  providers : OrderedMap String ProviderDeclaration := []

structure ProviderSchema where
  provider : Body := {}
  resources : OrderedMap String Body := []
  dataSources : OrderedMap String Body := []

/-- An empty description is none. -/
def shownDescription (description : Option String) : Option String :=
  description.filter fun s => !s.isEmpty

mutual

/-- The form of the expressions for values of a type. -/
def ValueType.toConstraint : ValueType → Constraint
  | .list element => .list [element.toConstraint] 0 0
  | .set element => .set [element.toConstraint] 0 0
  | .map element => .map [element.toConstraint]
  | .object fields => .object (fieldAttributes fields)
  | .tuple elements => .tuple (elementConstraints elements)
  | .dynamic => .literalType .dynamic
  | .string => .literalType .string
  | .number => .literalType .number
  | .bool => .literalType .bool

def fieldAttributes : List (String × ValueType) → List (String × Attribute)
  | [] => []
  | (key, type) :: rest => (key, .optional [type.toConstraint]) :: fieldAttributes rest

def elementConstraints : List ValueType → List (List Constraint)
  | [] => []
  | type :: rest => [type.toConstraint] :: elementConstraints rest

end

def ValueType.constraints (type : ValueType) : List Constraint := [type.toConstraint]

namespace Nesting

/-- The form of an attribute whose parts are objects. -/
def toConstraint (nesting : Nesting) (object : Constraint) (minItems maxItems : UInt64) :
    Constraint :=
  match nesting with
  | .single | .group => object
  | .list => .list [object] minItems maxItems
  | .set => .set [object] minItems maxItems
  | .map => .map [object]

/-- A block with the cardinality of a nested block. The keys of a map are written as labels. -/
def toBlock : Nesting → Block
  | .single | .group => .ofType .object
  | .list => .ofType .list
  | .set => .ofType .set
  | .map => (Block.ofType .nil).addLabel "key" false

end Nesting

mutual

def AttributeDeclaration.toAttribute : AttributeDeclaration → Attribute
  | ⟨type, nestedType, description, required, optional, computed, sensitive, _⟩ =>
      { description := shownDescription description
        isOptional := optional
        isRequired := required
        isComputed := computed
        isSensitive := sensitive
        constraints := formConstraints nestedType ((type.map ValueType.constraints).getD []) }

/-- A nested type comes before a value type. -/
def formConstraints : Option NestedType → List Constraint → List Constraint
  | none, constraints => constraints
  | some ⟨attributes, nesting, minItems, maxItems⟩, _ =>
      [nesting.toConstraint (.object (declaredAttributes attributes)) minItems maxItems]

def declaredAttributes : List (String × AttributeDeclaration) → List (String × Attribute)
  | [] => []
  | (key, declaration) :: rest => (key, declaration.toAttribute) :: declaredAttributes rest

end

mutual

/-- The description goes with the body, where label values select it. -/
def BlockDeclaration.toBody : BlockDeclaration → Body
  | ⟨attributes, blockTypes, description, _⟩ =>
      { description := shownDescription description
        attributes := declaredAttributes attributes
        blocks := declaredBlocks blockTypes }

def NestedBlock.toBlock : NestedBlock → Block
  | ⟨nesting, block, minItems, maxItems⟩ =>
      { (nesting.toBlock.items minItems maxItems).withBody block.toBody with
        description := shownDescription block.description }

def declaredBlocks : List (String × NestedBlock) → List (String × Block)
  | [] => []
  | (key, nested) :: rest => (key, nested.toBlock) :: declaredBlocks rest

end

namespace ProviderDeclaration

def bodies (schemas : OrderedMap String SchemaDeclaration) : OrderedMap String Body :=
  OrderedMap.mapValues (fun schema => schema.block.toBody) schemas

def toSchema (declaration : ProviderDeclaration) : ProviderSchema :=
  { provider := (declaration.provider.map fun schema => schema.block.toBody).getD {}
    resources := bodies declaration.resources
    dataSources := bodies declaration.dataSources }

end ProviderDeclaration

end ConfigContract
