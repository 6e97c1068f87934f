import ConfigContract.Json.Basic

/-!
The schema of a configuration module: bodies hold attributes and nested blocks; a block carries
labels, a declared cardinality, and bodies that apply for particular label values only.
-/

namespace ConfigContract

inductive ValueType where
  | dynamic
  | string
  | number
  | bool
  | list (element : ValueType)
  | set (element : ValueType)
  | map (element : ValueType)
  | object (fields : List (String × ValueType))
  | tuple (elements : List ValueType)

def ValueType.isPrimitive : ValueType → Bool
  | .string | .number | .bool => true
  | _ => false

mutual

/-- An attribute, with the alternative forms that its expression may take. -/
structure Attribute where
  description : Option String := none
  isOptional : Bool := false
  isRequired : Bool := false
  isComputed : Bool := false
  isSensitive : Bool := false
  constraints : List Constraint := []

/-- One form that an expression may take. -/
inductive Constraint where
  | object (attributes : List (String × Attribute))
  | list (element : List Constraint) (minItems maxItems : UInt64)
  | set (element : List Constraint) (minItems maxItems : UInt64)
  | map (element : List Constraint)
  | tuple (elements : List (List Constraint))
  | literalType (type : ValueType)
  | literalValue (value : Json)
  | keyword (word : String)
  | reference

end

/-- The declared cardinality of a block; `nil` when it is left open. -/
inductive BlockType where
  | nil
  | object
  | list
  | set
  | map
deriving DecidableEq, Repr

/-- A position for a label; a completable one ranges over the values that dependent bodies name. -/
structure Label where
  name : String
  description : Option String := none
  completable : Bool := false
deriving DecidableEq, Repr

structure LabelKey where
  index : UInt64
  value : String
deriving DecidableEq, Repr

mutual

structure Body where
  description : Option String := none
  attributes : List (String × Attribute) := []
  blocks : List (String × Block) := []
  /-- Accepts an attribute of any name. -/
  anyAttribute : Option Attribute := none

structure Block where
  description : Option String := none
  labels : List Label := []
  blockType : BlockType := .nil
  minItems : UInt64 := 0
  maxItems : UInt64 := 0
  body : Option Body := none
  dependents : List DependentBody := []

structure DependentBody where
  keys : List LabelKey
  body : Body

end

/-! Building schemas -/

namespace Attribute

def optional (constraints : List Constraint) : Attribute := { isOptional := true, constraints }

def required (constraints : List Constraint) : Attribute := { isRequired := true, constraints }

def describedAs (declared : Attribute) (description : String) : Attribute :=
  { declared with description := some description }

end Attribute

namespace Constraint

def string : Constraint := .literalType .string

def number : Constraint := .literalType .number

def bool : Constraint := .literalType .bool

def dynamic : Constraint := .literalType .dynamic

def listOf (element : List Constraint) : Constraint := .list element 0 0

def setOf (element : List Constraint) : Constraint := .set element 0 0

end Constraint

namespace Body

def describedAs (body : Body) (description : String) : Body :=
  { body with description := some description }

def addAttribute (body : Body) (key : String) (declared : Attribute) : Body :=
  { body with attributes := OrderedMap.insert key declared body.attributes }

def addBlock (body : Body) (key : String) (block : Block) : Body :=
  { body with blocks := OrderedMap.insert key block body.blocks }

def acceptAny (body : Body) (declared : Attribute) : Body :=
  { body with anyAttribute := some declared }

end Body

namespace Block

def ofType (blockType : BlockType) : Block := { blockType }

def describedAs (block : Block) (description : String) : Block :=
  { block with description := some description }

def addLabel (block : Block) (name : String) (completable : Bool) : Block :=
  { block with labels := block.labels ++ [{ name, completable }] }

def items (block : Block) (minItems maxItems : UInt64) : Block :=
  { block with minItems, maxItems }

def withBody (block : Block) (body : Body) : Block := { block with body := some body }

def addDependent (block : Block) (index : UInt64) (value : String) (body : Body) : Block :=
  { block with dependents := block.dependents ++ [{ keys := [{ index, value }], body }] }

end Block

end ConfigContract
