import ConfigContract.Contract.Basic
import ConfigContract.Log

/-!
Lowering attributes: the contract type is read off the forms that the expression may take, and the
attributes that a provider computes are noted on the way.
-/

namespace ConfigContract

/-- What lowering yields, with the computed attributes found on the way. -/
structure Lowered (α : Type) where
  value : α
  fields : List ComputedField := []

/-- What lowering an attribute or a part of it yields, with the events to tell. -/
structure Yield (α : Type) extends Lowered α where
  events : List Event := []

def Yield.logged {ε α : Type} (yielded : Yield α) : Logged ε (Lowered α) :=
  ⟨yielded.events, .ok yielded.toLowered⟩

/-- How an attribute counts, by its flags and its name. -/
structure Classification where
  optional : Bool
  computed : Bool
  /-- Whether the attribute is to be noted as computed, and then whether nothing else may set it. -/
  report : Option Bool
deriving DecidableEq, Repr

/--
Every attribute is optional except one named `id`, whose own flag does not count. An attribute is
computed when its provider computes it and nothing requires it.
-/
def classify (path : Path) (isOptional isRequired isComputed : Bool) : Classification :=
  let isId := path.last? == some "id"
  let mayBeSet := isOptional && !isId
  let computed := isComputed && !isRequired
  { optional := !isId
    computed
    report := if computed then some (!mayBeSet) else none }

/-- One form of an attribute: of several forms, the first of the highest rank decides. -/
structure Reading where
  rank : Nat
  lower : Path → Yield ContractType

namespace Reading

def none : Reading := ⟨0, fun _ => { value := .dynamic }⟩

def literal (type : ContractType) : Reading := ⟨1, fun _ => { value := type }⟩

/-- The computed attributes inside an element have no place of their own. -/
def elements (minItems maxItems : UInt64) (element : Path → Yield ContractType) : Reading :=
  ⟨2, fun path =>
    let inner := element path
    let dropped :=
      if inner.fields.isEmpty then [] else [.elementFieldsHidden path inner.fields.length]
    { value := .bounded minItems maxItems inner.value, events := inner.events ++ dropped }⟩

def object (members : Path → Yield Members) : Reading :=
  ⟨3, fun path =>
    let inner := members path
    { value := .object false inner.value, fields := inner.fields, events := inner.events }⟩

def orElse (first rest : Reading) : Reading := if rest.rank ≤ first.rank then first else rest

end Reading

/-- Only strings, numbers and truth values have a contract type of their own. -/
def ValueType.lower : ValueType → ContractType
  | .string => .string
  | .number => .number
  | .bool => .bool
  | _ => .dynamic

/-- A member from its type; lists never count as computed. -/
def memberOf (declared : Attribute) (path : Path) (type : Yield ContractType) : Yield Member :=
  let description := declared.description.getD ""
  if type.value.isList then
    { value := { description, optional := true, computed := false, type := type.value }
      fields := type.fields
      events := type.events }
  else
    let outcome := classify path declared.isOptional declared.isRequired declared.isComputed
    let own := outcome.report.toList.map fun force => { force, path := path.segments }
    { value := { description, optional := outcome.optional, computed := outcome.computed,
                 type := type.value }
      fields := type.fields ++ own
      events := type.events }

mutual

def Attribute.lower : Attribute → Path → Yield Member
  | ⟨description, isOptional, isRequired, isComputed, isSensitive, constraints⟩ => fun path =>
      memberOf ⟨description, isOptional, isRequired, isComputed, isSensitive, constraints⟩ path
        ((deciding constraints).lower path)

def Constraint.reading : Constraint → Reading
  | .object attributes => .object fun path => lowerAttributes attributes path
  | .list element minItems maxItems =>
      .elements minItems maxItems fun path => (deciding element).lower path
  | .set element minItems maxItems =>
      .elements minItems maxItems fun path => (deciding element).lower path
  | .map _ => .none
  | .tuple _ => .none
  | .literalType type => .literal type.lower
  | .literalValue _ => .none
  | .keyword _ => .none
  | .reference => .none

/-- The form that decides among several. -/
def deciding : List Constraint → Reading
  | [] => .none
  | constraint :: rest => constraint.reading.orElse (deciding rest)

def lowerAttributes : List (String × Attribute) → Path → Yield Members
  | [], _ => { value := [] }
  | (key, declared) :: rest, path =>
      let member := declared.lower (path.child key)
      let others := lowerAttributes rest path
      { value := (key, member.value) :: others.value
        fields := member.fields ++ others.fields
        events := member.events ++ others.events }

end

/-- The contract type for the forms that an expression may take. -/
def lowerConstraints (constraints : List Constraint) (path : Path) : Yield ContractType :=
  (deciding constraints).lower path

theorem Attribute.lower_eq (declared : Attribute) (path : Path) :
    declared.lower path = memberOf declared path (lowerConstraints declared.constraints path) := by
  cases declared
  rfl

end ConfigContract
