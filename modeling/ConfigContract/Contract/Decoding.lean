import ConfigContract.Contract.Encoding
import ConfigContract.Json.Reader

/-!
Reading contracts from their JSON form.
-/

namespace ConfigContract

open Reader

structure ContractReaders where
  type : Reader ContractType
  members : Reader Members
  member : Reader Member
  listForm : Reader ContractType
  objectForm : Reader ContractType
deriving Inhabited

namespace ContractReaders

structure ListParts where
  min : Option UInt64 := none
  max : Option UInt64 := none
  content : ContractType := .dynamic

def listFields (inner : ContractReaders) : List (RecordField ListParts) := [
  field "min" (optional (unsigned "u64")) fun parts min => { parts with min },
  field "max" (optional (unsigned "u64")) fun parts max => { parts with max },
  required "content" inner.type fun parts content => { parts with content }]

structure ObjectParts where
  isOpen : Bool := false
  content : Members := []

def objectFields (inner : ContractReaders) : List (RecordField ObjectParts) := [
  required "open" bool fun parts isOpen => { parts with isOpen },
  required "content" inner.members fun parts content => { parts with content }]

def memberFields (inner : ContractReaders) : List (RecordField Member) := [
  required "description" text fun member description => { member with description },
  required "optional" bool fun member optional => { member with optional },
  required "computed" bool fun member computed => { member with computed },
  required "type" inner.type fun member type => { member with type }]

def typeVariants (inner : ContractReaders) : List (Variant ContractType) := [
  .unit "Dynamic" .dynamic,
  .unit "String" .string,
  .unit "Number" .number,
  .unit "Bool" .bool,
  .struct "List" inner.listForm id,
  .struct "Object" inner.objectForm id,
  .newtype "Dictionary" inner.type .dictionary]

def atDepth (depth : Nat) (inner : ContractReaders) : ContractReaders where
  type := variants depth inner.typeVariants
  members := Reader.map depth inner.member
  member := record "struct Attribute" depth inner.memberFields (.container "" .dynamic)
  listForm := (fun parts => .list parts.min parts.max parts.content) <$>
    record "struct variant Type::List" depth inner.listFields {}
  objectForm := (fun parts => .object parts.isOpen parts.content) <$>
    record "struct variant Type::Object" depth inner.objectFields {}

def ofDepth (depth : Nat) : ContractReaders := atDepth depth (below atDepth depth)

end ContractReaders

def computedFieldFields (depth : Nat) : List (RecordField ComputedField) := [
  required "force" bool fun computed force => { computed with force },
  required "path" (Reader.list depth text) fun computed path => { computed with path }]

def ComputedField.reader (depth : Nat) : Reader ComputedField :=
  record "struct FieldDescriptor" depth (computedFieldFields (depth - 1)) ⟨false, []⟩

def contractFields (depth : Nat) (members : Reader Members) : List (RecordField Contract) := [
  required "computed_fields" (Reader.list depth (ComputedField.reader (depth - 1)))
    fun contract computedFields => { contract with computedFields },
  required "schema" members fun contract schema => { contract with schema }]

def Contract.reader (depth : Nat) : Reader Contract :=
  record "struct SchemaIr" depth
    (contractFields (depth - 1) (ContractReaders.ofDepth (depth - 1)).members) ⟨[], []⟩

namespace Contract

def readType : Text → Except Fault ContractType := run (ContractReaders.ofDepth greatestDepth).type

def readMember : Text → Except Fault Member := run (ContractReaders.ofDepth greatestDepth).member

def readComputedField : Text → Except Fault ComputedField :=
  run (ComputedField.reader greatestDepth)

def read : Text → Except Fault Contract := run (Contract.reader greatestDepth)

end Contract

end ConfigContract
