import ConfigContract.Provider.Document
import ConfigContract.Schema.Decoding

/-!
Reading schema documents of providers and lists of configured providers from their JSON form.
-/

namespace ConfigContract

open Reader

namespace Nesting

def name : Nesting → String
  | .single => "single"
  | .group => "group"
  | .list => "list"
  | .set => "set"
  | .map => "map"

def all : List Nesting := [.single, .group, .list, .set, .map]

def reader (depth : Nat) : Reader Nesting :=
  variants depth (all.map fun nesting => .unit nesting.name nesting)

end Nesting

structure DeclarationReaders where
  declared : Reader AttributeDeclaration
  attributes : Reader (OrderedMap String AttributeDeclaration)
  nestedType : Reader NestedType
  block : Reader BlockDeclaration
  blockTypes : Reader (OrderedMap String NestedBlock)
  nestedBlock : Reader NestedBlock
  schema : Reader SchemaDeclaration
  schemas : Reader (OrderedMap String SchemaDeclaration)
  provider : Reader ProviderDeclaration
  providers : Reader (OrderedMap String ProviderDeclaration)
  document : Reader Document
  valueTypes : ValueTypeReaders
  nesting : Reader Nesting
deriving Inhabited

namespace DeclarationReaders

def attributeFields (inner : DeclarationReaders) : List (RecordField AttributeDeclaration) := [
  field "type" (optional inner.valueTypes.type) fun declared type => { declared with type },
  field "nested_type" (optional inner.nestedType) fun declared nestedType =>
    { declared with nestedType },
  field "description" (optional text) fun declared description => { declared with description },
  field "required" bool fun declared required => { declared with required },
  field "optional" bool fun declared optional => { declared with optional },
  field "computed" bool fun declared computed => { declared with computed },
  field "sensitive" bool fun declared sensitive => { declared with sensitive },
  field "deprecated" bool fun declared deprecated => { declared with deprecated }]

def nestedTypeFields (inner : DeclarationReaders) : List (RecordField NestedType) := [
  field "attributes" inner.attributes fun nested attributes => { nested with attributes },
  required "nesting_mode" inner.nesting fun nested nesting => { nested with nesting },
  field "min_items" (unsigned "u64") fun nested minItems => { nested with minItems },
  field "max_items" (unsigned "u64") fun nested maxItems => { nested with maxItems }]

def blockFields (inner : DeclarationReaders) : List (RecordField BlockDeclaration) := [
  field "attributes" inner.attributes fun block attributes => { block with attributes },
  field "block_types" inner.blockTypes fun block blockTypes => { block with blockTypes },
  field "description" (optional text) fun block description => { block with description },
  field "deprecated" bool fun block deprecated => { block with deprecated }]

def nestedBlockFields (inner : DeclarationReaders) : List (RecordField NestedBlock) := [
  required "nesting_mode" inner.nesting fun nested nesting => { nested with nesting },
  field "block" inner.block fun nested block => { nested with block },
  field "min_items" (unsigned "u64") fun nested minItems => { nested with minItems },
  field "max_items" (unsigned "u64") fun nested maxItems => { nested with maxItems }]

def schemaFields (inner : DeclarationReaders) : List (RecordField SchemaDeclaration) := [
  field "version" (unsigned "u64") fun schema version => { schema with version },
  required "block" inner.block fun schema block => { schema with block }]

def providerFields (inner : DeclarationReaders) : List (RecordField ProviderDeclaration) := [
  field "provider" (optional inner.schema) fun declared provider => { declared with provider },
  field "resource_schemas" inner.schemas fun declared resources => { declared with resources },
  field "data_source_schemas" inner.schemas fun declared dataSources =>
    { declared with dataSources }]

def documentFields (inner : DeclarationReaders) : List (RecordField Document) := [
  field "format_version" text fun document formatVersion => { document with formatVersion },
  field "provider_schemas" inner.providers fun document providers => { document with providers }]

def atDepth (depth : Nat) (inner : DeclarationReaders) : DeclarationReaders where
  declared := record "struct AttributeJson" depth inner.attributeFields {}
  attributes := Reader.map depth inner.declared
  nestedType := record "struct NestedTypeJson" depth inner.nestedTypeFields { nesting := .single }
  block := record "struct BlockJson" depth inner.blockFields {}
  blockTypes := Reader.map depth inner.nestedBlock
  nestedBlock := record "struct BlockTypeJson" depth inner.nestedBlockFields
    { nesting := .single, block := {} }
  schema := record "struct SchemaJson" depth inner.schemaFields { block := {} }
  schemas := Reader.map depth inner.schema
  provider := record "struct ProviderSchemaJson" depth inner.providerFields {}
  providers := Reader.map depth inner.provider
  document := record "struct ProviderSchemasJson" depth inner.documentFields {}
  valueTypes := .atDepth depth inner.valueTypes
  nesting := Nesting.reader depth

def ofDepth (depth : Nat) : DeclarationReaders := atDepth depth (below atDepth depth)

end DeclarationReaders

/-- A configured provider: where it comes from, and in which version. -/
structure ProviderSpec where
  source : String
  version : String
deriving DecidableEq, Repr

namespace ProviderSpec

def fields : List (RecordField ProviderSpec) := [
  required "source" text fun spec source => { spec with source },
  required "version" text fun spec version => { spec with version }]

def reader (depth : Nat) : Reader ProviderSpec := record "struct ProviderSpec" depth fields ⟨"", ""⟩

def toJson (spec : ProviderSpec) : Json :=
  .object [("source", .string spec.source), ("version", .string spec.version)]

def read : Text → Except Fault ProviderSpec := run (reader greatestDepth)

def readAll : Text → Except Fault (OrderedMap String ProviderSpec) :=
  run (Reader.map greatestDepth (reader (greatestDepth - 1)))

end ProviderSpec

namespace Document

def readers : DeclarationReaders := .ofDepth greatestDepth

def readAttribute : Text → Except Fault AttributeDeclaration := run readers.declared

def readBlock : Text → Except Fault BlockDeclaration := run readers.block

def readNestedBlock : Text → Except Fault NestedBlock := run readers.nestedBlock

def read : Text → Except Fault Document := run readers.document

end Document

end ConfigContract
