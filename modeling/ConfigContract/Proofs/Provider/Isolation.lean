import ConfigContract.Proofs.Provider.Reattached

/-!
Two directories whose documents differ only in what they declare for one type: their contracts
differ only inside that type's member, and in the computed attributes noted below it.
-/

namespace ConfigContract

open OrderedMap (Pointwise OnlyAt)

variable {α : Type} {kind : TypeKind} {type : String}

/-! Two directories -/

def PairedDocuments (kind : TypeKind) (type : String) (first second : Disk)
    (path otherPath : String) : Prop :=
  ∃ document other, Store.readFile first Document.read path = .ok document ∧
    Store.readFile second Document.read otherPath = .ok other ∧
    document.AlikeBut kind type other

/-- Two directories with one list of providers, whose documents can all be read and differ at most
in what they declare for a type. -/
structure PairedDirectories (kind : TypeKind) (type : String) (first second : Disk)
    (root otherRoot : String) : Prop where
  listed : ∃ text, first.read (Store.providersFile root) = .ok text ∧
    second.read (Store.providersFile otherRoot) = .ok text
  documents : ∀ text specs, first.read (Store.providersFile root) = .ok text →
    ProviderSpec.readAll text = .ok specs → ∀ localName ∈ OrderedMap.keys specs,
      PairedDocuments kind type first second (Store.schemaFile root localName)
        (Store.schemaFile otherRoot localName)

namespace Store

variable {first second : Disk} {store : Store} {root : String}

theorem isFile_of_readFile {disk : Disk} {read : Text → Except Fault α} {path : String} {value : α}
    (succeeded : readFile disk read path = .ok value) : disk.isFile path = true := by
  obtain ⟨text, found, -⟩ := readFile_ok succeeded
  rw [Disk.isFile, found]

def movedTo (root : String) (store : Store) : Store where
  root := root
  references := store.references
  providers := OrderedMap.mapValues (fun provider =>
    { provider with schemaFile := schemaFile root provider.localName }) store.providers

def Paired (kind : TypeKind) (type : String) (first second : Disk) (root : String)
    (store : Store) : Prop :=
  ∀ entry ∈ store.providers, PairedDocuments kind type first second entry.2.schemaFile
    (schemaFile root entry.2.localName)

theorem configure_agree (paired : store.Paired kind type first second root) {localName : String}
    (documents : PairedDocuments kind type first second (schemaFile store.root localName)
      (schemaFile root localName)) (spec : ProviderSpec) :
    Agree (fun next other => other = next.movedTo root ∧ next.root = store.root ∧
        next.Paired kind type first second root)
      (configure first store localName spec).result
      (configure second (store.movedTo root) localName spec).result := by
  obtain ⟨document, other, read, readOther, -⟩ := id documents
  have present := isFile_of_readFile read
  have presentToo := isFile_of_readFile readOther
  have sameRoot : (store.movedTo root).root = root := rfl
  simp only [configure, Logged.result_bind, Logged.result_ofExcept, sameRoot, present, presentToo]
  cases Address.ofSource spec.source with
  | error fault => exact .error fault fault
  | ok address =>
      cases Version.ofText spec.version with
      | error fault => exact .error fault fault
      | ok version =>
          refine .ok ⟨?_, rfl, fun entry member => ?_⟩
          · simp [movedTo, OrderedMap.mapValues_insert]
          · rcases OrderedMap.mem_insert member with rfl | known
            · exact documents
            · exact paired entry known

theorem configureAll_agree {specs : OrderedMap String ProviderSpec}
    (paired : store.Paired kind type first second root)
    (documents : ∀ localName ∈ OrderedMap.keys specs, PairedDocuments kind type first second
      (schemaFile store.root localName) (schemaFile root localName)) :
    Agree (fun opened other => other = opened.movedTo root ∧
        opened.Paired kind type first second root)
      (configureAll first specs store).result
      (configureAll second specs (store.movedTo root)).result := by
  induction specs generalizing store with
  | nil => exact .ok ⟨rfl, paired⟩
  | cons entry rest ih =>
      obtain ⟨localName, spec⟩ := entry
      obtain ⟨here, later⟩ := List.forall_mem_cons.mp documents
      simp only [configureAll, Logged.result_bind]
      refine (configure_agree paired here spec).bind ?_
      rintro next _ ⟨rfl, sameRoot, nextPaired⟩
      refine ih nextPaired ?_
      rw [sameRoot]
      exact later

theorem openAt_agree {otherRoot : String}
    (paired : PairedDirectories kind type first second root otherRoot) :
    Agree (fun store other => other = store.movedTo otherRoot ∧
        store.Paired kind type first second otherRoot)
      (openAt first root).result (openAt second otherRoot).result := by
  obtain ⟨⟨text, found, foundToo⟩, documents⟩ := paired
  have listed := documents text
  simp only [openAt, readFile, found, foundToo, Logged.result_bind, Logged.result_ofExcept]
  cases decoded : ProviderSpec.readAll text with
  | error fault => exact .error _ _
  | ok specs =>
      have nothing : Store.Paired kind type first second otherRoot { root } := List.forall_mem_nil _
      have opened := configureAll_agree nothing (listed specs found decoded)
      simp only [mapError_ok, ok_bind, Logged.result_tell, Logged.result_pure]
      exact opened.bind fun store other both => .ok both

theorem requirements_movedTo (root : String) (store : Store) :
    (store.movedTo root).requirements = store.requirements := by
  simp [requirements, movedTo, OrderedMap.mapValues, Function.comp_def]

theorem schemaAt_agree (paired : store.Paired kind type first second root) (address : Address) :
    Agree (ProviderSchema.AlikeBut kind type) (store.schemaAt first address)
      ((store.movedTo root).schemaAt second address) := by
  unfold schemaAt
  rw [requirements_movedTo]
  cases OrderedMap.get? address store.requirements with
  | none => exact .error _ _
  | some constraint =>
      simp only [providerSchema, movedTo, OrderedMap.get?_mapValues]
      cases known : OrderedMap.get? address store.providers with
      | none => exact .error _ _
      | some provider =>
          simp only [Option.map_some]
          split
          next => exact .error _ _
          next =>
            obtain ⟨document, other, read, readOther, alike⟩ :=
              paired _ (OrderedMap.mem_of_get? known)
            simp only [Logged.result_bind, Logged.result_ofExcept, read, readOther, ok_bind]
            rcases Pointwise.get? alike address.render with
              ⟨absent, absentToo⟩ | ⟨declaration, another, declared, declaredToo, both⟩
            · rw [absent, absentToo]
              exact .error _ _
            · rw [declared, declaredToo]
              exact .ok both.toSchema

theorem attachment_alike {schemas others : Address → ProviderSchema}
    (alike : ∀ address ∈ OrderedMap.values store.references,
      (schemas address).AlikeBut kind type (others address)) :
    (store.attachment schemas).AlikeBut kind type ((store.movedTo root).attachment others) := by
  have types (schemas : Address → ProviderSchema) : (store.attachment schemas).types =
      fun listed => store.addresses.flatMap fun address => (schemas address).types listed := by
    funext listed
    cases listed <;> rfl
  have moved : (store.movedTo root).attachment others = store.attachment others := rfl
  rw [moved]
  refine ⟨?_, ?_⟩
  · simp only [attachment, OrderedMap.mapValues]
    refine List.map_congr_left fun entry member => ?_
    have configured : entry.2 ∈ OrderedMap.values store.references := List.mem_map_of_mem member
    rw [(alike entry.2 configured).1]
  · rw [types, types]
    refine .flatMap fun address member => (alike address ?_).2
    exact List.mem_eraseDups.mp member

theorem merge_agree (paired : store.Paired kind type first second root) :
    Agree (fun module other => ∃ attachment another, module = coreModuleWith attachment ∧
        other = coreModuleWith another ∧ attachment.AlikeBut kind type another)
      (store.merge first coreModule).result
      ((store.movedTo root).merge second coreModule).result := by
  have agree := schemaAt_agree paired
  refine .of_iff ?_ fun module other merged mergedToo => ?_
  · rw [exists_merge_iff, exists_merge_iff]
    exact forall₂_congr fun address _ => (agree address).exists_ok_iff
  · obtain ⟨schemas, found, rfl⟩ := merge_ok merged
    obtain ⟨others, foundToo, rfl⟩ := merge_ok mergedToo
    exact ⟨_, _, rfl, rfl, attachment_alike fun address configured =>
      (agree address).of_ok (found address configured) (foundToo address configured)⟩

theorem loadModule_agree {otherRoot : String}
    (paired : PairedDirectories kind type first second root otherRoot) :
    Agree (fun module other => ∃ attachment another, module = coreModuleWith attachment ∧
        other = coreModuleWith another ∧ attachment.AlikeBut kind type another)
      (loadModule first root).result (loadModule second otherRoot).result := by
  simp only [loadModule, Logged.result_bind]
  refine (openAt_agree paired).bind ?_
  rintro store _ ⟨rfl, storePaired⟩
  exact merge_agree storePaired

end Store

namespace Contract

theorem exists_ofDirectory_iff {disk : Disk} {root : String} :
    (∃ contract, (ofDirectory disk root).result = .ok contract) ↔
      ∃ module, (Store.loadModule disk root).result = .ok module := by
  constructor
  · rintro ⟨contract, succeeded⟩
    obtain ⟨module, loaded, -⟩ := ofDirectory_ok_iff.mp succeeded
    exact ⟨module, loaded⟩
  · rintro ⟨module, loaded⟩
    obtain ⟨store, -, merged⟩ := Store.loadModule_ok loaded
    obtain ⟨contract, lowered⟩ := exists_ofBody (Store.regular_of_merge merged)
    exact ⟨contract, ofDirectory_ok_iff.mpr ⟨module, loaded, lowered⟩⟩

/-- What documents declare for one type is seen in the member of the type and in the notes below it,
and nowhere else. -/
theorem types_isolated (kind : TypeKind) (type : String) (first second : Disk)
    (root otherRoot : String)
    (paired : PairedDirectories kind type first second root otherRoot) :
    ((∃ contract, (ofDirectory first root).result = .ok contract) ↔
      ∃ contract, (ofDirectory second otherRoot).result = .ok contract) ∧
    ∀ contract other, (ofDirectory first root).result = .ok contract →
      (ofDirectory second otherRoot).result = .ok other →
      contract.schemaApartFrom kind.block type = other.schemaApartFrom kind.block type ∧
        contract.fieldsApartFrom kind.block type = other.fieldsApartFrom kind.block type := by
  have agree := Store.loadModule_agree paired
  constructor
  · rw [exists_ofDirectory_iff, exists_ofDirectory_iff]
    exact agree.exists_ok_iff
  · intro contract other succeeded succeededToo
    obtain ⟨module, loaded, lowered⟩ := ofDirectory_ok_iff.mp succeeded
    obtain ⟨another, loadedToo, loweredToo⟩ := ofDirectory_ok_iff.mp succeededToo
    have wellFormed : module.WellFormed fun _ => True := Store.wellFormed_of_loadModule loaded
    have wellFormedToo : another.WellFormed fun _ => True :=
      Store.wellFormed_of_loadModule loadedToo
    obtain ⟨attachment, anotherAttachment, rfl, rfl, alike⟩ := agree.of_ok loaded loadedToo
    exact apart_of_attachments alike wellFormed wellFormedToo lowered loweredToo

def volumeDirectory (computed : String) : Disk where
  workingDirectory := []
  entries := [
    (["p"], .directory),
    (["p", "providers.json"], fileOf (.object [
      ("aws", Store.sharedDirectory.spec "hashicorp/aws"),
      ("mirror", Store.sharedDirectory.spec "example/mirror")])),
    (["p", "schemas"], .directory),
    (["p", "schemas", "aws.json"],
      fileOf (declaring "registry.terraform.io/hashicorp/aws" "volume" computed)),
    (["p", "schemas", "mirror.json"],
      fileOf (declaring "registry.terraform.io/example/mirror" "instance" "id"))]
where
  fileOf (json : Json) : Entry := Store.sharedDirectory.fileOf json
  declaring (address type computed : String) : Json :=
    Store.sharedDirectory.document address [("resource_schemas", .object [
      (type, Store.sharedDirectory.block [Store.sharedDirectory.attributes [computed]])])]

def volumePaths (computed : String) : List (List String) :=
  [["resource", "volume", "_", computed], ["resource", "instance", "_", "id"]]

def soleResource? : Document → Option (String × String)
  | ⟨_, [(address, ⟨none, [(type, _)], []⟩)]⟩ => some (address, type)
  | _ => none

theorem alike_of_soleResource {first second : Document} {address : String}
    (sole : soleResource? first = some (address, type))
    (soleToo : soleResource? second = some (address, type)) :
    first.AlikeBut .resource type second := by
  unfold soleResource? at sole soleToo
  split at sole
  next =>
    split at soleToo
    next =>
      cases sole
      cases soleToo
      refine .cons ⟨rfl, rfl, ?_, ?_⟩ .nil
      · intro listed other
        cases listed with
        | resource => exact absurd rfl other
        | dataSource => rfl
      · exact .cons ⟨rfl, .intro (fun different => absurd rfl different) fun _ => trivial⟩ .nil
    next => cases soleToo
  next => cases sole

theorem volume_isolated : ∃ contract other,
    (ofDirectory (volumeDirectory "size") "p").result = .ok contract ∧
    (ofDirectory (volumeDirectory "count") "p").result = .ok other ∧
    contract.computedFields.map ComputedField.path = volumePaths "size" ∧
    other.computedFields.map ComputedField.path = volumePaths "count" ∧
    contract.schemaApartFrom "resource" "volume" = other.schemaApartFrom "resource" "volume" ∧
    contract.fieldsApartFrom "resource" "volume" = other.fieldsApartFrom "resource" "volume" := by
  have sole (computed : String) (checked : (Store.readFile (volumeDirectory computed) Document.read
      (Store.schemaFile "p" "aws")).toOption.any (fun document => decide (soleResource? document =
        some ("registry.terraform.io/hashicorp/aws", "volume"))) = true) :=
    exists_ok _ _ checked
  obtain ⟨aws, readAws, soleAws⟩ := sole "size" (by decide +kernel)
  obtain ⟨other, readOther, soleOther⟩ := sole "count" (by decide +kernel)
  obtain ⟨mirror, readMirror, -⟩ := exists_ok (Store.readFile (volumeDirectory "size")
    Document.read (Store.schemaFile "p" "mirror")) (fun _ => true) (by decide +kernel)
  have sameMirror : (volumeDirectory "size").read (Store.schemaFile "p" "mirror") =
      (volumeDirectory "count").read (Store.schemaFile "p" "mirror") := by decide +kernel
  have readAgain : Store.readFile (volumeDirectory "count") Document.read
      (Store.schemaFile "p" "mirror") = .ok mirror := by
    rw [← readMirror, Store.readFile, Store.readFile, sameMirror]
  obtain ⟨text, found, checked⟩ := exists_ok
    ((volumeDirectory "size").read (Store.providersFile "p"))
    (fun text => decide ((volumeDirectory "count").read (Store.providersFile "p") = .ok text) &&
      (ProviderSpec.readAll text).toOption.any fun specs =>
        decide (OrderedMap.keys specs = ["aws", "mirror"])) (by decide +kernel)
  obtain ⟨foundToo, names⟩ := Bool.and_eq_true_iff.mp checked
  have paired : PairedDirectories .resource "volume" (volumeDirectory "size")
      (volumeDirectory "count") "p" "p" := by
    refine ⟨⟨text, found, of_decide_eq_true foundToo⟩, ?_⟩
    intro listed specs foundAgain decoded
    cases found.symm.trans foundAgain
    simp only [decoded, Except.toOption, Option.any_some, decide_eq_true_eq] at names
    rw [names, List.forall_mem_cons, List.forall_mem_singleton]
    exact ⟨⟨aws, other, readAws, readOther, alike_of_soleResource (of_decide_eq_true soleAws)
      (of_decide_eq_true soleOther)⟩, mirror, mirror, readMirror, readAgain, .refl mirror⟩
  obtain ⟨contract, lowered, paths⟩ := exists_ok (ofDirectory (volumeDirectory "size") "p").result
    (fun contract => decide (contract.computedFields.map ComputedField.path = volumePaths "size"))
    (by decide +kernel)
  obtain ⟨another, loweredToo, pathsToo⟩ := exists_ok
    (ofDirectory (volumeDirectory "count") "p").result
    (fun contract => decide (contract.computedFields.map ComputedField.path = volumePaths "count"))
    (by decide +kernel)
  obtain ⟨-, apart⟩ := types_isolated .resource "volume" _ _ "p" "p" paired
  obtain ⟨schemas, fields⟩ := apart contract another lowered loweredToo
  exact ⟨contract, another, lowered, loweredToo, of_decide_eq_true paths,
    of_decide_eq_true pathsToo, schemas, fields⟩

end Contract

end ConfigContract
