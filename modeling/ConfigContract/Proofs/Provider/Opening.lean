import ConfigContract.Proofs.Lowering.Members
import ConfigContract.Proofs.Provider.Resolution

/-!
Opening a directory of providers: when it succeeds, which error it gives, what the store then holds
for the list that it was opened from, and what it adds to the module that it is merged into.
-/

namespace ConfigContract

theorem VersionConstraint.allows_exactly {version candidate : Version} :
    (VersionConstraint.exactly version).allows candidate = true ↔ candidate = version := by
  simp [exactly, allows, Requirement.allows]

namespace Store

variable {disk : Disk} {root : String} {store : Store}

/-! One entry of the list -/

structure Configurable (disk : Disk) (root : String) (entry : String × ProviderSpec) : Prop where
  source : ∃ address, Address.parse entry.2.source = .ok address
  version : ∃ version, Version.parse entry.2.version = some version
  document : disk.isFile (schemaFile root entry.1) = true

/-- The first check that an entry fails. -/
inductive Refused (disk : Disk) (root : String) (entry : String × ProviderSpec) :
    SourceError → Prop
  | source {fault : AddressFault} (malformed : Address.parse entry.2.source = .error fault) :
      Refused disk root entry (.invalidSource entry.2.source fault)
  | version {address : Address} (source : Address.parse entry.2.source = .ok address)
      (malformed : Version.parse entry.2.version = none) :
      Refused disk root entry (.invalidVersion entry.2.version)
  | document {address : Address} {version : Version}
      (source : Address.parse entry.2.source = .ok address)
      (version : Version.parse entry.2.version = some version)
      (missing : disk.isFile (schemaFile root entry.1) = false) :
      Refused disk root entry (.file (schemaFile root entry.1) .schemaMissing)

structure Resolves (disk : Disk) (root : String) (entry : String × ProviderSpec)
    (resolved : Address × ConfiguredProvider) : Prop where
  source : Address.parse entry.2.source = .ok resolved.1
  version : Version.parse entry.2.version = some resolved.2.version
  localName : resolved.2.localName = entry.1
  schemaFile : resolved.2.schemaFile = schemaFile root entry.1
  document : disk.isFile (Store.schemaFile root entry.1) = true

def resolve (disk : Disk) (root : String) (entry : String × ProviderSpec) :
    Except SourceError (Address × ConfiguredProvider) := do
  let address ← Address.ofSource entry.2.source
  let version ← Version.ofText entry.2.version
  let schemaFile := schemaFile root entry.1
  if disk.isFile schemaFile then return (address, ⟨entry.1, version, schemaFile⟩)
  else throw (.file schemaFile .schemaMissing)

theorem resolve_cases (disk : Disk) (root : String) (entry : String × ProviderSpec) :
    (∃ resolved, resolve disk root entry = .ok resolved ∧ Resolves disk root entry resolved) ∨
      ∃ error, resolve disk root entry = .error error ∧ Refused disk root entry error := by
  unfold resolve Address.ofSource Version.ofText
  cases source : Address.parse entry.2.source with
  | error fault => exact .inr ⟨_, rfl, .source source⟩
  | ok address =>
      cases version : Version.parse entry.2.version with
      | none => exact .inr ⟨_, rfl, .version source version⟩
      | some number =>
          cases document : disk.isFile (schemaFile root entry.1) with
          | false => exact .inr ⟨_, by simp [document]; rfl, .document source version document⟩
          | true => exact .inl ⟨_, by simp [document]; rfl, source, version, rfl, rfl, document⟩

theorem exists_resolve_iff {entry : String × ProviderSpec} :
    (∃ resolved, resolve disk root entry = .ok resolved) ↔ Configurable disk root entry := by
  constructor
  · rintro ⟨resolved, succeeded⟩
    rcases resolve_cases disk root entry with ⟨_, -, resolves⟩ | ⟨error, failed, -⟩
    · exact ⟨⟨_, resolves.source⟩, ⟨_, resolves.version⟩, resolves.document⟩
    · simp [failed] at succeeded
  · rintro ⟨⟨address, source⟩, ⟨version, number⟩, document⟩
    rcases resolve_cases disk root entry with ⟨resolved, succeeded, -⟩ | ⟨error, -, refused⟩
    · exact ⟨resolved, succeeded⟩
    · cases refused with
      | source malformed => simp [source] at malformed
      | version _ malformed => simp [number] at malformed
      | document _ _ missing => simp [document] at missing

theorem resolves_of_resolve {entry : String × ProviderSpec}
    {resolved : Address × ConfiguredProvider} (succeeded : resolve disk root entry = .ok resolved) :
    Resolves disk root entry resolved := by
  rcases resolve_cases disk root entry with ⟨other, found, resolves⟩ | ⟨error, failed, -⟩
  · cases succeeded.symm.trans found
    exact resolves
  · simp [failed] at succeeded

theorem resolve_eq_error_iff {entry : String × ProviderSpec} {error : SourceError} :
    resolve disk root entry = .error error ↔ Refused disk root entry error := by
  constructor
  · intro failed
    rcases resolve_cases disk root entry with ⟨resolved, succeeded, -⟩ | ⟨other, found, refused⟩
    · simp [succeeded] at failed
    · cases failed.symm.trans found
      exact refused
  · intro refused
    unfold resolve Address.ofSource Version.ofText
    cases refused with
    | source malformed => simp [malformed]
    | version source malformed => simp [source, malformed]
    | document source version missing =>
        simp [source, version, missing]
        rfl

/-! The whole list -/

def register (store : Store) (resolved : Address × ConfiguredProvider) : Store :=
  { store with
    references := OrderedMap.insert resolved.2.localName resolved.1 store.references
    providers := OrderedMap.insert resolved.1 resolved.2 store.providers }

def registerAll (store : Store) (resolved : List (Address × ConfiguredProvider)) : Store :=
  { store with
    references := OrderedMap.insertAll store.references
      (resolved.map fun (address, provider) => (provider.localName, address))
    providers := OrderedMap.insertAll store.providers resolved }

theorem registerAll_cons (store : Store) (first : Address × ConfiguredProvider)
    (rest : List (Address × ConfiguredProvider)) :
    store.registerAll (first :: rest) = (store.register first).registerAll rest := rfl

theorem configure_result (store : Store) (localName : String) (spec : ProviderSpec) :
    (configure disk store localName spec).result =
      store.register <$> resolve disk store.root (localName, spec) := by
  unfold configure resolve
  simp only [Logged.result_bind, Logged.result_ofExcept]
  cases Address.ofSource spec.source with
  | error error => rfl
  | ok address =>
      cases Version.ofText spec.version with
      | error error => rfl
      | ok version =>
          cases document : disk.isFile (schemaFile store.root localName) with
          | false =>
              simp
              rfl
          | true =>
              simp
              rfl

/-- Entries are resolved one by one, and the first that cannot be is the error. -/
theorem configureAll_result (specs : OrderedMap String ProviderSpec) (store : Store) :
    (configureAll disk specs store).result =
      store.registerAll <$> specs.mapM (resolve disk store.root) := by
  induction specs generalizing store with
  | nil => rfl
  | cons entry rest ih =>
      obtain ⟨localName, spec⟩ := entry
      rw [configureAll, Logged.result_bind, configure_result, List.mapM_cons]
      cases resolve disk store.root (localName, spec) with
      | error error => rfl
      | ok resolved =>
          simp only [map_ok, ok_bind, ih]
          -- a registered entry leaves the root alone, so the rest resolves in the same directory
          have sameRoot : (store.register resolved).root = store.root := rfl
          rw [sameRoot]
          cases rest.mapM (resolve disk store.root) with
          | error error => rfl
          | ok others => simp [registerAll_cons]

theorem openAt_result {specs : OrderedMap String ProviderSpec}
    (decoded : readFile disk ProviderSpec.readAll (providersFile root) = .ok specs) :
    (openAt disk root).result =
      registerAll { root } <$> specs.mapM (resolve disk root) := by
  simp only [openAt, Logged.result_bind, Logged.result_ofExcept, decoded, ok_bind,
    configureAll_result]
  cases specs.mapM (resolve disk root) <;> simp

/-! What an opened store holds -/

structure OpenedFrom (disk : Disk) (root : String) (specs : OrderedMap String ProviderSpec)
    (resolved : List (Address × ConfiguredProvider)) (store : Store) : Prop where
  resolves : List.Forall₂ (Resolves disk root) specs resolved
  root : store.root = root
  references : store.references =
    resolved.map fun (address, provider) => (provider.localName, address)
  providers : store.providers = OrderedMap.insertAll [] resolved

theorem distinct_specs {path : String} {specs : OrderedMap String ProviderSpec}
    (decoded : readFile disk ProviderSpec.readAll path = .ok specs) :
    OrderedMap.Distinct specs := by
  obtain ⟨text, -, readText⟩ := readFile_ok decoded
  obtain ⟨⟨value, rest⟩, read, rfl⟩ := map_eq_ok.mp readText
  exact (Reader.Ensures.map _ (.anything _) read).1

theorem keys_of_resolves {specs : OrderedMap String ProviderSpec}
    {resolved : List (Address × ConfiguredProvider)}
    (resolves : List.Forall₂ (Resolves disk root) specs resolved) :
    OrderedMap.keys (resolved.map fun (address, provider) => (provider.localName, address)) =
      OrderedMap.keys specs := by
  induction resolves with
  | nil => rfl
  | @cons entry given _ _ first _ ih =>
      obtain ⟨localName, spec⟩ := entry
      simp only [List.map_cons, OrderedMap.keys_cons, ih]
      exact congrArg (· :: _) first.localName

theorem openedFrom_of_openAt {specs : OrderedMap String ProviderSpec}
    (decoded : readFile disk ProviderSpec.readAll (providersFile root) = .ok specs)
    (opened : (openAt disk root).result = .ok store) :
    ∃ resolved, OpenedFrom disk root specs resolved store := by
  rw [openAt_result decoded, map_eq_ok] at opened
  obtain ⟨resolved, mapped, rfl⟩ := opened
  have resolves : List.Forall₂ (Resolves disk root) specs resolved :=
    (mapM_eq_ok_iff.mp mapped).imp fun _ _ => resolves_of_resolve
  refine ⟨resolved, resolves, rfl, ?_, rfl⟩
  apply OrderedMap.insertAll_of_distinct []
  exact .of_keys (keys_of_resolves resolves) (distinct_specs decoded)

theorem exists_openedFrom (opened : (openAt disk root).result = .ok store) :
    ∃ specs resolved, readFile disk ProviderSpec.readAll (providersFile root) = .ok specs ∧
      OpenedFrom disk root specs resolved store := by
  have decoded := opened
  simp only [openAt, Logged.result_bind, Logged.result_ofExcept, bind_eq_ok] at decoded
  obtain ⟨specs, decoded, -⟩ := decoded
  obtain ⟨resolved, source⟩ := openedFrom_of_openAt decoded opened
  exact ⟨specs, resolved, decoded, source⟩

theorem distinct_references (opened : (openAt disk root).result = .ok store) :
    OrderedMap.Distinct store.references := by
  obtain ⟨specs, resolved, decoded, source⟩ := exists_openedFrom opened
  rw [source.references]
  exact .of_keys (keys_of_resolves source.resolves) (distinct_specs decoded)

def lastFor? (specs : OrderedMap String ProviderSpec) (address : Address) :
    Option (String × ProviderSpec) :=
  specs.reverse.find? fun entry => (Address.parse entry.2.source).toOption == some address

theorem version_of_resolves {specs : OrderedMap String ProviderSpec}
    {resolved : List (Address × ConfiguredProvider)}
    (resolves : List.Forall₂ (Resolves disk root) specs resolved) (address : Address) :
    (OrderedMap.get? address resolved).map ConfiguredProvider.version =
      (specs.find? fun entry => (Address.parse entry.2.source).toOption == some address).bind
        fun entry => Version.parse entry.2.version := by
  induction resolves with
  | nil => rfl
  | @cons entry given _ _ first _ ih =>
      by_cases same : given.1 = address
      · simp [OrderedMap.get?, same, first.source, first.version, Except.toOption]
      · simp [OrderedMap.get?, same, first.source, ih, Except.toOption]

structure Represents (store : Store) (specs : OrderedMap String ProviderSpec) : Prop where
  references : List.Forall₂ (fun entry reference => reference.1 = entry.1 ∧
    Address.parse entry.2.source = .ok reference.2) specs store.references
  addresses : OrderedMap.keys store.requirements =
    (OrderedMap.values store.references).eraseDups
  pinned : ∀ address, OrderedMap.get? address store.requirements =
    (lastFor? specs address).bind fun entry =>
      (Version.parse entry.2.version).map VersionConstraint.exactly
  satisfied : ∀ address provider, OrderedMap.get? address store.providers = some provider →
    ∃ constraint, OrderedMap.get? address store.requirements = some constraint ∧
      constraint.allows provider.version = true

namespace OpenedFrom

variable {specs : OrderedMap String ProviderSpec} {resolved : List (Address × ConfiguredProvider)}

theorem keys_providers (source : OpenedFrom disk root specs resolved store) :
    OrderedMap.keys store.providers = (OrderedMap.values store.references).eraseDups := by
  rw [source.providers, source.references, OrderedMap.keys_insertAll OrderedMap.distinct_nil]
  simp [OrderedMap.keys, OrderedMap.values, Function.comp_def]

theorem get?_providers (source : OpenedFrom disk root specs resolved store) (address : Address) :
    OrderedMap.get? address store.providers = OrderedMap.get? address resolved.reverse := by
  rw [source.providers, OrderedMap.get?_insertAll]
  simp [OrderedMap.get?]

theorem exists_entry (source : OpenedFrom disk root specs resolved store)
    {given : Address × ConfiguredProvider} (member : given ∈ resolved) :
    ∃ entry, Resolves disk root entry given := by
  obtain ⟨entry, -, resolves⟩ := exists_of_forall₂ source.resolves member
  exact ⟨entry, resolves⟩

theorem schemaFile_of_mem (source : OpenedFrom disk root specs resolved store)
    {given : Address × ConfiguredProvider} (member : given ∈ resolved) :
    given.2.schemaFile = schemaFile root given.2.localName := by
  obtain ⟨entry, resolves⟩ := source.exists_entry member
  rw [resolves.localName, resolves.schemaFile]

theorem get?_requirements (store : Store) (address : Address) :
    OrderedMap.get? address store.requirements =
      (OrderedMap.get? address store.providers).map fun provider =>
        VersionConstraint.exactly provider.version :=
  OrderedMap.get?_mapValues address _ store.providers

theorem represents (source : OpenedFrom disk root specs resolved store) :
    store.Represents specs where
  references := by
    rw [source.references, List.forall₂_map_right_iff]
    exact source.resolves.imp fun entry given resolves => ⟨resolves.localName, resolves.source⟩
  addresses := by
    rw [requirements, OrderedMap.keys_mapValues, source.keys_providers]
  pinned address := by
    have reversed : List.Forall₂ (Resolves disk root) specs.reverse resolved.reverse :=
      List.forall₂_reverse_iff.mpr source.resolves
    have version := version_of_resolves reversed address
    rw [get?_requirements, source.get?_providers, lastFor?]
    have pin := congrArg (Option.map VersionConstraint.exactly) version
    simpa [Option.map_map, Option.map_bind, Function.comp_def] using pin
  satisfied address provider found := by
    refine ⟨.exactly provider.version, by simp [get?_requirements, found], ?_⟩
    exact VersionConstraint.allows_exactly.mpr rfl

end OpenedFrom

end Store

/-! From a document to the schemas of its providers -/

def BlockDeclaration.names (declaration : BlockDeclaration) : List String :=
  OrderedMap.keys declaration.attributes ++ OrderedMap.keys declaration.blockTypes

theorem BlockDeclaration.names_toBody (declaration : BlockDeclaration) :
    declaration.toBody.names = declaration.names := by
  cases declaration
  simp only [toBody, Body.names, names, keys_declaredAttributes, keys_declaredBlocks]

/-- The schema has the types of the declaration in their order, and for each of them a body with
the attributes and nested blocks that are declared. -/
structure ProviderSchema.SameNames (schema : ProviderSchema) (declaration : ProviderDeclaration) :
    Prop where
  provider : schema.provider.names =
    (declaration.provider.map fun declared => declared.block.names).getD []
  resources : OrderedMap.mapValues Body.names schema.resources =
    OrderedMap.mapValues (fun declared => declared.block.names) declaration.resources
  dataSources : OrderedMap.mapValues Body.names schema.dataSources =
    OrderedMap.mapValues (fun declared => declared.block.names) declaration.dataSources

theorem ProviderDeclaration.sameNames_toSchema (declaration : ProviderDeclaration) :
    declaration.toSchema.SameNames declaration := by
  have types (schemas : OrderedMap String SchemaDeclaration) :
      OrderedMap.mapValues Body.names (bodies schemas) =
        OrderedMap.mapValues (fun declared => declared.block.names) schemas := by
    simp [bodies, OrderedMap.mapValues, BlockDeclaration.names_toBody]
  refine ⟨?_, types declaration.resources, types declaration.dataSources⟩
  rw [toSchema]
  cases declaration.provider with
  | none => rfl
  | some declared => exact declared.block.names_toBody

namespace ProviderSchema.SameNames

variable {schema : ProviderSchema} {declaration : ProviderDeclaration}

theorem keys_resources (same : schema.SameNames declaration) :
    OrderedMap.keys schema.resources = OrderedMap.keys declaration.resources := by
  simpa [OrderedMap.keys_mapValues] using congrArg OrderedMap.keys same.resources

theorem keys_dataSources (same : schema.SameNames declaration) :
    OrderedMap.keys schema.dataSources = OrderedMap.keys declaration.dataSources := by
  simpa [OrderedMap.keys_mapValues] using congrArg OrderedMap.keys same.dataSources

end ProviderSchema.SameNames

namespace Store

variable {disk : Disk} {root : String} {store : Store}

/-- What a store finds for an address has the names that the document declares for it. -/
theorem names_schemaAt {address : Address} {schema : ProviderSchema}
    (found : store.schemaAt disk address = .ok schema) :
    ∃ provider document declaration, OrderedMap.get? address store.providers = some provider ∧
      readFile disk Document.read provider.schemaFile = .ok document ∧
      OrderedMap.get? address.render document.providers = some declaration ∧
      schema.SameNames declaration := by
  obtain ⟨provider, document, declaration, known, read, listed, rfl⟩ := schemaAt_ok found
  exact ⟨provider, document, declaration, known, read, listed, declaration.sameNames_toSchema⟩

/-! The schemas of an opened store -/

def lastName? (store : Store) (address : Address) : Option String :=
  (store.references.reverse.find? fun reference => reference.2 == address).map Prod.fst

def declaredBy (disk : Disk) (store : Store) (localName : String) (address : Address) :
    Except SourceError ProviderSchema := do
  let document ← readFile disk Document.read (schemaFile store.root localName)
  match OrderedMap.get? address.render document.providers with
  | none => throw (.schemaNotFound address)
  | some declaration => return declaration.toSchema

theorem exists_lastName {address : Address}
    (configured : address ∈ OrderedMap.values store.references) :
    ∃ localName, store.lastName? address = some localName := by
  obtain ⟨reference, member, same⟩ := List.mem_map.mp configured
  rw [lastName?]
  cases found : store.references.reverse.find? fun reference => reference.2 == address with
  | none =>
      have absent := List.find?_eq_none.mp found reference (List.mem_reverse.mpr member)
      simp [same] at absent
  | some last => exact ⟨last.1, rfl⟩

theorem OpenedFrom.get?_lastName {specs : OrderedMap String ProviderSpec}
    {resolved : List (Address × ConfiguredProvider)}
    (source : OpenedFrom disk root specs resolved store) {address : Address} {localName : String}
    (last : store.lastName? address = some localName) : ∃ provider,
      OrderedMap.get? address store.providers = some provider ∧
        provider.schemaFile = schemaFile store.root localName := by
  rw [source.get?_providers, OrderedMap.get?_eq_find?]
  rw [lastName?, source.references, ← List.map_reverse, List.find?_map] at last
  obtain ⟨given, found, same⟩ := Option.map_eq_some_iff.mp last
  obtain ⟨⟨listed, provider⟩, first, rfl⟩ := Option.map_eq_some_iff.mp found
  simp only [Function.comp_def] at first
  refine ⟨provider, by rw [first]; rfl, ?_⟩
  have member := List.mem_reverse.mp (List.mem_of_find?_eq_some first)
  rw [source.schemaFile_of_mem member, source.root]
  exact congrArg (schemaFile root) same

/-- The schemas of a provider are read from the document of the last local name with its address.
Its own version always satisfies the pin. -/
theorem schemaAt_opened (opened : (openAt disk root).result = .ok store) (now : Disk)
    {address : Address} {localName : String} (last : store.lastName? address = some localName) :
    store.schemaAt now address = declaredBy now store localName address := by
  obtain ⟨specs, resolved, -, source⟩ := exists_openedFrom opened
  obtain ⟨provider, configured, file⟩ := source.get?_lastName last
  have pin : OrderedMap.get? address store.requirements =
      some (.exactly provider.version) := by
    rw [OpenedFrom.get?_requirements, configured]
    rfl
  have allowed : (VersionConstraint.exactly provider.version).allows provider.version = true :=
    VersionConstraint.allows_exactly.mpr rfl
  simp only [schemaAt, pin, providerSchema, configured, allowed, Bool.not_true, Bool.false_eq_true,
    ↓reduceIte, Logged.result_bind, Logged.result_ofExcept, declaredBy, file]
  cases readFile now Document.read (schemaFile store.root localName) with
  | error error => rfl
  | ok document =>
      simp only [ok_bind]
      cases OrderedMap.get? address.render document.providers <;> rfl

theorem declaredBy_error {now : Disk} {localName : String} {address : Address}
    {error : SourceError} (failed : declaredBy now store localName address = .error error) :
    (∃ cause, error = .file (schemaFile store.root localName) cause) ∨
      (∃ fault, error = .decode (schemaFile store.root localName) fault) ∨
      error = .schemaNotFound address := by
  unfold declaredBy readFile at failed
  cases found : now.read (schemaFile store.root localName) with
  | error fault =>
      simp only [found, error_bind, Except.error.injEq] at failed
      exact .inl ⟨_, failed.symm⟩
  | ok text =>
      cases read : Document.read text with
      | error fault =>
          simp only [found, read, mapError_error, error_bind, Except.error.injEq] at failed
          exact .inr (.inl ⟨_, failed.symm⟩)
      | ok document =>
          simp only [found, read, mapError_ok, ok_bind] at failed
          split at failed
          next =>
            cases failed
            exact .inr (.inr rfl)
          next => cases failed

theorem schemaAt_error (opened : (openAt disk root).result = .ok store) {now : Disk}
    {address : Address} {error : SourceError}
    (configured : address ∈ OrderedMap.values store.references)
    (failed : store.schemaAt now address = .error error) :
    (∀ other version constraint, error ≠ .versionIncompatible other version constraint) ∧
      ∀ other, error ≠ .providerNotFound other := by
  obtain ⟨localName, last⟩ := exists_lastName configured
  rw [schemaAt_opened opened now last] at failed
  rcases declaredBy_error failed with ⟨cause, rfl⟩ | ⟨fault, rfl⟩ | rfl <;> simp

/-- A store opens if every entry of its list can be configured, and otherwise fails as the first
that cannot. An opened store represents its list, so merging never misses a provider or its
version, even if the documents have changed since. -/
theorem opened_store_consistent {specs : OrderedMap String ProviderSpec}
    (decoded : readFile disk ProviderSpec.readAll (providersFile root) = .ok specs) :
    ((∃ store, (openAt disk root).result = .ok store) ↔
      ∀ entry ∈ specs, Configurable disk root entry) ∧
    (∀ error, (openAt disk root).result = .error error ↔
      ∃ before entry after, specs = before ++ entry :: after ∧
        (∀ earlier ∈ before, Configurable disk root earlier) ∧ Refused disk root entry error) ∧
    ∀ store, (openAt disk root).result = .ok store →
      store.Represents specs ∧
      ∀ now core error, (store.merge now core).result = .error error →
        (∀ address version constraint, error ≠ .versionIncompatible address version constraint) ∧
        ∀ address, error ≠ .providerNotFound address := by
  refine ⟨?opens, fun error => ?fails, fun store opened => ⟨?represents, ?merges⟩⟩
  case opens =>
    rw [openAt_result decoded]
    calc (∃ store, registerAll { root } <$> specs.mapM (resolve disk root) = .ok store)
      _ ↔ ∃ resolved, specs.mapM (resolve disk root) = .ok resolved := by simp [map_eq_ok]
      _ ↔ ∀ entry ∈ specs, ∃ resolved, resolve disk root entry = .ok resolved := exists_mapM_iff
      _ ↔ ∀ entry ∈ specs, Configurable disk root entry := by simp only [exists_resolve_iff]
  case fails =>
    rw [openAt_result decoded]
    calc registerAll { root } <$> specs.mapM (resolve disk root) = .error error
      _ ↔ specs.mapM (resolve disk root) = .error error := by
        cases specs.mapM (resolve disk root) <;> simp
      _ ↔ FailsFirst (resolve disk root) specs error := mapM_eq_error_iff
      _ ↔ _ := by simp only [FailsFirst, exists_resolve_iff, resolve_eq_error_iff]
  case represents =>
    obtain ⟨resolved, source⟩ := openedFrom_of_openAt decoded opened
    exact source.represents
  case merges =>
    intro now core error failed
    obtain ⟨before, reference, after, split, -, failed⟩ := mergeFrom_eq_error_iff.mp failed
    have configured : reference.2 ∈ OrderedMap.values store.references := by
      rw [split]
      simp [OrderedMap.values]
    exact schemaAt_error opened configured failed

theorem shared_directory_consistent : ∃ specs store,
    readFile sharedDirectory ProviderSpec.readAll (providersFile "p") = .ok specs ∧
    OrderedMap.keys specs = ["aws", "west", "mirror"] ∧
    (openAt sharedDirectory "p").result = .ok store ∧ store.Represents specs := by
  obtain ⟨specs, decoded, names⟩ := exists_ok
    (readFile sharedDirectory ProviderSpec.readAll (providersFile "p"))
    (fun specs => OrderedMap.keys specs == ["aws", "west", "mirror"]) (by decide +kernel)
  obtain ⟨store, opened, -⟩ := exists_ok (openAt sharedDirectory "p").result (fun _ => true)
    (by decide +kernel)
  obtain ⟨-, -, consistent⟩ := opened_store_consistent decoded
  exact ⟨specs, store, decoded, by simpa using names, opened, (consistent store opened).1⟩

/-- Merging appends the bodies of the providers to the blocks of the module that take them and
changes nothing else; it fails as the first local name whose schema cannot be had. -/
theorem opened_store_extends (core : Body) (distinct : OrderedMap.Distinct core.blocks)
    (opened : (openAt disk root).result = .ok store) (now : Disk) :
    (∀ address ∈ OrderedMap.values store.references, ∃ localName,
      store.lastName? address = some localName ∧
      store.schemaAt now address = declaredBy now store localName address) ∧
    (∀ merged, (store.merge now core).result = .ok merged → ∃ schemas : Address → ProviderSchema,
      (∀ address ∈ OrderedMap.values store.references,
        store.schemaAt now address = .ok (schemas address)) ∧
      merged = core.extendedBy (store.attachment schemas)) ∧
    ∀ error, (store.merge now core).result = .error error ↔
      ∃ before reference after, store.references = before ++ reference :: after ∧
        (∀ earlier ∈ before, ∃ schema, store.schemaAt now earlier.2 = .ok schema) ∧
        store.schemaAt now reference.2 = .error error := by
  refine ⟨fun address configured => ?_, fun merged => merge_extends_of_ok distinct,
    fun error => mergeFrom_eq_error_iff⟩
  obtain ⟨localName, last⟩ := exists_lastName configured
  exact ⟨localName, last, schemaAt_opened opened now last⟩

def resourceModule : Body where
  blocks := [
    ("provider", .addLabel {} "name" true),
    ("resource", (Block.addLabel {} "type" true).addDependent 0 "instance" {}),
    ("locals", {})]

theorem resource_module_extended : ∃ store merged,
    (openAt sharedDirectory "p").result = .ok store ∧
    (store.merge sharedDirectory resourceModule).result = .ok merged ∧
    (∃ schemas, merged = resourceModule.extendedBy (store.attachment schemas)) ∧
    merged.blocks.map (fun entry => entry.2.dependents.map DependentBody.keys) = [
      [[⟨0, "aws"⟩], [⟨0, "west"⟩], [⟨0, "mirror"⟩]],
      [[⟨0, "instance"⟩], [⟨0, "instance"⟩], [⟨0, "volume"⟩], [⟨0, "instance"⟩]], []] := by
  obtain ⟨merged, loaded, keys⟩ := exists_ok
    (openAt sharedDirectory "p" >>= fun store => store.merge sharedDirectory resourceModule).result
    (fun merged => merged.blocks.map (fun entry => entry.2.dependents.map DependentBody.keys) == [
      [[⟨0, "aws"⟩], [⟨0, "west"⟩], [⟨0, "mirror"⟩]],
      [[⟨0, "instance"⟩], [⟨0, "instance"⟩], [⟨0, "volume"⟩], [⟨0, "instance"⟩]], []])
    (by decide +kernel)
  rw [Logged.result_bind, bind_eq_ok] at loaded
  obtain ⟨store, opened, succeeded⟩ := loaded
  obtain ⟨-, merges, -⟩ := opened_store_extends resourceModule
    (by simp [resourceModule]) opened sharedDirectory
  obtain ⟨schemas, -, same⟩ := merges merged succeeded
  exact ⟨store, merged, opened, succeeded, ⟨schemas, same⟩, by simpa using keys⟩

end Store

end ConfigContract
