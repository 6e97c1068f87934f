import ConfigContract.Proofs.Provider.Address
import ConfigContract.Proofs.Provider.Opening

/-!
Looking up the schemas of a provider. A document declares providers by the texts of their addresses;
as an address is read from one text only as itself, what a document declares for one provider is
never taken for another.
-/

namespace ConfigContract

def Document.SameFor (address : Address) (document other : Document) : Prop :=
  ∀ key, (∀ stranger : Address, stranger.Canonical → stranger ≠ address → stranger.render ≠ key) →
    OrderedMap.get? key document.providers = OrderedMap.get? key other.providers

namespace Store

variable {disk : Disk} {root : String} {store : Store} {address : Address}

/-- The schemas of an address are those that its document declares under its text, and nothing that
is declared for another address counts. -/
structure FindsOwn (store : Store) (address : Address) (provider : ConfiguredProvider) :
    Prop where
  own : ∀ disk constraint schema,
    (store.providerSchema disk address constraint).result = .ok schema →
      ∃ document declaration, readFile disk Document.read provider.schemaFile = .ok document ∧
        OrderedMap.get? address.render document.providers = some declaration ∧
        schema = declaration.toSchema
  unaffected : ∀ disk later document revised,
    readFile disk Document.read provider.schemaFile = .ok document →
      readFile later Document.read provider.schemaFile = .ok revised →
        document.SameFor address revised → ∀ constraint,
          store.providerSchema later address constraint =
            store.providerSchema disk address constraint

theorem source_of_configured (opened : (openAt disk root).result = .ok store)
    {provider : ConfiguredProvider}
    (configured : OrderedMap.get? address store.providers = some provider) :
    ∃ source, Address.parse source = .ok address := by
  obtain ⟨specs, resolved, -, source⟩ := exists_openedFrom opened
  rw [source.get?_providers] at configured
  have member : (address, provider) ∈ resolved :=
    List.mem_reverse.mp (OrderedMap.mem_of_get? configured)
  obtain ⟨entry, resolves⟩ := source.exists_entry member
  exact ⟨entry.2.source, resolves.source⟩

theorem findsOwn (canonical : address.Canonical) {provider : ConfiguredProvider}
    (configured : OrderedMap.get? address store.providers = some provider) :
    store.FindsOwn address provider where
  own disk constraint schema found := by
    simp only [providerSchema, configured] at found
    split at found
    · cases found
    · simp only [Logged.result_bind, Logged.result_ofExcept, bind_eq_ok] at found
      obtain ⟨document, read, found⟩ := found
      cases declared : OrderedMap.get? address.render document.providers with
      | none => simp [declared] at found
      | some declaration =>
          simp only [declared, Logged.result_bind, Logged.result_tell, ok_bind,
            Logged.result_pure, Except.ok.injEq] at found
          exact ⟨document, declaration, read, declared, found.symm⟩
  unaffected disk later document revised read readRevised same constraint := by
    have own : OrderedMap.get? address.render document.providers =
        OrderedMap.get? address.render revised.providers := by
      refine same address.render fun stranger isCanonical differs sameText => ?_
      exact differs ((Address.render_inj isCanonical canonical).mp sameText)
    simp only [providerSchema, configured, read, readRevised, Logged.ofExcept_ok_bind, own]

end Store

namespace Address

/-- Exactly the sources of the form `[[host/]owner/]kind` are read, in any case and with white space
around or not, and what they leave out is the default. An address is read back from its text, which
no other address has, and two sources denote one address if their completed forms are the same. So
what a store finds for an address is what a document declares for that address. -/
theorem sources_canonical :
    (∀ source address, parse source = .ok address ↔
      ∃ spelling : Spelling, spelling.Spells source ∧ address = spelling.address) ∧
    (∀ source address, parse source = .ok address → parse address.render = .ok address) ∧
    (∀ source other a b, parse source = .ok a → parse other = .ok b →
      (a = b ↔ a.render = b.render)) ∧
    (∀ source address, parse source = .ok address → ∀ other,
      parse other = .ok address ↔ completedForm other = completedForm source) ∧
    ∀ disk root store, (Store.openAt disk root).result = .ok store → ∀ address provider,
      OrderedMap.get? address store.providers = some provider →
        (∀ source other, parse source = .ok other → other.render = address.render →
          other = address) ∧
        store.FindsOwn address provider := by
  refine ⟨fun source address => parse_eq_ok_iff,
    fun source address parsed => parse_render (canonical_of_parse parsed),
    fun source other a b parsed parsedOther => ?_,
    fun source address parsed other => parse_iff_completedForm parsed,
    fun disk root store opened address provider configured => ?_⟩
  · exact (render_inj (canonical_of_parse parsed) (canonical_of_parse parsedOther)).symm
  · obtain ⟨_, denoted⟩ := Store.source_of_configured opened configured
    have canonical := canonical_of_parse denoted
    refine ⟨fun source other parsed same => ?_, Store.findsOwn canonical configured⟩
    exact (render_inj (canonical_of_parse parsed) canonical).mp same

/-- Two spellings of a bare kind, a host with a port, and a store of two addresses. -/
theorem mixedCase_sources_canonical :
    parse "\tGoogle-Beta " = .ok ⟨"registry.terraform.io", "hashicorp", "google-beta"⟩ ∧
    parse "HASHICORP/google-beta" = .ok ⟨"registry.terraform.io", "hashicorp", "google-beta"⟩ ∧
    parse "registry.terraform.io/hashicorp/google-beta" =
      .ok ⟨"registry.terraform.io", "hashicorp", "google-beta"⟩ ∧
    parse "Example.com:8443/acme/W" = .ok ⟨"example.com:8443", "acme", "w"⟩ ∧
    ∃ store, (Store.openAt Store.sharedDirectory "p").result = .ok store ∧
      (OrderedMap.keys store.providers).map render =
        ["registry.terraform.io/hashicorp/aws", "registry.terraform.io/example/mirror"] ∧
      ∀ address provider, OrderedMap.get? address store.providers = some provider →
        store.FindsOwn address provider := by
  obtain ⟨read, rereads, -, sameForm, finds⟩ := sources_canonical
  have bare : parse "\tGoogle-Beta " =
      .ok ⟨"registry.terraform.io", "hashicorp", "google-beta"⟩ := by rfl
  have owned := (sameForm _ _ bare "HASHICORP/google-beta").mpr (by decide +kernel)
  have again := rereads _ _ bare
  have valid : (Spelling.hosted "example.com:8443" "acme" "w").Valid :=
    ⟨isHost_iff.mp (by decide +kernel), isSegment_iff.mp (by decide +kernel),
      kind_iff.mpr (by decide +kernel)⟩
  have hosted : (Spelling.hosted "example.com:8443" "acme" "w").Spells "Example.com:8443/acme/W" :=
    Spelling.spells_iff.mpr ⟨valid, by decide +kernel⟩
  have withPort := (read _ _).mpr ⟨_, hosted, rfl⟩
  obtain ⟨store, opened, texts⟩ := exists_ok (Store.openAt Store.sharedDirectory "p").result
    (fun store => (OrderedMap.keys store.providers).map render ==
      ["registry.terraform.io/hashicorp/aws", "registry.terraform.io/example/mirror"])
    (by decide +kernel)
  exact ⟨bare, owned, again, withPort, store, opened, by simpa using texts,
    fun address provider configured => (finds _ _ store opened address provider configured).2⟩

end Address

end ConfigContract
