import ConfigContract.Proofs.Lowering.Members
import ConfigContract.Proofs.Lowering.Nesting

/-!
Bodies that declare the same names. The last body that declares a name gives the member, a block
rather than an attribute, and every declaration is lowered and noted all the same.
-/

namespace ConfigContract

namespace Body

variable {bodies : List Body} {path : Path} {lowered : Lowered Members} {key : String}

def declaration? (body : Body) (key : String) : Option Declaration :=
  ((OrderedMap.get? key body.blocks).map .block).or
    ((OrderedMap.get? key body.attributes).map .plain)

def LastToDeclare (bodies : List Body) (key : String) (body : Body) : Prop :=
  ∃ before after, bodies = before ++ body :: after ∧ key ∈ body.names ∧
    ∀ later ∈ after, key ∉ later.names

theorem exists_lastToDeclare (declares : key ∈ bodies.flatMap names) :
    ∃ body, LastToDeclare bodies key body := by
  induction bodies with
  | nil => simp at declares
  | cons body rest ih =>
      rw [List.flatMap_cons, List.mem_append] at declares
      by_cases again : key ∈ rest.flatMap names
      · obtain ⟨last, before, after, rfl, named, others⟩ := ih again
        exact ⟨last, body :: before, after, rfl, named, others⟩
      · have others : ∀ later ∈ rest, key ∉ later.names := by simpa using again
        exact ⟨body, [], rest, rfl, declares.resolve_right again, others⟩

theorem isSome_declaration? {body : Body} (declares : key ∈ body.names) :
    (body.declaration? key).isSome = true := by
  rcases List.mem_append.mp declares with plain | nested
  · obtain ⟨declared, found⟩ := OrderedMap.exists_of_mem_keys plain
    simp [declaration?, found]
  · obtain ⟨block, found⟩ := OrderedMap.exists_of_mem_keys nested
    simp [declaration?, found]

theorem get?_reverse_declarations {body : Body} (attributes : OrderedMap.Distinct body.attributes)
    (blocks : OrderedMap.Distinct body.blocks) (key : String) :
    OrderedMap.get? key body.declarations.reverse = body.declaration? key := by
  have plain : OrderedMap.Distinct (OrderedMap.mapValues Declaration.plain body.attributes) :=
    .of_keys (OrderedMap.keys_mapValues _ _) attributes
  have nested : OrderedMap.Distinct (OrderedMap.mapValues Declaration.block body.blocks) :=
    .of_keys (OrderedMap.keys_mapValues _ _) blocks
  rw [declarations, List.reverse_append, OrderedMap.get?_append, OrderedMap.get?_reverse key plain,
    OrderedMap.get?_reverse key nested, OrderedMap.get?_mapValues, OrderedMap.get?_mapValues]
  rfl

theorem survivor?_of_last {body : Body} (last : LastToDeclare bodies key body)
    (attributes : OrderedMap.Distinct body.attributes)
    (blocks : OrderedMap.Distinct body.blocks) : ∃ declaration,
      body.declaration? key = some declaration ∧ survivor? bodies key = some declaration := by
  obtain ⟨before, after, rfl, declares, others⟩ := last
  obtain ⟨declaration, found⟩ := Option.isSome_iff_exists.mp (isSome_declaration? declares)
  have absent : key ∉ OrderedMap.keys (allDeclarations after).reverse := by
    have unnamed : key ∉ OrderedMap.keys (allDeclarations after) := by
      simpa [keys_allDeclarations] using others
    simpa [OrderedMap.keys] using unnamed
  have listed : (allDeclarations (before ++ body :: after)).reverse =
      (allDeclarations after).reverse ++
        (body.declarations.reverse ++ (allDeclarations before).reverse) := by
    simp [allDeclarations]
  refine ⟨declaration, found, ?_⟩
  rw [survivor?, listed, OrderedMap.get?_append, OrderedMap.get?_append,
    OrderedMap.get?_eq_none_iff.mpr absent, get?_reverse_declarations attributes blocks, found]
  rfl

/-- What bodies come to at a path: the members under their names, in the order in which the names
come first, each from the last body that declares it; and what all declarations note. -/
structure LastCounts (bodies : List Body) (path : Path) (lowered : Lowered Members) : Prop where
  keys : OrderedMap.keys lowered.value = (bodies.flatMap names).eraseDups
  member : ∀ key ∈ bodies.flatMap names, ∃ body declaration part,
    LastToDeclare bodies key body ∧ body.declaration? key = some declaration ∧
    declaration.lower (path.child key) = .ok part ∧
    OrderedMap.get? key lowered.value = some part.value
  succeeds : ∀ entry ∈ allDeclarations bodies, ∃ part,
    entry.2.lower (path.child entry.1) = .ok part
  fields : lowered.fields = (allDeclarations bodies).flatMap fun entry =>
    notedFields (entry.2.lower (path.child entry.1))

theorem lastCounts_of_lowerAll (distinct : ∀ body ∈ bodies,
    OrderedMap.Distinct body.attributes ∧ OrderedMap.Distinct body.blocks)
    (succeeded : (lowerAll bodies path).result = .ok lowered) : LastCounts bodies path lowered := by
  have attributes (body : Body) (member : body ∈ bodies) := (distinct body member).1
  have loweredAt := loweredAt_of_lowerAll attributes succeeded
  refine ⟨keys_of_lowerAll attributes succeeded, ?_, loweredAt.succeeds, loweredAt.fields⟩
  intro key declares
  obtain ⟨body, last⟩ := exists_lastToDeclare declares
  have member : body ∈ bodies := by
    obtain ⟨before, after, rfl, -⟩ := last
    simp
  obtain ⟨declaration, declared, survives⟩ :=
    survivor?_of_last last (distinct body member).1 (distinct body member).2
  obtain ⟨part, lowers⟩ := loweredAt.succeeds _ (survivor?_mem survives)
  exact ⟨body, declaration, part, last, declared, lowers, by
    simp [loweredAt.member, survives, lowers, Except.toOption]⟩

/-- The last body once more writes nothing new. -/
theorem lowerAll_again {last : Body}
    (succeeded : (lowerAll (bodies ++ [last]) path).result = .ok lowered) : ∃ again,
      (lowerAll (bodies ++ [last] ++ [last]) path).result = .ok again ∧
        again.value = lowered.value := by
  obtain ⟨first, second, -, lowersLast, overlaid⟩ := lowerAll_append_iff.mp succeeded
  have distinct := distinct_of_lowerAll succeeded
  have distinctLast := distinct_of_lowerAll lowersLast
  have twice : Lowered.Overlay lowered second (lowered.overlay second) :=
    (Lowered.overlay_iff distinct distinctLast).mp rfl
  refine ⟨lowered.overlay second, lowerAll_append_iff.mpr
    ⟨lowered, second, succeeded, lowersLast, twice⟩, ?_⟩
  have nothing : (OrderedMap.keys second.value).removeAll (OrderedMap.keys lowered.value) = [] := by
    rw [List.removeAll, List.filter_eq_nil_iff]
    intro key member
    have known : key ∈ OrderedMap.keys lowered.value := by
      rw [overlaid.keys, List.mem_eraseDups]
      exact List.mem_append_right _ member
    simpa using known
  have keys : OrderedMap.keys (lowered.overlay second).value =
      OrderedMap.keys lowered.value := by
    rw [twice.keys, List.eraseDups_append, nothing, OrderedMap.eraseDups_of_nodup distinct,
      List.eraseDups_nil, List.append_nil]
  refine OrderedMap.eq_of_get? ?_ keys fun key => ?_
  · rw [OrderedMap.Distinct, keys]
    exact distinct
  · rw [twice.member, overlaid.member]
    cases OrderedMap.get? key second.value <;> rfl

/-- Of the declarations of a name the last one counts, and all of them are lowered and noted. So
bodies that come later are written over those before them, and the last body written again changes
no member. -/
theorem last_declaration_counts (bodies : List Body) (path : Path)
    (distinct : ∀ body ∈ bodies,
      OrderedMap.Distinct body.attributes ∧ OrderedMap.Distinct body.blocks) :
    (∀ lowered, (lowerAll bodies path).result = .ok lowered → LastCounts bodies path lowered) ∧
    (∀ later merged, (lowerAll (bodies ++ later) path).result = .ok merged ↔
      ∃ first second, (lowerAll bodies path).result = .ok first ∧
        (lowerAll later path).result = .ok second ∧ Lowered.Overlay first second merged) ∧
    ∀ earlier last lowered, bodies = earlier ++ [last] →
      (lowerAll bodies path).result = .ok lowered → ∃ again,
        (lowerAll (bodies ++ [last]) path).result = .ok again ∧ again.value = lowered.value := by
  refine ⟨fun lowered => lastCounts_of_lowerAll distinct, fun later merged => lowerAll_append_iff,
    fun earlier last lowered split succeeded => ?_⟩
  subst split
  exact lowerAll_again succeeded

def redeclared : List Body :=
  [{ attributes := [("zone", { isComputed := true }), ("size", .optional [.number])]
     blocks := [("zone", {
       blockType := .object
       body := some { attributes := [("name", { isComputed := true })] } })] },
    { attributes := [("disk", .optional [.string]), ("size", { isComputed := true })] }]

theorem redeclared_last_counts : ∃ lowered last,
    (∀ body ∈ redeclared,
      OrderedMap.Distinct body.attributes ∧ OrderedMap.Distinct body.blocks) ∧
    (lowerAll redeclared ⟨["host"]⟩).result = .ok lowered ∧
    OrderedMap.keys lowered.value = ["zone", "size", "disk"] ∧
    lowered.fields = [⟨true, ["host", "zone"]⟩, ⟨true, ["host", "zone", "name"]⟩,
      ⟨true, ["host", "size"]⟩] ∧
    LastCounts redeclared ⟨["host"]⟩ lowered ∧
    redeclared.getLast? = some last ∧
    ∃ again, (lowerAll (redeclared ++ [last]) ⟨["host"]⟩).result = .ok again ∧
      again.value = lowered.value := by
  have distinct : ∀ body ∈ redeclared,
      OrderedMap.Distinct body.attributes ∧ OrderedMap.Distinct body.blocks := by
    simp [redeclared]
  obtain ⟨counts, -, again⟩ := last_declaration_counts redeclared ⟨["host"]⟩ distinct
  exact ⟨_, _, distinct, rfl, rfl, rfl, counts _ rfl, rfl, again [_] _ _ rfl rfl⟩

end Body

end ConfigContract
