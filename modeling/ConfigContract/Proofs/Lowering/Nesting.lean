import ConfigContract.Proofs.Lowering.Declaration
import ConfigContract.Proofs.Lowering.Labels
import ConfigContract.Proofs.Schema.WellFormed

/-!
Bodies inside bodies: those that a block brings together at a label tuple are smaller than the body
that declares the block, which makes an induction over bodies, and they are as well-formed as it.
-/

namespace ConfigContract

variable {literal : Json → Prop}

namespace Declaration

def WellFormed (literal : Json → Prop) : Declaration → Prop
  | .plain declared => declared.WellFormed literal
  | .block nested => nested.WellFormed literal

end Declaration

namespace Block

theorem mem_selectedFrom {block : Block} {index : Nat} {labels : List Label}
    {tuple : List String} {body : Body} (selected : body ∈ block.selectedFrom index labels tuple) :
    ∃ dependent ∈ block.dependents, dependent.body = body := by
  induction labels generalizing index tuple with
  | nil => simp [selectedFrom] at selected
  | cons label labels ih =>
      cases tuple with
      | nil => simp [selectedFrom] at selected
      | cons segment rest =>
          rcases List.mem_append.mp selected with here | later
          · unfold selectedAt at here
            split at here
            next =>
              obtain ⟨dependent, found, same⟩ :=
                Option.map_eq_some_iff.mp (Option.mem_toList.mp here)
              exact ⟨dependent, List.mem_reverse.mp (List.mem_of_find?_eq_some found), same⟩
            next => simp at here
          · exact ih later

theorem mem_bodiesFor {block : Block} {tuple : List String} {body : Body}
    (member : body ∈ block.bodiesFor tuple) :
    block.body = some body ∨ ∃ dependent ∈ block.dependents, dependent.body = body := by
  rcases List.mem_append.mp member with own | selected
  · exact .inl (by simpa using own)
  · exact .inr (mem_selectedFrom selected)

theorem sizeOf_body {block : Block} {body : Body}
    (declares : block.body = some body ∨ ∃ dependent ∈ block.dependents, dependent.body = body) :
    sizeOf body < sizeOf block := by
  cases block with
  | mk description labels blockType minItems maxItems own dependents =>
      rw [Block.mk.sizeOf_spec]
      rcases declares with here | ⟨dependent, dependentMem, rfl⟩
      · cases here
        simp only [Option.some.sizeOf_spec]
        omega
      · have smaller : sizeOf dependent < sizeOf dependents := List.sizeOf_lt_of_mem dependentMem
        have inside : sizeOf dependent.body < sizeOf dependent := by
          cases dependent
          simp only [DependentBody.mk.sizeOf_spec]
          omega
        omega

theorem sizeOf_bodiesFor {block : Block} {tuple : List String} {body : Body}
    (member : body ∈ block.bodiesFor tuple) : sizeOf body < sizeOf block :=
  sizeOf_body (mem_bodiesFor member)

theorem WellFormed.bodiesFor {block : Block} (wellFormed : block.WellFormed literal)
    (tuple : List String) : ∀ body ∈ block.bodiesFor tuple, body.WellFormed literal := by
  intro body member
  rcases mem_bodiesFor member with own | ⟨dependent, dependentMem, rfl⟩
  · exact wellFormed.body own
  · exact wellFormed.dependent dependentMem

end Block

namespace Body

theorem mem_declarations {body : Body} {key : String} {declaration : Declaration}
    (member : (key, declaration) ∈ body.declarations) :
    (∃ declared, (key, declared) ∈ body.attributes ∧ declaration = .plain declared) ∨
      ∃ block, (key, block) ∈ body.blocks ∧ declaration = .block block := by
  simp only [declarations, OrderedMap.mapValues, List.mem_append, List.mem_map] at member
  rcases member with ⟨⟨name, declared⟩, listed, same⟩ | ⟨⟨name, block⟩, listed, same⟩
  · cases same
    exact .inl ⟨declared, listed, rfl⟩
  · cases same
    exact .inr ⟨block, listed, rfl⟩

theorem mem_allDeclarations {bodies : List Body} {entry : String × Declaration} :
    entry ∈ allDeclarations bodies ↔ ∃ body ∈ bodies, entry ∈ body.declarations :=
  List.mem_flatMap

theorem wellFormed_declaration {bodies : List Body}
    (wellFormed : ∀ body ∈ bodies, body.WellFormed literal)
    {key : String} {declaration : Declaration}
    (member : (key, declaration) ∈ allDeclarations bodies) : declaration.WellFormed literal := by
  obtain ⟨body, bodyMem, declares⟩ := mem_allDeclarations.mp member
  rcases mem_declarations declares with ⟨declared, listed, rfl⟩ | ⟨block, listed, rfl⟩
  · exact (wellFormed body bodyMem).attribute listed
  · exact (wellFormed body bodyMem).block listed

theorem sizeOf_block {body : Body} {key : String} {block : Block}
    (member : (key, block) ∈ body.blocks) : sizeOf block < sizeOf body := by
  have smaller := List.sizeOf_lt_of_mem member
  cases body
  simp only [Prod.mk.sizeOf_spec, Body.mk.sizeOf_spec] at smaller ⊢
  omega

/-- A walk that recurses into the items of a list comes to each of them. -/
theorem flatMap_attach {α β : Type} (items : List α) (f : α → List β) :
    (items.attach.flatMap fun item => f item.1) = items.flatMap f := by
  rw [← List.flatMap_map Subtype.val f, List.attach_map_subtype_val]

/-- What holds of bodies when it holds of those inside their blocks holds of all bodies. -/
theorem nested_induction {motive : List Body → Prop}
    (step : ∀ bodies, (∀ key block, (key, .block block) ∈ allDeclarations bodies →
      ∀ tuple, motive (block.bodiesFor tuple)) → motive bodies) (bodies : List Body) :
    motive bodies := by
  have bounded (size : Nat) : ∀ bodies : List Body, (∀ body ∈ bodies, sizeOf body < size) →
      motive bodies := by
    induction size with
    | zero =>
        intro bodies small
        refine step bodies fun key block member => ?_
        obtain ⟨body, bodyMem, -⟩ := mem_allDeclarations.mp member
        exact absurd (small body bodyMem) (Nat.not_lt_zero _)
    | succ size ih =>
        intro bodies small
        refine step bodies fun key block member tuple => ih _ fun inner innerMem => ?_
        obtain ⟨body, bodyMem, declares⟩ := mem_allDeclarations.mp member
        rcases mem_declarations declares with ⟨declared, -, other⟩ | ⟨nested, listed, same⟩
        · simp at other
        · cases same
          have inBlock := Block.sizeOf_bodiesFor innerMem
          have inBody := sizeOf_block listed
          have bound := small body bodyMem
          omega
  exact bounded (sizeOf bodies) bodies fun body member => List.sizeOf_lt_of_mem member

/-! Overridden declarations -/

theorem survivor?_mem {bodies : List Body} {key : String} {declaration : Declaration}
    (survives : survivor? bodies key = some declaration) :
    (key, declaration) ∈ allDeclarations bodies :=
  List.mem_reverse.mp (OrderedMap.mem_of_get? survives)

theorem survivor?_of_split {bodies : List Body} {before after : List (String × Declaration)}
    {key : String} {declaration : Declaration}
    (split : allDeclarations bodies = before ++ (key, declaration) :: after) :
    survivor? bodies key =
      if key ∈ OrderedMap.keys after then OrderedMap.get? key after.reverse
      else some declaration := by
  rw [survivor?, split, List.reverse_append, List.reverse_cons, OrderedMap.get?_append,
    OrderedMap.get?_append]
  have reversed : key ∈ OrderedMap.keys after ↔ key ∈ OrderedMap.keys after.reverse := by
    simp [OrderedMap.keys]
  split
  next again =>
    obtain ⟨later, found⟩ := OrderedMap.exists_of_mem_keys (reversed.mp again)
    simp [found]
  next last =>
    have absent := OrderedMap.get?_eq_none_iff.mpr fun listed => last (reversed.mpr listed)
    simp [absent, OrderedMap.get?]

end Body

end ConfigContract
