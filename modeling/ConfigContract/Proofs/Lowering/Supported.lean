import ConfigContract.Proofs.Lowering.Expansion

/-!
Schemas that lower at every path. The only blocks that do not are those declared as maps and those
whose own body has a catch-all beside other declarations.
-/

namespace ConfigContract

/-! All blocks inside a block or a body -/

namespace Block

def bodies (block : Block) : List Body :=
  block.body.toList ++ block.dependents.map DependentBody.body

theorem mem_bodies {block : Block} {body : Body} : body ∈ block.bodies ↔
    block.body = some body ∨ ∃ dependent ∈ block.dependents, dependent.body = body := by
  simp [bodies]

inductive Everywhere (good : Block → Prop) : Block → Prop
  | intro {block : Block} (here : good block)
      (inside : ∀ body ∈ block.bodies, ∀ entry ∈ body.blocks, Everywhere good entry.2) :
      Everywhere good block

variable {good fine : Block → Prop} {block : Block}

theorem Everywhere.here (everywhere : block.Everywhere good) : good block := by
  cases everywhere with
  | intro here _ => exact here

theorem Everywhere.imp (implies : ∀ block, good block → fine block)
    (everywhere : block.Everywhere good) : block.Everywhere fine := by
  induction everywhere with
  | intro here _ ih => exact .intro (implies _ here) ih

end Block

def Body.Everywhere (good : Block → Prop) (body : Body) : Prop :=
  ∀ entry ∈ body.blocks, entry.2.Everywhere good

theorem Block.Everywhere.inside {good : Block → Prop} {block : Block}
    (everywhere : block.Everywhere good) : ∀ body ∈ block.bodies, body.Everywhere good := by
  cases everywhere with
  | intro _ inside => exact inside

/-! Parts of the lowering that cannot fail -/

def Part.Total (part : Part) : Prop := ∀ path, ∃ lowered, (part.lower path).result = .ok lowered

def Block.Total (block : Block) : Prop := ∀ path, ∃ lowered, (block.lower path).result = .ok lowered

theorem exists_lowerBlocks {blocks : List (String × Block)}
    (total : ∀ entry ∈ blocks, entry.2.Total) (path : Path) (merged : Lowered Members) :
    ∃ lowered, (lowerBlocks blocks path merged).result = .ok lowered := by
  induction blocks generalizing merged with
  | nil => exact ⟨merged, rfl⟩
  | cons entry rest ih =>
      obtain ⟨key, block⟩ := entry
      obtain ⟨first, others⟩ := List.forall_mem_cons.mp total
      obtain ⟨member, lowers⟩ := first (path.child key)
      simp only [lowerBlocks, Logged.result_bind, lowers, ok_bind]
      exact ih others _

theorem Body.total_part {body : Body} (total : ∀ entry ∈ body.blocks, entry.2.Total) :
    body.part.Total := by
  obtain ⟨description, attributes, blocks, anyAttribute⟩ := body
  intro path
  exact exists_lowerBlocks total path (lowerAttributes attributes path).toLowered

theorem exists_mergeParts {parts : List Part} (total : ∀ part ∈ parts, part.Total) (path : Path)
    (merged : Lowered Members) :
    ∃ lowered, (mergeParts path parts merged).result = .ok lowered := by
  induction parts generalizing merged with
  | nil => exact ⟨merged, rfl⟩
  | cons part rest ih =>
      obtain ⟨first, others⟩ := List.forall_mem_cons.mp total
      obtain ⟨body, lowers⟩ := first path
      simp only [mergeParts, Logged.result_bind, lowers, ok_bind, Logged.result_tellAll]
      exact ih others _

namespace Frame

theorem exists_finish {frame : Frame} (notMap : frame.blockType ≠ .map) {parts : List Part}
    (total : ∀ part ∈ parts, part.Total) (path : Path) :
    ∃ lowered, (frame.finish path parts).result = .ok lowered := by
  obtain ⟨merged, lowers⟩ := exists_mergeParts total path ⟨[], []⟩
  have resolved : frame.effectiveType path = .object ∨ frame.effectiveType path = .list ∨
      frame.effectiveType path = .set := by
    unfold effectiveType effectiveBlockType
    split
    · simp
    · split
      · split <;> simp
      · cases kind : frame.blockType <;> simp_all
  rcases resolved with kind | kind | kind <;>
    simp [finish, kind, single, listed, Logged.result_bind, lowers]

theorem exists_forEachValue (lower : String → Part → Logged LowerError (Lowered Member))
    {values : OrderedMap String Part}
    (total : ∀ entry ∈ values, ∃ lowered, (lower entry.1 entry.2).result = .ok lowered) :
    ∃ content, (forEachValue lower values).result = .ok content := by
  induction values with
  | nil => exact ⟨_, rfl⟩
  | cons entry rest ih =>
      obtain ⟨⟨member, lowers⟩, others⟩ := List.forall_mem_cons.mp total
      obtain ⟨content, lowersOthers⟩ := ih others
      simp [forEachValue, lowers, lowersOthers]

theorem exists_expand {frame : Frame} (notMap : frame.blockType ≠ .map)
    {choices : List (LabelChoice Part)}
    (choicesTotal : ∀ choice ∈ choices, ∀ entry ∈ choice.values, entry.2.Total)
    {parts : List Part} (total : ∀ part ∈ parts, part.Total) (path : Path) :
    ∃ lowered, (frame.expand choices parts path).result = .ok lowered := by
  induction choices generalizing parts path with
  | nil => exact exists_finish notMap total path
  | cons choice rest ih =>
      obtain ⟨valuesTotal, restTotal⟩ := List.forall_mem_cons.mp choicesTotal
      cases choice with
      | anyValue =>
          obtain ⟨inner, lowers⟩ := ih restTotal total path.wildcard
          simp [expand, lowers]
      | known values =>
          have entriesTotal : ∀ entry ∈ values, ∃ lowered,
              (frame.expand rest (parts ++ [entry.2]) (path.child entry.1)).result =
                .ok lowered := by
            intro entry member
            refine ih restTotal (fun part partMem => ?_) _
            rcases List.mem_append.mp partMem with known | selected
            · exact total part known
            · cases List.mem_singleton.mp selected
              exact valuesTotal entry member
          obtain ⟨content, lowers⟩ := exists_forEachValue
            (fun value part => frame.expand rest (parts ++ [part]) (path.child value))
            entriesTotal
          simp [expand, lowers]

end Frame

/-! Blocks and bodies that lower at every path -/

namespace Block

structure Supported (block : Block) : Prop where
  notMap : block.blockType ≠ .map
  /-- A catch-all of the block's own body stands alone. -/
  alone : ∀ body ∈ block.body, body.anyAttribute.isSome → body.attributes = [] ∧ body.blocks = []

variable {block : Block}

theorem exists_catchAll (supported : block.Supported) {declared : Attribute}
    (catchAll : block.catchAll? = some declared) : block.Total := by
  obtain ⟨description, labels, blockType, minItems, maxItems, body, dependents⟩ := block
  obtain ⟨⟨_, attributes, blocks, anyAttribute⟩, rfl, rfl⟩ := Option.bind_eq_some_iff.mp catchAll
  obtain ⟨rfl, rfl⟩ := supported.alone _ rfl rfl
  exact fun path => ⟨_, rfl⟩

theorem mem_known {index : Nat} {entry : String × Part} (member : entry ∈ block.knownAt index) :
    ∃ body ∈ block.bodies, body.part = entry.2 := by
  have found := OrderedMap.get?_of_mem (block.distinct_knownAt index) member
  rw [get?_knownAt, Option.map_eq_some_iff] at found
  obtain ⟨body, selected, same⟩ := found
  obtain ⟨dependent, carries, rfl⟩ := Option.map_eq_some_iff.mp selected
  have declared := List.mem_reverse.mp (List.mem_of_find?_eq_some carries)
  exact ⟨_, mem_bodies.mpr (.inr ⟨dependent, declared, rfl⟩), same⟩

theorem forall_choices {good : Part → Prop} (parts : ∀ body ∈ block.bodies, good body.part)
    (index : Nat) (labels : List Label) :
    ∀ choice ∈ block.choicesFrom index labels, ∀ entry ∈ choice.values, good entry.2 := by
  induction labels generalizing index with
  | nil => exact nofun
  | cons label rest ih =>
      refine List.forall_mem_cons.mpr ⟨fun entry member => ?_, ih (index + 1)⟩
      split at member
      · obtain ⟨body, bodyMem, same⟩ := mem_known member
        exact same ▸ parts body bodyMem
      · simp [LabelChoice.values] at member

theorem total_of_everywhere (everywhere : block.Everywhere Supported) : block.Total := by
  induction everywhere with
  | @intro block supported _ ih =>
      have partsTotal (body : Body) (member : body ∈ block.bodies) : body.part.Total :=
        Body.total_part (ih body member)
      cases catchAll : block.catchAll? with
      | some declared => exact exists_catchAll supported catchAll
      | none =>
          intro path
          rw [lower_eq_expand block path catchAll]
          refine Frame.exists_expand supported.notMap (forall_choices partsTotal 0 block.labels)
            (fun part member => ?_) path
          obtain ⟨body, own, rfl⟩ := List.mem_map.mp member
          exact partsTotal body (List.mem_append_left _ own)

end Block

theorem Body.exists_lowerAll {bodies : List Body}
    (supported : ∀ body ∈ bodies, body.Everywhere Block.Supported) (path : Path) :
    ∃ lowered, (lowerAll bodies path).result = .ok lowered := by
  refine exists_mergeParts (fun part member => ?_) path ⟨[], []⟩
  obtain ⟨body, bodyMem, rfl⟩ := List.mem_map.mp member
  exact total_part fun entry declared =>
    Block.total_of_everywhere (supported body bodyMem entry declared)

theorem Contract.exists_ofBodies {bodies : List Body}
    (supported : ∀ body ∈ bodies, body.Everywhere Block.Supported) :
    ∃ contract, (ofBodies bodies).result = .ok contract := by
  obtain ⟨lowered, lowers⟩ := Body.exists_lowerAll supported .root
  simp [ofBodies, lowers]

end ConfigContract
