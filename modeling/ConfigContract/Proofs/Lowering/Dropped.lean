import ConfigContract.Proofs.Lowering.CatchAll
import ConfigContract.Proofs.Lowering.Outcome

/-!
Catch-alls, and what lowering does with them: one that is all there is to a block makes the block a
dictionary. Any other is dropped, or the labels and the dependent bodies beside it are, and nothing
is left of them in the result.
-/

namespace ConfigContract

/-! Bodies that take part -/

inductive Role where
  | root
  | own (place : Path) (block : Block)
  | selected (place : Path) (block : Block) (tuple : List String)

namespace Body

inductive TakesPart (bodies : List Body) : Role → Body → Prop
  | root {body : Body} (member : body ∈ bodies) : TakesPart bodies .root body
  | own {place : Path} {block : Block} {body : Body} (reaches : Reaches bodies .root place block)
      (declares : block.body = some body) : TakesPart bodies (.own place block) body
  | selected {place : Path} {block : Block} {tuple : List String} {body : Body}
      (reaches : Reaches bodies .root place block) (label : tuple ∈ block.resolutions)
      (selects : body ∈ block.selectedFrom 0 block.labels tuple) :
      TakesPart bodies (.selected place block tuple) body

/-- The body is nothing but a catch-all and all there is to its block, which becomes the dictionary
of the catch-all's type. -/
def StandsAlone (body : Body) (declared : Attribute) (role : Role) : Prop :=
  body.attributes = [] ∧ body.blocks = [] ∧ ∃ place block lowered,
    role = .own place block ∧ block.labels = [] ∧ block.dependents = [] ∧
    (block.lower place).result = .ok lowered ∧
    lowered.value.type = .dictionary (declared.lower place.wildcard).value.type

def CatchAllsAlone (bodies : List Body) : Prop :=
  ∀ role body declared, TakesPart bodies role body → body.anyAttribute = some declared →
    body.StandsAlone declared role

/-- Lowering drops the catch-all of a root body or of a selected one, and whatever labels and
dependent bodies stand beside the catch-all of a block. -/
inductive Drops (bodies : List Body) : Prop
  | root {body : Body} (member : body ∈ bodies) (catchAll : body.anyAttribute.isSome)
  | selected {place : Path} {block : Block} {tuple : List String} {body : Body}
      (reaches : Reaches bodies .root place block) (label : tuple ∈ block.resolutions)
      (selects : body ∈ block.selectedFrom 0 block.labels tuple)
      (catchAll : body.anyAttribute.isSome)
  | beside {place : Path} {block : Block} (reaches : Reaches bodies .root place block)
      (catchAll : block.catchAll?.isSome) (more : block.labels ≠ [] ∨ block.dependents ≠ [])

theorem Reaches.faults_eq_nil {bodies : List Body} {path place : Path} {block : Block}
    (reaches : Reaches bodies path place block) (clean : faults bodies path = []) :
    block.faults place = [] := by
  have declared {bodies : List Body} {path : Path} {key : String} {block : Block}
      (clean : faults bodies path = []) (declares : (key, block) ∈ bodies.flatMap blocks) :
      block.faults (path.child key) = [] := by
    rw [faults, visits, List.flatMap_assoc, List.flatMap_eq_nil_iff] at clean
    exact clean (key, block) declares
  induction reaches with
  | declared declares => exact declared clean declares
  | inside declares label _ ih =>
      have outer := declared clean declares
      rw [Block.faults_eq, List.append_eq_nil_iff, List.flatMap_eq_nil_iff] at outer
      exact ih (List.append_eq_nil_iff.mp (outer.2 _ label)).2

end Body

namespace Block

variable {block : Block} {place : Path}

theorem alone_of_clean {body : Body} {declared : Attribute} (own : block.body = some body)
    (catchAll : body.anyAttribute = some declared) (clean : block.faults place = []) :
    body.attributes = [] ∧ body.blocks = [] ∧ ∃ lowered, (block.lower place).result = .ok lowered ∧
      lowered.value.type = .dictionary (declared.lower place.wildcard).value.type := by
  have accepts : block.catchAll? = some declared := by simp [catchAll?, own, catchAll]
  obtain ⟨lowered, lowers⟩ := (block.reports place).ok_iff.mpr clean
  have unmixed : ¬ block.mixesCatchAll = true := by
    rw [faults_eq, List.append_eq_nil_iff] at clean
    intro mixes
    simp [Visit.faults, mixes] at clean
  simp only [mixesCatchAll, own, Option.any_some, catchAll, Option.isSome_some, Bool.true_and,
    Bool.not_eq_true', Bool.not_eq_false, Bool.and_eq_true, List.isEmpty_iff] at unmixed
  refine ⟨unmixed.1, unmixed.2, lowered, lowers, ?_⟩
  rw [lower_of_catchAll accepts lowers]
  rfl

end Block

namespace Body

/-- In bodies without a fault the catch-alls stand alone unless something is dropped. -/
theorem catchAllsAlone_iff {bodies : List Body} (clean : faults bodies .root = []) :
    CatchAllsAlone bodies ↔ ¬ Drops bodies := by
  constructor
  · intro alone drops
    cases drops with
    | @root body member catchAll =>
        obtain ⟨declared, accepts⟩ := Option.isSome_iff_exists.mp catchAll
        obtain ⟨-, -, place, block, lowered, same, -⟩ := alone _ _ _ (.root member) accepts
        cases same
    | selected reaches label selects catchAll =>
        obtain ⟨declared, accepts⟩ := Option.isSome_iff_exists.mp catchAll
        obtain ⟨-, -, place, block, lowered, same, -⟩ :=
          alone _ _ _ (.selected reaches label selects) accepts
        cases same
    | beside reaches catchAll more =>
        obtain ⟨declared, accepts⟩ := Option.isSome_iff_exists.mp catchAll
        obtain ⟨body, own, accepts⟩ := Option.bind_eq_some_iff.mp accepts
        obtain ⟨-, -, place, block, lowered, same, bare, single, -⟩ :=
          alone _ _ _ (.own reaches own) accepts
        cases same
        exact more.elim (absurd bare) (absurd single)
  · intro kept role body declared takes accepts
    have catchAll : body.anyAttribute.isSome := by simp [accepts]
    cases takes with
    | root member => exact absurd (.root member catchAll) kept
    | selected reaches label selects =>
        exact absurd (.selected reaches label selects catchAll) kept
    | @own place block _ reaches own =>
        have isCatchAll : block.catchAll?.isSome := by simp [Block.catchAll?, own, catchAll]
        obtain ⟨bare, single, lowered, lowers, type⟩ :=
          Block.alone_of_clean own accepts (reaches.faults_eq_nil clean)
        refine ⟨bare, single, place, block, lowered, rfl, ?_, ?_, lowers, type⟩
        · exact Decidable.byContradiction fun more =>
            kept (.beside reaches isCatchAll (.inl more))
        · exact Classical.byContradiction fun more =>
            kept (.beside reaches isCatchAll (.inr more))

end Body

/-! What is dropped leaves no trace -/

mutual

def Body.pruned : Body → Body
  | ⟨description, attributes, blocks, _⟩ => ⟨description, attributes, prunedBlocks blocks, none⟩

def prunedBlocks : List (String × Block) → List (String × Block)
  | [] => []
  | (key, block) :: rest => (key, block.pruned) :: prunedBlocks rest

def Block.pruned : Block → Block
  | ⟨description, labels, blockType, minItems, maxItems, body, dependents⟩ =>
      if (body.bind Body.anyAttribute).isSome then
        ⟨description, [], blockType, minItems, maxItems, body, []⟩
      else
        ⟨description, labels, blockType, minItems, maxItems, prunedOwn body,
          prunedDependents dependents⟩

def prunedOwn : Option Body → Option Body
  | none => none
  | some body => some body.pruned

def prunedDependents : List DependentBody → List DependentBody
  | [] => []
  | ⟨keys, body⟩ :: rest => ⟨keys, body.pruned⟩ :: prunedDependents rest

end

theorem Body.description_pruned (body : Body) : body.pruned.description = body.description := by
  cases body
  rfl

theorem Body.anyAttribute_pruned (body : Body) : body.pruned.anyAttribute = none := by
  cases body
  rfl

theorem bind_prunedOwn (body : Option Body) : (prunedOwn body).bind Body.anyAttribute = none := by
  cases body with
  | none => rfl
  | some body => exact body.anyAttribute_pruned

mutual

theorem Body.lower_pruned : ∀ (body : Body) (path : Path), body.pruned.lower path = body.lower path
  | ⟨_, attributes, blocks, _⟩, path => by
      simp only [Body.pruned, Body.lower, lowerBlocks_pruned blocks]

theorem lowerBlocks_pruned : ∀ (blocks : List (String × Block)) (path : Path)
    (merged : Lowered Members),
    lowerBlocks (prunedBlocks blocks) path merged = lowerBlocks blocks path merged
  | [], _, _ => rfl
  | (key, block) :: rest, path, merged => by
      simp only [prunedBlocks, lowerBlocks, block.lower_pruned, lowerBlocks_pruned rest]

theorem Block.lower_pruned : ∀ (block : Block) (path : Path),
    block.pruned.lower path = block.lower path
  | ⟨description, labels, blockType, minItems, maxItems, body, dependents⟩, path => by
      unfold Block.pruned
      split
      next catchAll =>
        -- with a catch-all neither the labels nor the dependent bodies are looked at
        obtain ⟨declared, accepts⟩ := Option.isSome_iff_exists.mp catchAll
        obtain ⟨⟨_, attributes, blocks, _⟩, rfl, rfl⟩ := Option.bind_eq_some_iff.mp accepts
        simp only [Block.lower, lowerCatchAll]
        cases attributes.isEmpty && blocks.isEmpty <;> rfl
      next noCatchAll =>
        have own := Block.lowerCatchAll_eq_none (Option.not_isSome_iff_eq_none.mp noCatchAll)
        have pruned := Block.lowerCatchAll_eq_none (bind_prunedOwn body)
        simp only [Block.lower, own, pruned, ownParts_pruned body, dependentParts_pruned dependents]

theorem ownParts_pruned : ∀ body : Option Body, ownParts (prunedOwn body) = ownParts body
  | none => rfl
  | some body => by
      simp only [prunedOwn, ownParts, body.description_pruned, body.lower_pruned]

theorem dependentParts_pruned : ∀ dependents : List DependentBody,
    dependentParts (prunedDependents dependents) = dependentParts dependents
  | [] => rfl
  | ⟨keys, body⟩ :: rest => by
      simp only [prunedDependents, dependentParts, body.description_pruned, body.lower_pruned,
        dependentParts_pruned rest]

end

theorem Contract.ofBodies_pruned (bodies : List Body) :
    ofBodies (bodies.map Body.pruned) = ofBodies bodies := by
  have part (body : Body) : body.pruned.part = body.part := by
    simp only [Body.part, body.description_pruned, funext body.lower_pruned]
  have lowers : Body.lowerAll (bodies.map Body.pruned) = Body.lowerAll bodies := by
    funext path
    simp only [Body.lowerAll, List.map_map, Function.comp_def, part]
  rw [ofBodies, ofBodies, lowers, List.length_map]

/-! Nothing is dropped from pruned bodies -/

theorem prunedBlocks_eq (blocks : List (String × Block)) :
    prunedBlocks blocks = blocks.map fun entry => (entry.1, entry.2.pruned) := by
  induction blocks with
  | nil => rfl
  | cons entry rest ih => rw [prunedBlocks, ih, List.map_cons]

theorem prunedDependents_eq (dependents : List DependentBody) :
    prunedDependents dependents =
      dependents.map fun dependent => ⟨dependent.keys, dependent.body.pruned⟩ := by
  induction dependents with
  | nil => rfl
  | cons dependent rest ih =>
      obtain ⟨keys, body⟩ := dependent
      rw [prunedDependents, ih, List.map_cons]

theorem Body.blocks_pruned (body : Body) : body.pruned.blocks = prunedBlocks body.blocks := by
  cases body
  rfl

def Body.IsPruned (body : Body) : Prop := ∃ original, Body.pruned original = body

def Block.IsPruned (block : Block) : Prop := ∃ original, Block.pruned original = block

namespace Block

variable {block : Block}

theorem IsPruned.bare (pruned : block.IsPruned) (catchAll : block.catchAll?.isSome) :
    block.labels = [] ∧ block.dependents = [] := by
  obtain ⟨⟨description, labels, blockType, minItems, maxItems, body, dependents⟩, rfl⟩ := pruned
  unfold Block.pruned at catchAll ⊢
  split
  next => exact ⟨rfl, rfl⟩
  next noCatchAll => simp [noCatchAll, catchAll?, bind_prunedOwn] at catchAll

theorem IsPruned.body (pruned : block.IsPruned) (noCatchAll : block.catchAll? = none) {body : Body}
    (declares : block.body = some body ∨ ∃ dependent ∈ block.dependents, dependent.body = body) :
    body.IsPruned := by
  obtain ⟨⟨description, labels, blockType, minItems, maxItems, own, dependents⟩, rfl⟩ := pruned
  unfold Block.pruned at noCatchAll declares
  split at declares
  next catchAll =>
    rw [if_pos catchAll] at noCatchAll
    exact absurd catchAll (by simpa [catchAll?] using noCatchAll)
  next =>
    simp only [prunedDependents_eq, List.mem_map] at declares
    rcases declares with here | ⟨_, ⟨dependent, -, rfl⟩, rfl⟩
    · cases own with
      | none => simp [prunedOwn] at here
      | some original => exact ⟨original, Option.some.inj here⟩
    · exact ⟨dependent.body, rfl⟩

end Block

namespace Body

theorem Reaches.isPruned {bodies : List Body} {path place : Path} {block : Block}
    (reaches : Reaches bodies path place block) (pruned : ∀ body ∈ bodies, body.IsPruned) :
    block.IsPruned := by
  have declared {bodies : List Body} {key : String} {block : Block}
      (pruned : ∀ body ∈ bodies, body.IsPruned) (declares : (key, block) ∈ bodies.flatMap blocks) :
      block.IsPruned := by
    obtain ⟨body, member, listed⟩ := List.mem_flatMap.mp declares
    obtain ⟨original, rfl⟩ := pruned body member
    rw [blocks_pruned, prunedBlocks_eq] at listed
    obtain ⟨entry, -, same⟩ := List.mem_map.mp listed
    cases same
    exact ⟨entry.2, rfl⟩
  induction reaches with
  | declared declares => exact declared pruned declares
  | inside declares label _ ih =>
      have noCatchAll := (Block.mem_resolutions.mp label).1
      exact ih fun body member =>
        (declared pruned declares).body noCatchAll (Block.mem_bodiesFor member)

theorem not_drops_pruned (bodies : List Body) : ¬ Drops (bodies.map pruned) := by
  have roots : ∀ body ∈ bodies.map pruned, body.IsPruned := by
    intro body member
    obtain ⟨original, -, same⟩ := List.mem_map.mp member
    exact ⟨original, same⟩
  have without {body : Body} (isPruned : body.IsPruned) : ¬ body.anyAttribute.isSome := by
    obtain ⟨original, rfl⟩ := isPruned
    simp [original.anyAttribute_pruned]
  intro drops
  cases drops with
  | root member catchAll => exact without (roots _ member) catchAll
  | selected reaches label selects catchAll =>
      have noCatchAll := (Block.mem_resolutions.mp label).1
      have selected := (reaches.isPruned roots).body noCatchAll
        (.inr (Block.mem_selectedFrom selects))
      exact without selected catchAll
  | beside reaches catchAll more =>
      obtain ⟨bare, single⟩ := (reaches.isPruned roots).bare catchAll
      exact more.elim (absurd bare) (absurd single)

end Body

namespace Contract

/-- Where bodies lower, their catch-alls stand alone unless lowering drops something; the contract
is always that of bodies from which that is missing, and in those they stand alone. -/
theorem catchAlls_alone_iff (bodies : List Body) (contract : Contract)
    (succeeded : (ofBodies bodies).result = .ok contract) :
    (Body.CatchAllsAlone bodies ↔ ¬ Body.Drops bodies) ∧
    ofBodies (bodies.map Body.pruned) = ofBodies bodies ∧
    Body.CatchAllsAlone (bodies.map Body.pruned) := by
  have clean {bodies : List Body} (succeeded : (ofBodies bodies).result = .ok contract) :
      Body.faults bodies .root = [] := by
    obtain ⟨lowered, lowers, -⟩ := ofBodies_ok succeeded
    exact (Body.reports_lowerAll bodies .root).ok_iff.mp ⟨lowered, lowers⟩
  have same := ofBodies_pruned bodies
  have prunedClean := clean (same ▸ succeeded)
  exact ⟨Body.catchAllsAlone_iff (clean succeeded), same,
    (Body.catchAllsAlone_iff prunedClean).mpr (Body.not_drops_pruned bodies)⟩

def sole : List Body :=
  [{ blocks := [
      ("locals", { body := some { anyAttribute := some (.optional [.number]) } }),
      ("output", {
        labels := [⟨"name", none, false⟩]
        body := some { attributes := [("value", .required [.dynamic])] } })] }]

theorem sole_catchAlls_alone : ∃ contract block body,
    (ofBodies sole).result = .ok contract ∧
    Body.TakesPart sole (.own ⟨["locals"]⟩ block) body ∧
    body.anyAttribute = some (.optional [.number]) ∧
    Body.CatchAllsAlone sole ∧ ¬ Body.Drops sole := by
  obtain ⟨unlessDropped, -, alone⟩ := catchAlls_alone_iff sole _ rfl
  have declares : ("locals", _) ∈ sole.flatMap Body.blocks := List.mem_cons_self
  exact ⟨_, _, _, rfl, .own (.declared declares) rfl, rfl, alone, unlessDropped.mp alone⟩

def anyBeside : List Body :=
  [{ attributes := [("x", .optional [.string])], anyAttribute := some (.optional [.string]) }]

/-- The contract knows the attribute only. -/
theorem anyBeside_drops_catchAll : ∃ contract,
    (ofBodies anyBeside).result = .ok contract ∧ OrderedMap.keys contract.schema = ["x"] ∧
    ¬ Body.CatchAllsAlone anyBeside := by
  refine ⟨_, rfl, rfl, fun alone => ?_⟩
  obtain ⟨nothing, -⟩ := alone .root _ _ (.root List.mem_cons_self) rfl
  cases nothing

end Contract

end ConfigContract
