import ConfigContract.Proofs.Lowering.Expansion
import ConfigContract.Proofs.Lowering.Nesting
import ConfigContract.Proofs.Lowering.Noted

/-!
Catch-all attributes, and where below some bodies the content of a dictionary comes from one that is
noted as computed.
-/

namespace ConfigContract

mutual

/-- Whether segments lead from bodies to the content of a dictionary that a computed catch-all
attribute stands for. -/
inductive Body.CatchAllAt : List Body → List String → Prop
  | inBlock {bodies : List Body} {key : String} {block : Block} {rest : List String}
      (survives : Body.survivor? bodies key = some (.block block))
      (inside : Block.CatchAllAt block rest) : Body.CatchAllAt bodies (key :: rest)

inductive Block.CatchAllAt : Block → List String → Prop
  | own {block : Block} {declared : Attribute} (catchAll : block.catchAll? = some declared)
      (computed : declared.isComputed = true) (free : declared.isRequired = false) :
      Block.CatchAllAt block [Path.anyLabel]
  | finished {block : Block} {tuple rest : List String} (noCatchAll : block.catchAll? = none)
      (label : tuple ∈ block.tuples) (inside : Body.CatchAllAt (block.bodiesFor tuple) rest) :
      Block.CatchAllAt block (tuple ++ rest)

end

def Declaration.CatchAllAt : Declaration → List String → Prop
  | .plain _ => noCatchAll
  | .block nested => nested.CatchAllAt

theorem Body.not_catchAllAt_nil (bodies : List Body) : ¬ Body.CatchAllAt bodies [] := nofun

theorem Body.catchAllAt_cons {bodies : List Body} {key : String} {rest : List String}
    {declaration : Declaration} (survives : survivor? bodies key = some declaration) :
    CatchAllAt bodies (key :: rest) ↔ declaration.CatchAllAt rest := by
  constructor
  · rintro ⟨nested, inside⟩
    cases survives.symm.trans nested
    exact inside
  · intro inside
    cases declaration with
    | plain declared => exact inside.elim
    | block nested => exact Body.CatchAllAt.inBlock survives inside

namespace Block

variable {block : Block}

theorem catchAllAt_own {declared : Attribute} (catchAll : block.catchAll? = some declared)
    {segments : List String} : block.CatchAllAt segments ↔
      segments = [Path.anyLabel] ∧ declared.isComputed = true ∧ declared.isRequired = false := by
  constructor
  · intro inside
    cases inside with
    | own same computed free =>
        cases catchAll.symm.trans same
        exact ⟨rfl, computed, free⟩
    | finished noCatchAll => simp [catchAll] at noCatchAll
  · rintro ⟨rfl, computed, free⟩
    exact .own catchAll computed free

theorem length_le_of_catchAllAt (noCatchAll : block.catchAll? = none) {segments : List String}
    (inside : block.CatchAllAt segments) : block.labels.length ≤ segments.length := by
  cases inside with
  | own catchAll => simp [noCatchAll] at catchAll
  | finished _ label => simp [length_of_mem_tuples label]

theorem catchAllAt_tuple (noCatchAll : block.catchAll? = none) {tuple rest : List String}
    (label : tuple ∈ block.tuples) :
    block.CatchAllAt (tuple ++ rest) ↔ Body.CatchAllAt (block.bodiesFor tuple) rest := by
  constructor
  · generalize joined : tuple ++ rest = segments
    intro inside
    cases inside with
    | own catchAll => simp [noCatchAll] at catchAll
    | finished _ other inside =>
        have sameLength := (length_of_mem_tuples label).trans (length_of_mem_tuples other).symm
        obtain ⟨rfl, rfl⟩ := List.append_inj joined sameLength
        exact inside
  · exact .finished noCatchAll label

theorem lower_of_catchAll {declared : Attribute} {path : Path} {lowered : Lowered Member}
    (catchAll : block.catchAll? = some declared)
    (succeeded : (block.lower path).result = .ok lowered) :
    lowered = ⟨.container (block.description.getD "")
      (.dictionary (declared.lower path.wildcard).value.type),
        (declared.lower path.wildcard).fields⟩ := by
  obtain ⟨description, labels, blockType, minItems, maxItems, body, dependents⟩ := block
  obtain ⟨⟨_, attributes, blocks, anyAttribute⟩, rfl, rfl⟩ := Option.bind_eq_some_iff.mp catchAll
  simp only [Block.lower, lowerCatchAll] at succeeded
  split at succeeded
  next outcome alone =>
    split at alone
    next =>
      cases alone
      cases succeeded
      rfl
    next =>
      cases alone
      simp at succeeded
  next alone => split at alone <;> simp at alone

end Block

theorem Attribute.lower_computed (declared : Attribute) (path : Path) :
    (declared.lower path).value.computed = true ↔
      (declared.lower path).value.type.isList = false ∧
        declared.isComputed = true ∧ declared.isRequired = false := by
  rw [Attribute.lower_eq, memberOf]
  split
  next list => simp [list]
  next single => simp [single, classify]

variable {literal : Json → Prop}

/-- A catch-all notes what its attribute notes, with the content of the dictionary in the place of
the attribute. -/
theorem Block.faithful_catchAll {block : Block} {declared : Attribute} {path : Path}
    {lowered : Lowered Member} (wellFormed : block.WellFormed literal)
    (catchAll : block.catchAll? = some declared)
    (succeeded : (block.lower path).result = .ok lowered) :
    Faithful path (.member lowered.value) block.CatchAllAt lowered.fields := by
  have built := lower_of_catchAll catchAll succeeded
  have plain : lowered.value.computed = false := by rw [built]; rfl
  have type : lowered.value.type = .dictionary (declared.lower path.wildcard).value.type := by
    rw [built]; rfl
  have fields : lowered.fields = (declared.lower path.wildcard).fields := by rw [built]
  obtain ⟨body, own, accepts⟩ := Option.bind_eq_some_iff.mp catchAll
  have declaredGood := (wellFormed.body own).anyAttribute accepts
  have faithful := declared.faithful_lower declaredGood path.wildcard
  have part : (Spot.member lowered.value).follow? [Path.anyLabel] =
      some (.content (declared.lower path.wildcard).value.type) := by
    simp [type, ContractType.part?]
  have branches : lowered.fields = [([Path.anyLabel], lowered.fields)].flatMap Prod.snd := by simp
  rw [branches]
  refine ⟨sound_branches fun branch branchMem _ => ?_,
    complete_branches fun segments last followed noted => ?_, ?_⟩
  · cases List.mem_singleton.mp branchMem
    refine ⟨_, part, ?_⟩
    rw [fields]
    refine faithful.sound.transfer rfl (fun notList noted => ⟨notList, ?_⟩) fun _ _ => False.elim
    have computed : (declared.lower path.wildcard).value.computed = true := noted
    exact (catchAllAt_own catchAll).mpr ⟨rfl, ((declared.lower_computed _).mp computed).2⟩
  · cases segments with
    | nil =>
        cases followed
        refine absurd noted (Spot.not_noted plain fun inside => ?_)
        simp [catchAllAt_own catchAll] at inside
    | cons segment rest =>
        have same : segment = Path.anyLabel := by
          obtain ⟨next, found, -⟩ := Option.bind_eq_some_iff.mp followed
          simp only [Spot.type_member, type, ContractType.part?,
            Option.ite_none_right_eq_some] at found
          exact found.1
        subst same
        refine ⟨_, List.mem_singleton_self _, rest, _, rfl, part, ?_⟩
        rw [fields]
        refine faithful.complete.transfer rfl (fun noted => ?_) fun key rest inside => ?_
        · have computed := (catchAllAt_own catchAll).mp noted.2
          exact (declared.lower_computed _).mpr ⟨noted.1, computed.2⟩
        · simp [catchAllAt_own catchAll] at inside
  · rw [← branches, fields]
    exact faithful.unique

end ConfigContract
