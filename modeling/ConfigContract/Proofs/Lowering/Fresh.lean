import ConfigContract.Proofs.Lowering.Members
import ConfigContract.Proofs.Lowering.Stale
import ConfigContract.Proofs.Lowering.Supported

/-!
Bodies that leave no stale note: those that note nothing, those that declare each name once, and
such a body over one that notes nothing.
-/

namespace ConfigContract

variable {literal : Json → Prop}

namespace Body

def Silent (body : Body) (path : Path) : Prop :=
  ∃ lowered, (lowerAll [body] path).result = .ok lowered ∧ lowered.fields = []

variable {body common own : Body} {bodies : List Body} {path : Path}

theorem Silent.noted (silent : body.Silent path) (wellFormed : body.WellFormed literal)
    {entry : String × Declaration} (declares : entry ∈ body.declarations) :
    notedFields (entry.2.lower (path.child entry.1)) = [] := by
  obtain ⟨lowered, lowers, nothing⟩ := silent
  have only : ∀ other ∈ [body], other.WellFormed literal := by simpa using wellFormed
  rw [(loweredAt only lowers).fields, List.flatMap_eq_nil_iff] at nothing
  exact nothing entry (by simpa [allDeclarations] using declares)

theorem Silent.fresh (silent : body.Silent path) (wellFormed : body.WellFormed literal) :
    ¬ LeavesStale [body] path := by
  intro stale
  obtain ⟨lowered, lowers, nothing⟩ := silent
  have only : ∀ other ∈ [body], other.WellFormed literal := by simpa using wellFormed
  exact (not_settled_of_leavesStale stale only lowers false).1 nothing

/-- What is left stale among bodies that declare each name once is left inside a block. -/
theorem fresh_of_nodup (distinct : (bodies.flatMap names).Nodup)
    (inside : ∀ key block, (key, .block block) ∈ allDeclarations bodies → block.catchAll? = none →
      ∀ tuple ∈ block.tuples, block.effectiveType ((path.child key).descend tuple) = .object →
        ¬ LeavesStale (block.bodiesFor tuple) ((path.child key).descend tuple)) :
    ¬ LeavesStale bodies path := by
  intro stale
  cases stale with
  | replaced split again =>
      rw [← keys_allDeclarations, split, OrderedMap.keys_append, OrderedMap.keys_cons,
        List.nodup_append] at distinct
      exact (List.nodup_cons.mp distinct.2.1).1 again
  | inBlock declares noCatchAll label kept stale =>
      exact inside _ _ declares noCatchAll _ label kept stale

/-- Over a body that notes nothing, only what a body declares itself can be left stale. -/
theorem fresh_join (silent : common.Silent path) (commonGood : common.WellFormed literal)
    (distinct : own.names.Nodup) (ownFresh : ¬ LeavesStale [own] path) :
    ¬ LeavesStale [common, own] path := by
  have join : allDeclarations [common, own] = common.declarations ++ own.declarations := by
    simp [allDeclarations]
  intro stale
  cases stale with
  | @replaced _ _ before after key declaration part split again lowers noted =>
      by_cases shared : (key, declaration) ∈ common.declarations
      · have nothing := silent.noted commonGood shared
        simp only [lowers, notedFields] at nothing
        exact noted nothing
      · rw [join] at split
        obtain ⟨middle, rest⟩ : ∃ middle,
            own.declarations = middle ++ (key, declaration) :: after := by
          rcases List.append_eq_append_iff.mp split with ⟨middle, -, rest⟩ | ⟨middle, first, rest⟩
          · exact ⟨middle, rest⟩
          · cases middle with
            | nil => exact ⟨[], by simpa using rest.symm⟩
            | cons entry middle =>
                cases rest
                exact absurd (by simp [first]) shared
        have keys : OrderedMap.keys own.declarations = own.names := by
          simpa [allDeclarations] using keys_allDeclarations [own]
        rw [← keys, rest, OrderedMap.keys_append, OrderedMap.keys_cons, List.nodup_append]
          at distinct
        exact (List.nodup_cons.mp distinct.2.1).1 again
  | inBlock declares noCatchAll label kept stale =>
      rw [join] at declares
      rcases List.mem_append.mp declares with shared | declared
      · exact silent.fresh commonGood
          (.inBlock (by simpa [allDeclarations] using shared) noCatchAll label kept stale)
      · exact ownFresh
          (.inBlock (by simpa [allDeclarations] using declared) noCatchAll label kept stale)

end Body

/-! Inside blocks -/

namespace Block

variable {block : Block}

theorem bodiesFor_of_bare (bare : block.dependents = []) (tuple : List String) :
    block.bodiesFor tuple = block.body.toList := by
  have nothing : block.selectedFrom 0 block.labels tuple = [] := by
    rw [List.eq_nil_iff_forall_not_mem]
    intro body selected
    obtain ⟨dependent, member, -⟩ := mem_selectedFrom selected
    simp [bare] at member
  rw [bodiesFor, nothing, List.append_nil]

theorem mem_bodies_of_bodiesFor {tuple : List String} {body : Body}
    (member : body ∈ block.bodiesFor tuple) : body ∈ block.bodies :=
  mem_bodies.mpr (mem_bodiesFor member)

/-- A block notes places below its label tuples only. -/
theorem under_tuples {path : Path} {lowered : Lowered Member}
    (wellFormed : block.WellFormed literal) (noCatchAll : block.catchAll? = none)
    (succeeded : (block.lower path).result = .ok lowered) {field : ComputedField}
    (noted : field ∈ lowered.fields) :
    ∃ tuple ∈ block.tuples, ∃ rest, field.path = path.segments ++ (tuple ++ rest) := by
  rw [fields_eq_branches noCatchAll succeeded] at noted
  obtain ⟨branch, member, inside⟩ := List.mem_flatMap.mp noted
  obtain ⟨tuple, label, rfl⟩ := List.mem_map.mp member
  refine ⟨tuple, label, ?_⟩
  obtain ⟨spot, -, -, finished⟩ := finishedAt noCatchAll succeeded label
  cases finished with
  | object merged lowers _ _ kept =>
      rw [kept] at inside
      obtain ⟨rest, leads⟩ :=
        Body.under_lowerAll _ (wellFormed.bodiesFor tuple) _ merged lowers field inside
      exact ⟨rest, by simpa [Path.descend] using leads⟩
  | listed _ _ nothing => simp [nothing] at inside

end Block

/-- Where no block has a computed catch-all, none stands for the content of a dictionary. -/
theorem Body.not_catchAllAt {bodies : List Body}
    (plain : ∀ body ∈ bodies, body.Everywhere fun block =>
      ∀ declared ∈ block.catchAll?, declared.isComputed = false) (segments : List String) :
    ¬ CatchAllAt bodies segments := by
  induction bodies using nested_induction generalizing segments with
  | step bodies ih =>
      intro inside
      cases inside with
      | @inBlock _ key block rest survives inside =>
          have declares := survivor?_mem survives
          have everywhere : block.Everywhere fun block =>
              ∀ declared ∈ block.catchAll?, declared.isComputed = false := by
            obtain ⟨body, bodyMem, declared⟩ := mem_allDeclarations.mp declares
            rcases mem_declarations declared with ⟨_, -, other⟩ | ⟨nested, listed, same⟩
            · cases other
            · cases same
              exact plain body bodyMem _ listed
          cases inside with
          | own catchAll computed =>
              exact absurd (computed.symm.trans (everywhere.here _ catchAll)) Bool.noConfusion
          | @finished _ tuple rest _ _ inside =>
              exact ih key block declares tuple
                (fun body member => everywhere.inside body (Block.mem_bodies_of_bodiesFor member))
                rest inside

end ConfigContract
