import ConfigContract.Proofs.Lowering.Records
import ConfigContract.Proofs.Lowering.Visits

/-!
What lowering comes to, but for the values: the first fault of the walk, or else the records of the
walk.
-/

namespace ConfigContract

inductive Reports {α : Type} :
    Except LowerError (Lowered α) → List LowerError → List ComputedField → Prop
  | sound (lowered : Lowered α) : Reports (.ok lowered) [] lowered.fields
  | faulty (error : LowerError) (later : List LowerError) (records : List ComputedField) :
      Reports (.error error) (error :: later) records

namespace Reports

variable {α β : Type} {result : Except LowerError (Lowered α)} {faults more : List LowerError}
  {records fields : List ComputedField}

theorem pure {lowered : Lowered α} (same : lowered.fields = fields) :
    Reports (.ok lowered) [] fields := same ▸ .sound lowered

theorem bind {next : Lowered α → Except LowerError (Lowered β)}
    (first : Reports result faults records)
    (rest : ∀ lowered, lowered.fields = records → Reports (next lowered) more fields) :
    Reports (result >>= next) (faults ++ more) fields := by
  cases first with
  | sound lowered => exact rest lowered rfl
  | faulty error later records => exact .faulty error (later ++ more) fields

theorem map {f : Lowered α → Lowered β} (reports : Reports result faults records)
    (same : ∀ lowered, lowered.fields = records → (f lowered).fields = fields) :
    Reports (result >>= fun lowered => .ok (f lowered)) faults fields := by
  cases reports with
  | sound lowered => exact .pure (same lowered rfl)
  | faulty error later records => exact .faulty error later fields

theorem error_iff (reports : Reports result faults records) (error : LowerError) :
    result = .error error ↔ faults.head? = some error := by
  cases reports <;> simp

theorem ok_iff (reports : Reports result faults records) :
    (∃ lowered, result = .ok lowered) ↔ faults = [] := by
  cases reports <;> simp

theorem fields_of_ok (reports : Reports result faults records) {lowered : Lowered α}
    (succeeded : result = .ok lowered) : lowered.fields = records := by
  subst succeeded
  cases reports
  rfl

end Reports

theorem reports_lowerBlocks {blocks : List (String × Block)} {path : Path}
    (parts : ∀ entry ∈ blocks, ∀ place, Reports (entry.2.lower place).result (entry.2.faults place)
      (entry.2.records place)) (merged : Lowered Members) :
    Reports (lowerBlocks blocks path merged).result
      (blocks.flatMap fun entry => entry.2.faults (path.child entry.1))
      (merged.fields ++ blocks.flatMap fun entry => entry.2.records (path.child entry.1)) := by
  induction blocks generalizing merged with
  | nil => exact .pure (by simp)
  | cons entry rest ih =>
      obtain ⟨key, block⟩ := entry
      obtain ⟨first, others⟩ := List.forall_mem_cons.mp parts
      rw [lowerBlocks, Logged.result_bind, List.flatMap_cons, List.flatMap_cons]
      refine (first (path.child key)).bind fun member noted => ?_
      rw [← List.append_assoc, ← noted]
      exact ih others ⟨_, merged.fields ++ member.fields⟩

theorem Body.reports_lower {body : Body}
    (parts : ∀ entry ∈ body.blocks, ∀ place, Reports (entry.2.lower place).result
      (entry.2.faults place) (entry.2.records place)) (path : Path) :
    Reports (body.lower path).result
      (body.blocks.flatMap fun entry => entry.2.faults (path.child entry.1))
      (attributeRecords body.attributes path ++
        body.blocks.flatMap fun entry => entry.2.records (path.child entry.1)) := by
  obtain ⟨description, attributes, blocks, anyAttribute⟩ := body
  rw [← fields_attributes]
  exact reports_lowerBlocks parts (lowerAttributes attributes path).toLowered

theorem Body.reports_mergeParts {bodies : List Body}
    (parts : ∀ entry ∈ bodies.flatMap blocks, ∀ place, Reports (entry.2.lower place).result
      (entry.2.faults place) (entry.2.records place)) (path : Path) (merged : Lowered Members) :
    Reports (mergeParts path (bodies.map part) merged).result (faults bodies path)
      (merged.fields ++ records bodies path) := by
  induction bodies generalizing merged with
  | nil => exact .pure (by simp [records])
  | cons body rest ih =>
      rw [List.flatMap_cons, List.forall_mem_append] at parts
      rw [List.map_cons, mergeParts, Logged.result_bind, faults_cons, records, List.flatMap_cons,
        ← records]
      refine (reports_lower parts.1 path).bind fun lowered noted => ?_
      rw [← List.append_assoc, ← noted]
      exact ih parts.2 ⟨_, merged.fields ++ lowered.fields⟩

/-! Label tuples -/

theorem reports_forEachValue {lower : String → Part → Logged LowerError (Lowered Member)}
    {values : OrderedMap String Part} {faultsAt : String → List LowerError}
    {recordsAt : String → List ComputedField}
    (parts : ∀ entry ∈ values,
      Reports (lower entry.1 entry.2).result (faultsAt entry.1) (recordsAt entry.1)) :
    Reports (Frame.forEachValue lower values).result ((OrderedMap.keys values).flatMap faultsAt)
      ((OrderedMap.keys values).flatMap recordsAt) := by
  induction values with
  | nil => exact .pure rfl
  | cons entry rest ih =>
      obtain ⟨value, part⟩ := entry
      obtain ⟨first, others⟩ := List.forall_mem_cons.mp parts
      simp only [Frame.forEachValue, Logged.result_bind, OrderedMap.keys_cons, List.flatMap_cons]
      refine first.bind fun member noted => ?_
      exact (ih others).map fun lowered later => by simp [noted, later]

namespace Block

variable {block : Block}

theorem effectiveType_eq_map (path : Path) :
    block.effectiveType path = .map ↔ block.staysMap path = true := by
  simp only [staysMap, effectiveType, effectiveBlockType]
  cases Policy.forcesObject path <;> by_cases single : block.maxItems = 1 <;>
    cases block.blockType <;> simp [single]
  all_goals split <;> simp

theorem effectiveType_ne_nil (path : Path) : block.effectiveType path ≠ .nil := by
  simp only [effectiveType, effectiveBlockType]
  split
  next => nofun
  next => cases block.blockType <;> simp; split <;> simp

/-- A fault of the block itself is met before those of the bodies that the tuple selects. -/
theorem reports_finish {bodies : List Body} {path : Path}
    (inside : Reports (Body.lowerAll bodies path).result (Body.faults bodies path)
      (Body.records bodies path)) :
    Reports (block.frame.finish path (bodies.map Body.part)).result
      ((if block.staysMap path then [.unknownBlockType path .map] else []) ++
        Body.faults bodies path)
      (if block.isListed path then [] else Body.records bodies path) := by
  have effective : block.frame.effectiveType path = block.effectiveType path := rfl
  have map := block.effectiveType_eq_map path
  rw [Frame.finish, effective]
  unfold isListed
  cases kind : block.effectiveType path with
  | nil => exact absurd kind (block.effectiveType_ne_nil path)
  | map =>
      rw [if_pos (map.mp kind)]
      exact .faulty _ _ _
  | object =>
      have stays : ¬ block.staysMap path = true := fun stays => by simp [map.mpr stays] at kind
      simp only [if_neg stays, Frame.single, Logged.result_bind, Logged.result_tell, ok_bind,
        Logged.result_pure]
      exact inside.map fun _ same => same
  | list | set =>
      have stays : ¬ block.staysMap path = true := fun stays => by simp [map.mpr stays] at kind
      simp only [if_neg stays, Frame.listed, Logged.result_bind, Logged.result_tell,
        Logged.result_tellAll, ok_bind, Logged.result_pure]
      exact inside.map fun _ _ => rfl

/-- Expanding labels reports what finishing the block reports, label tuple by label tuple. -/
theorem reports_expand {index : Nat} {labels : List Label} {bodies : List Body} {path : Path}
    {faultsAt : List String → List LowerError} {recordsAt : List String → List ComputedField}
    (finishes : ∀ tuple ∈ block.tuplesFrom index labels,
      Reports (block.frame.finish (path.descend tuple)
        ((bodies ++ block.selectedFrom index labels tuple).map Body.part)).result
        (faultsAt tuple) (recordsAt tuple)) :
    Reports (block.frame.expand (block.choicesFrom index labels) (bodies.map Body.part)
      path).result ((block.tuplesFrom index labels).flatMap faultsAt)
      ((block.tuplesFrom index labels).flatMap recordsAt) := by
  induction labels generalizing index bodies path faultsAt recordsAt with
  | nil =>
      have finished := finishes [] (List.mem_singleton_self _)
      simpa [tuplesFrom, selectedFrom, choicesFrom, LabelChoice.ofLabels, Frame.expand] using
        finished
  | cons label labels ih =>
      -- the tuples that begin with one segment are those of the positions after it
      have branch (segment : String) (member : segment ∈ block.segmentsAt index label) :
          Reports (block.frame.expand (block.choicesFrom (index + 1) labels)
            ((bodies ++ block.selectedAt index label segment).map Body.part)
            (path.child segment)).result
            ((block.tuplesFrom (index + 1) labels).flatMap fun tuple => faultsAt (segment :: tuple))
            ((block.tuplesFrom (index + 1) labels).flatMap fun tuple =>
              recordsAt (segment :: tuple)) := by
        refine ih fun tuple tupleMem => ?_
        have listed : segment :: tuple ∈ block.tuplesFrom index (label :: labels) :=
          List.mem_flatMap.mpr ⟨segment, member, List.mem_map_of_mem tupleMem⟩
        have finished := finishes (segment :: tuple) listed
        rwa [Path.descend_cons, selectedFrom, ← List.append_assoc] at finished
      simp only [tuplesFrom, List.flatMap_assoc, List.flatMap_map]
      cases completable : label.completable with
      | false =>
          rw [block.choicesFrom_of_free index labels completable,
            block.segmentsAt_of_free index completable, List.flatMap_singleton,
            List.flatMap_singleton]
          have only := branch Path.anyLabel (by
            rw [block.segmentsAt_of_free index completable]
            exact List.mem_singleton_self _)
          simp only [selectedAt, completable, Bool.false_eq_true, ↓reduceIte, List.append_nil]
            at only
          simp only [Frame.expand, Logged.result_bind, Logged.result_pure]
          exact only.map fun _ same => same
      | true =>
          rw [block.choicesFrom_of_completable index labels completable,
            block.segmentsAt_of_completable index completable, ← keys_knownAt]
          simp only [Frame.expand, Logged.result_bind, Logged.result_pure]
          refine (reports_forEachValue fun entry member => ?_).map fun _ same => same
          have known := OrderedMap.get?_of_mem (block.distinct_knownAt index) member
          rw [parts_append_known bodies completable known]
          refine branch entry.1 ?_
          rw [block.segmentsAt_of_completable index completable, ← keys_knownAt]
          exact List.mem_map_of_mem member

theorem reports_catchAll {declared : Attribute} (catchAll : block.catchAll? = some declared)
    (place : Path) :
    Reports (block.lower place).result (block.faults place) (block.records place) := by
  have unresolved : block.resolutions = [] := if_pos (by simp [catchAll])
  rw [faults_eq, unresolved, records_of_catchAll catchAll, ← declared.fields_lower]
  obtain ⟨description, labels, blockType, minItems, maxItems, body, dependents⟩ := block
  obtain ⟨⟨_, attributes, blocks, anyAttribute⟩, rfl, rfl⟩ := Option.bind_eq_some_iff.mp catchAll
  simp only [Block.lower, lowerCatchAll, Visit.faults, mixesCatchAll, Option.any_some,
    Option.isSome_some, Bool.true_and]
  cases attributes.isEmpty && blocks.isEmpty with
  | true => exact .pure rfl
  | false => exact .faulty _ _ _

theorem reports_lower
    (inside : ∀ tuple path, Reports (Body.lowerAll (block.bodiesFor tuple) path).result
      (Body.faults (block.bodiesFor tuple) path) (Body.records (block.bodiesFor tuple) path))
    (place : Path) :
    Reports (block.lower place).result (block.faults place) (block.records place) := by
  cases catchAll : block.catchAll? with
  | some declared => exact reports_catchAll catchAll place
  | none =>
      have own : (Visit.met place block).faults = [] := if_neg (not_mixesCatchAll catchAll)
      have resolved : block.resolutions = block.tuples := if_neg (by simp [catchAll])
      rw [lower_eq_expand block place catchAll, records_of_labels catchAll, faults_eq, own,
        resolved]
      exact reports_expand fun tuple _ => reports_finish (inside tuple _)

end Block

theorem Body.reports_lowerAll (bodies : List Body) (path : Path) :
    Reports (lowerAll bodies path).result (faults bodies path) (records bodies path) := by
  induction bodies using nested_induction generalizing path with
  | step bodies ih =>
      refine reports_mergeParts (fun entry declares place => ?_) path ⟨[], []⟩
      exact Block.reports_lower (ih entry.1 entry.2 (declares_block declares)) place

theorem Block.reports (block : Block) (place : Path) :
    Reports (block.lower place).result (block.faults place) (block.records place) :=
  reports_lower (fun tuple path => Body.reports_lowerAll (block.bodiesFor tuple) path) place

namespace Contract

/-- Lowering fails exactly when it comes to a faulty block, and with the first fault of its walk.
A block with a label that has no values is met, but nothing inside it; a block that is declared
again later is met all the same. -/
theorem fails_at_first_fault (bodies : List Body) :
    ((∃ error, (ofBodies bodies).result = .error error) ↔
      ∃ error place block, Body.Reaches bodies .root place block ∧ block.Faulty place error) ∧
    (∀ error, (ofBodies bodies).result = .error error ↔
      (Body.faults bodies .root).head? = some error) ∧
    (∀ visit, visit ∈ Body.visits bodies .root ↔
      ∃ place block, Body.Reaches bodies .root place block ∧ visit ∈ block.ownVisits place) ∧
    (∀ (block : Block) place index label, block.labels[index]? = some label →
      label.completable = true → block.namedValues index = [] →
        block.visits place = [.met place block]) ∧
    ∀ place block, Body.Reaches bodies .root place block → ∀ tuple ∈ block.resolutions,
      ∀ body ∈ block.bodiesFor tuple, ∀ entry ∈ body.blocks,
        Body.Reaches bodies .root ((place.descend tuple).child entry.1) entry.2 := by
  have first (error : LowerError) : (ofBodies bodies).result = .error error ↔
      (Body.faults bodies .root).head? = some error := by
    rw [ofBodies_result, ← (Body.reports_lowerAll bodies .root).error_iff]
    cases (Body.lowerAll bodies .root).result <;> simp
  refine ⟨?_, first, Body.mem_visits bodies .root, ?_, ?_⟩
  · simp only [first, ← Body.mem_faults]
    cases Body.faults bodies .root with
    | nil => simp
    | cons error later => exact ⟨fun _ => ⟨error, List.mem_cons_self⟩, fun _ => ⟨error, rfl⟩⟩
  · intro block place index label position completable unnamed
    have unresolved : block.resolutions = [] := by
      rw [Block.resolutions, block.tuples_eq_nil position completable unnamed, ite_self]
    rw [Block.visits_eq, unresolved, List.flatMap_nil]
  · intro place block reaches tuple label body selected entry declares
    exact reaches.inner label (List.mem_flatMap.mpr ⟨body, selected, declares⟩)

/-- The walk does not come to the block inside `shut`; the map is declared again, but met. -/
def misdeclared : List Body :=
  [{ blocks := [
      ("shut", {
        labels := [⟨"type", none, true⟩]
        body := some { blocks := [("inner", { blockType := .map })] } }),
      ("zone", { blockType := .map })] },
    { blocks := [("zone", { blockType := .object })] }]

theorem misdeclared_fails_at_zone :
    (ofBodies misdeclared).result = .error (.unknownBlockType ⟨["zone"]⟩ .map) ∧
    (Body.faults misdeclared .root).head? = some (.unknownBlockType ⟨["zone"]⟩ .map) :=
  ⟨rfl, ((fails_at_first_fault misdeclared).2.1 _).mp rfl⟩

theorem computedFields_eq_records (bodies : List Body) (contract : Contract)
    (succeeded : (ofBodies bodies).result = .ok contract) :
    contract.computedFields = Body.records bodies .root := by
  obtain ⟨lowered, lowers, rfl⟩ := ofBodies_ok succeeded
  exact (Body.reports_lowerAll bodies .root).fields_of_ok lowers

def reporting : List Body :=
  [{ attributes := [
       ("host", {
         isComputed := true
         constraints := [.object [("port", { isComputed := true, isOptional := true })]] }),
       ("names", { isComputed := true, constraints := [.listOf [.string]] })]
     blocks := [
       ("disk", {
         labels := [⟨"name", none, false⟩]
         body := some { attributes := [("id", { isComputed := true, isOptional := true })] } }),
       ("tags", { body := some { anyAttribute := some { isComputed := true } } }),
       ("rule", {
         blockType := .list
         body := some { attributes := [("hits", { isComputed := true })] } })] }]

theorem reporting_records : ∃ contract, (ofBodies reporting).result = .ok contract ∧
    contract.computedFields =
      [⟨false, ["host", "port"]⟩, ⟨true, ["host"]⟩, ⟨true, ["disk", "_", "id"]⟩,
        ⟨true, ["tags", "_"]⟩] ∧
    contract.computedFields = Body.records reporting .root :=
  ⟨_, rfl, rfl, computedFields_eq_records reporting _ rfl⟩

end Contract

end ConfigContract
