import ConfigContract.Proofs.Lowering.Report

/-!
Stale notes: a declaration that is overridden leaves its notes behind. Where none is left, each note
leads to a computed attribute and no path comes twice; where one is left, one of the two fails.
-/

namespace ConfigContract

variable {literal : Json → Prop}

/-- Whether a declaration that notes something is overridden, among bodies or inside a block whose
notes are kept. -/
inductive Body.LeavesStale : List Body → Path → Prop
  | replaced {bodies : List Body} {path : Path} {before after : List (String × Declaration)}
      {key : String} {declaration : Declaration} {part : Lowered Member}
      (split : Body.allDeclarations bodies = before ++ (key, declaration) :: after)
      (again : key ∈ OrderedMap.keys after)
      (lowers : declaration.lower (path.child key) = .ok part) (noted : part.fields ≠ []) :
      LeavesStale bodies path
  | inBlock {bodies : List Body} {path : Path} {key : String} {block : Block}
      {tuple : List String} (declares : (key, .block block) ∈ Body.allDeclarations bodies)
      (noCatchAll : block.catchAll? = none) (label : tuple ∈ block.tuples)
      (kept : block.effectiveType ((path.child key).descend tuple) = .object)
      (stale : LeavesStale (block.bodiesFor tuple) ((path.child key).descend tuple)) :
      LeavesStale bodies path

structure Settled (path : Path) (start : Spot) (catchAll : List String → Prop)
    (fields : List ComputedField) : Prop where
  sound : Sound path start catchAll fields
  unique : Unique fields

theorem Faithful.settled {path : Path} {start : Spot} {catchAll : List String → Prop}
    {fields : List ComputedField} (faithful : Faithful path start catchAll fields) :
    Settled path start catchAll fields := ⟨faithful.sound, faithful.unique⟩

/-! Without a stale note -/

theorem Declaration.settled_lower {declaration : Declaration} {path : Path} {part : Lowered Member}
    (wellFormed : declaration.WellFormed literal)
    (nested : ∀ block, declaration = .block block → block.catchAll? = none →
      ∀ tuple ∈ block.tuples, block.effectiveType (path.descend tuple) = .object → ∀ merged,
        (Body.lowerAll (block.bodiesFor tuple) (path.descend tuple)).result = .ok merged →
        ∀ isOpen, Settled (path.descend tuple) (.content (.object isOpen merged.value))
          (Body.CatchAllAt (block.bodiesFor tuple)) merged.fields)
    (lowers : declaration.lower path = .ok part) :
    Settled path (.member part.value) declaration.CatchAllAt part.fields := by
  cases declaration with
  | plain declared =>
      cases lowers
      exact (declared.faithful_lower wellFormed path).settled
  | block block =>
      cases catchAll : block.catchAll? with
      | some declared => exact (Block.faithful_catchAll wellFormed catchAll lowers).settled
      | none =>
          rw [Block.fields_eq_branches catchAll lowers]
          refine ⟨sound_branches fun branch branchMem noted => ?_,
            unique_branches path block.labels.length (fun branch branchMem => ?_)
              (silent_of_nodup ?_)⟩
          · obtain ⟨tuple, label, rfl⟩ := List.mem_map.mp branchMem
            obtain ⟨spot, reached, plain, finished⟩ := Block.finishedAt catchAll lowers label
            refine ⟨spot, reached, ?_⟩
            cases finished with
            | object merged lowers kept type noted =>
                rw [noted]
                have inside := nested block rfl catchAll tuple label kept merged lowers
                refine (inside _).sound.transfer type ?_ ?_
                · exact fun _ noted => absurd noted.2 (Body.not_catchAllAt_nil _)
                · exact fun key rest => (Block.catchAllAt_tuple catchAll label).mpr
            | listed _ _ nothing => exact absurd nothing noted
          · obtain ⟨tuple, label, rfl⟩ := List.mem_map.mp branchMem
            obtain ⟨spot, reached, plain, finished⟩ := Block.finishedAt catchAll lowers label
            refine ⟨Block.length_of_mem_tuples label, ?_⟩
            cases finished with
            | object merged lowers kept type noted =>
                have inside := nested block rfl catchAll tuple label kept merged lowers false
                rw [noted]
                refine ⟨inside.unique, fun field member => ?_⟩
                obtain ⟨rest, _, leads, -⟩ := inside.sound field member
                exact ⟨rest, by simpa [Path.descend] using leads⟩
            | listed _ _ nothing =>
                rw [nothing]
                exact ⟨List.nodup_nil, by simp⟩
          · simpa [Function.comp_def] using block.nodup_tuples

theorem Body.settled_lowerAll (bodies : List Body)
    (wellFormed : ∀ body ∈ bodies, body.WellFormed literal) (path : Path)
    (lowered : Lowered Members) (succeeded : (lowerAll bodies path).result = .ok lowered)
    (fresh : ¬ LeavesStale bodies path) (isOpen : Bool) :
    Settled path (.content (.object isOpen lowered.value)) (CatchAllAt bodies) lowered.fields := by
  induction bodies using nested_induction generalizing path lowered isOpen with
  | step bodies ih =>
      have loweredAt := loweredAt wellFormed succeeded
      have settled {key : String} {declaration : Declaration}
          (declares : (key, declaration) ∈ allDeclarations bodies) : ∃ part,
          declaration.lower (path.child key) = .ok part ∧
          Settled (path.child key) (.member part.value) declaration.CatchAllAt part.fields := by
        obtain ⟨part, lowers⟩ := loweredAt.succeeds _ declares
        have sound := wellFormed_declaration wellFormed declares
        refine ⟨part, lowers, Declaration.settled_lower sound ?_ lowers⟩
        rintro block rfl noCatchAll tuple label kept merged lowers
        exact ih key block declares tuple (sound.bodiesFor tuple) _ merged lowers
          fun stale => fresh (.inBlock declares noCatchAll label kept stale)
      rw [loweredAt.fields_eq]
      refine ⟨sound_branches fun branch branchMem noted => ?_,
        unique_branches path 1 (fun branch branchMem => ?_) ?_⟩
      · obtain ⟨⟨key, declaration⟩, declares, rfl⟩ := List.mem_map.mp branchMem
        obtain ⟨part, lowers, inside⟩ := settled declares
        obtain ⟨before, after, split⟩ := List.append_of_mem declares
        simp only [lowers, notedFields] at noted ⊢
        have last : key ∉ OrderedMap.keys after := fun again =>
          fresh (.replaced split again lowers noted)
        have survives : survivor? bodies key = some declaration := by
          simp [survivor?_of_split split, last]
        refine ⟨.member part.value, ?_, ?_⟩
        · simp [ContractType.part?, loweredAt.lookup survives lowers]
        · exact inside.sound.transfer rfl
            (fun _ noted => noted.mono (catchAllAt_cons survives).mpr)
            fun key rest => (catchAllAt_cons survives).mpr
      · obtain ⟨⟨key, declaration⟩, declares, rfl⟩ := List.mem_map.mp branchMem
        obtain ⟨part, lowers, inside⟩ := settled declares
        simp only [lowers, notedFields]
        refine ⟨rfl, inside.unique, fun field member => ?_⟩
        obtain ⟨rest, _, leads, -⟩ := inside.sound field member
        exact ⟨rest, by simpa using leads⟩
      · intro before branch after split again
        obtain ⟨earlier, others, splits, -, same⟩ := List.map_eq_append_iff.mp split
        obtain ⟨⟨key, declaration⟩, later, rfl, rfl, rfl⟩ := List.map_eq_cons_iff.mp same
        obtain ⟨part, lowers⟩ := loweredAt.succeeds (key, declaration) (by simp [splits])
        simp only [lowers, notedFields]
        by_contra noted
        refine fresh (.replaced splits ?_ lowers noted)
        simpa [OrderedMap.keys] using again

/-! With a stale note -/

theorem Sound.inside {path : Path} {start spot : Spot} {catchAll : List String → Prop}
    {fields inner : List ComputedField} {segments : List String}
    (sound : Sound path start catchAll fields) (reached : start.follow? segments = some spot)
    (under : Under (path.descend segments) inner) (subset : inner ⊆ fields) :
    Sound (path.descend segments) spot (fun rest => catchAll (segments ++ rest)) inner := by
  intro field member
  obtain ⟨rest, place⟩ := under field member
  obtain ⟨whole, last, leads, followed, notList, noted⟩ := sound field (subset member)
  have same : whole = segments ++ rest := by
    rw [leads, Path.descend, List.append_assoc] at place
    exact List.append_cancel_left place
  subst same
  rw [Spot.follow?_append, reached] at followed
  exact ⟨rest, last, place, followed, notList, noted⟩

theorem Unique.branch {branches : List (List String × List ComputedField)}
    (unique : Unique (branches.flatMap Prod.snd)) {branch : List String × List ComputedField}
    (member : branch ∈ branches) : Unique branch.2 := by
  rw [Unique, List.map_flatMap, List.nodup_flatMap] at unique
  exact unique.1 branch member

namespace Body

variable {bodies : List Body} {path : Path} {lowered : Lowered Members}

/-- A note of an overridden declaration leads nowhere or is made again by the later one. -/
theorem not_settled_of_replaced {before after : List (String × Declaration)} {key : String}
    {declaration : Declaration} {part : Lowered Member} {isOpen : Bool}
    (wellFormed : ∀ body ∈ bodies, body.WellFormed literal)
    (succeeded : (lowerAll bodies path).result = .ok lowered)
    (split : allDeclarations bodies = before ++ (key, declaration) :: after)
    (again : key ∈ OrderedMap.keys after)
    (lowers : declaration.lower (path.child key) = .ok part) (noted : part.fields ≠ []) :
    ¬ Settled path (.content (.object isOpen lowered.value)) (CatchAllAt bodies)
      lowered.fields := by
  intro settled
  have loweredAt := loweredAt wellFormed succeeded
  have fields : lowered.fields = before.flatMap (fun entry =>
      notedFields (entry.2.lower (path.child entry.1))) ++ (part.fields ++
        after.flatMap fun entry => notedFields (entry.2.lower (path.child entry.1))) := by
    simp [loweredAt.fields, split, lowers, notedFields]
  obtain ⟨field, fieldMem⟩ := List.exists_mem_of_ne_nil _ noted
  have declared : (key, declaration) ∈ allDeclarations bodies := by simp [split]
  obtain ⟨rest, place⟩ := Declaration.under (wellFormed_declaration wellFormed declared) lowers
    field fieldMem
  obtain ⟨segments, last, leads, followed, -, leadsTo⟩ :=
    settled.sound field (by simp [fields, fieldMem])
  have same : segments = key :: rest := by
    rw [leads, Path.segments_child, List.append_assoc] at place
    exact List.append_cancel_left place
  subst same
  rw [follow?_object, Option.bind_eq_some_iff] at followed
  obtain ⟨member, found, followed⟩ := followed
  rw [loweredAt.member, Option.bind_eq_some_iff] at found
  obtain ⟨later, survives, found⟩ := found
  have laterMem : (key, later) ∈ after := by
    rw [survivor?_of_split split, if_pos again] at survives
    exact List.mem_reverse.mp (OrderedMap.mem_of_get? survives)
  have declares := survivor?_mem survives
  obtain ⟨kept, keptLowers⟩ := loweredAt.succeeds _ declares
  have complete := Declaration.complete (wellFormed_declaration wellFormed declares) keptLowers
  obtain rfl : kept.value = member := by simpa [keptLowers, Except.toOption] using found
  obtain ⟨other, otherMem, samePath⟩ := List.mem_map.mp
    (complete rest last followed (leadsTo.mono (catchAllAt_cons survives).mp))
  have distinct := settled.unique
  rw [Unique, fields, List.map_append, List.map_append, List.nodup_append] at distinct
  refine (List.nodup_append.mp distinct.2.1).2.2 _ (List.mem_map_of_mem fieldMem) _
    (List.mem_map_of_mem (List.mem_flatMap.mpr ⟨_, laterMem, ?_⟩)) (place.trans samePath.symm)
  simpa [keptLowers, notedFields] using otherMem

/-- Where the notes of bodies are settled, so are those inside a block that is not overridden. -/
theorem settled_inBlock {key : String} {block : Block} {part : Lowered Member}
    {tuple : List String} {merged : Lowered Members} {isOpen : Bool}
    (wellFormed : ∀ body ∈ bodies, body.WellFormed literal)
    (succeeded : (lowerAll bodies path).result = .ok lowered)
    (survives : survivor? bodies key = some (.block block)) (noCatchAll : block.catchAll? = none)
    (lowers : (block.lower (path.child key)).result = .ok part) (label : tuple ∈ block.tuples)
    (inner : (lowerAll (block.bodiesFor tuple) ((path.child key).descend tuple)).result =
      .ok merged)
    (kept : block.effectiveType ((path.child key).descend tuple) = .object)
    (settled : Settled path (.content (.object isOpen lowered.value)) (CatchAllAt bodies)
      lowered.fields) :
    Settled ((path.child key).descend tuple)
      (.content (.object (Policy.isOpenObject ((path.child key).descend tuple)) merged.value))
      (CatchAllAt (block.bodiesFor tuple)) merged.fields := by
  have loweredAt := loweredAt wellFormed succeeded
  have declares := survivor?_mem survives
  have sound := wellFormed_declaration wellFormed declares
  obtain ⟨spot, reached, plain, finished⟩ := Block.finishedAt noCatchAll lowers label
  obtain ⟨type, noted⟩ : spot.type = .object (Policy.isOpenObject _) merged.value ∧
      block.notedAt (path.child key) tuple = merged.fields := by
    cases finished with
    | object _ lowersAgain _ type noted =>
        cases inner.symm.trans lowersAgain
        exact ⟨type, noted⟩
    | listed hidden => exact absurd kept hidden
  have labelMem : (tuple, merged.fields) ∈
      block.tuples.map fun tuple => (tuple, block.notedAt (path.child key) tuple) :=
    List.mem_map.mpr ⟨tuple, label, by rw [noted]⟩
  have keyMem : ([key], part.fields) ∈ branches bodies path :=
    List.mem_map.mpr ⟨_, declares, by simp [Declaration.lower, lowers, notedFields]⟩
  have partFields := Block.fields_eq_branches noCatchAll lowers
  have catchAll (rest : List String) : CatchAllAt bodies (key :: tuple ++ rest) ↔
      CatchAllAt (block.bodiesFor tuple) rest :=
    (catchAllAt_cons survives).trans (Block.catchAllAt_tuple noCatchAll label)
  constructor
  · have leads : (Spot.content (.object isOpen lowered.value)).follow? (key :: tuple) =
        some spot := by
      rw [follow?_object, loweredAt.lookup survives lowers]
      exact reached
    have under : Under (path.descend (key :: tuple)) merged.fields := by
      rw [Path.descend_cons]
      exact under_lowerAll _ (sound.bodiesFor tuple) _ _ inner
    have subset : merged.fields ⊆ lowered.fields := fun field member => by
      rw [loweredAt.fields_eq]
      refine List.mem_flatMap.mpr ⟨_, keyMem, ?_⟩
      simp only [partFields]
      exact List.mem_flatMap.mpr ⟨_, labelMem, member⟩
    have inside := settled.sound.inside leads under subset
    rw [Path.descend_cons] at inside
    refine inside.transfer type.symm (fun _ noted => ?_) fun first rest =>
      (catchAll (first :: rest)).mp
    exact absurd noted (Spot.not_noted plain fun inside =>
      not_catchAllAt_nil _ ((catchAll []).mp inside))
  · have uniqueWhole := settled.unique
    rw [loweredAt.fields_eq] at uniqueWhole
    have uniquePart := uniqueWhole.branch keyMem
    simp only [partFields] at uniquePart
    exact uniquePart.branch labelMem

theorem not_settled_of_leavesStale (stale : LeavesStale bodies path)
    (wellFormed : ∀ body ∈ bodies, body.WellFormed literal)
    (succeeded : (lowerAll bodies path).result = .ok lowered) (isOpen : Bool) :
    lowered.fields ≠ [] ∧ ¬ Settled path (.content (.object isOpen lowered.value))
      (CatchAllAt bodies) lowered.fields := by
  induction stale generalizing lowered isOpen with
  | @replaced bodies path before after key declaration part split again lowers noted =>
      refine ⟨?_, not_settled_of_replaced wellFormed succeeded split again lowers noted⟩
      simp [(loweredAt wellFormed succeeded).fields, split, lowers, notedFields, noted]
  | @inBlock bodies path key block tuple declares noCatchAll label kept _ ih =>
      have loweredAt := loweredAt wellFormed succeeded
      have sound := wellFormed_declaration wellFormed declares
      obtain ⟨part, lowers⟩ := loweredAt.succeeds _ declares
      obtain ⟨spot, reached, plain, finished⟩ := Block.finishedAt noCatchAll lowers label
      cases finished with
      | listed hidden => exact absurd kept hidden
      | object merged inner _ type noted =>
          obtain ⟨nonempty, unsettled⟩ := ih (sound.bodiesFor tuple) inner
            (Policy.isOpenObject ((path.child key).descend tuple))
          obtain ⟨field, fieldMem⟩ := List.exists_mem_of_ne_nil _ nonempty
          have inPart : field ∈ part.fields := by
            rw [Block.fields_eq_branches noCatchAll lowers]
            refine List.mem_flatMap.mpr ⟨_, List.mem_map_of_mem label, ?_⟩
            exact noted ▸ fieldMem
          have inWhole : field ∈ lowered.fields := by
            rw [loweredAt.fields]
            refine List.mem_flatMap.mpr ⟨_, declares, ?_⟩
            simpa [lowers, notedFields] using inPart
          refine ⟨List.ne_nil_of_mem inWhole, fun settled => ?_⟩
          obtain ⟨before, after, split⟩ := List.append_of_mem declares
          by_cases again : key ∈ OrderedMap.keys after
          · exact not_settled_of_replaced wellFormed succeeded split again lowers
              (List.ne_nil_of_mem inPart) settled
          · have survives : survivor? bodies key = some (.block block) := by
              simp [survivor?_of_split split, again]
            exact unsettled (settled_inBlock wellFormed succeeded survives noCatchAll lowers label
              inner kept settled)

end Body

namespace Contract

theorem sound_root_iff {bodies : List Body} {schema : Members} {fields : List ComputedField} :
    Sound .root (.content (.object false schema)) (Body.CatchAllAt bodies) fields ↔
      ∀ field ∈ fields, ∃ last, Members.find? schema field.path = some last ∧
        last.type.isList = false ∧ last.Noted (Body.CatchAllAt bodies field.path) := by
  constructor
  · intro sound field member
    obtain ⟨segments, last, leads, followed, notList, noted⟩ := sound field member
    obtain rfl : field.path = segments := leads
    cases place : field.path with
    | nil =>
        rw [place] at followed noted
        cases followed
        exact absurd noted.2 (Body.not_catchAllAt_nil bodies)
    | cons key rest =>
        rw [place] at followed noted
        exact ⟨last, by rwa [find?_eq_follow? false], notList, noted⟩
  · intro located field member
    obtain ⟨last, found, notList, noted⟩ := located field member
    refine ⟨field.path, last, rfl, ?_, notList, noted⟩
    cases place : field.path with
    | nil => simp [place, Members.find?] at found
    | cons key rest => rwa [place, find?_eq_follow? false] at found

/-- The notes of a contract lead to computed attributes and catch-alls, each to another one, exactly
when no declaration that is overridden has left a note behind. -/
theorem notes_settled_iff (bodies : List Body) (contract : Contract)
    (wellFormed : ∀ body ∈ bodies, body.WellFormed literal)
    (succeeded : (ofBodies bodies).result = .ok contract) :
    ((contract.computedFields.map ComputedField.path).Nodup ∧
      ∀ field ∈ contract.computedFields, ∃ last,
        Members.find? contract.schema field.path = some last ∧ last.type.isList = false ∧
        last.Noted (Body.CatchAllAt bodies field.path)) ↔ ¬ Body.LeavesStale bodies .root := by
  obtain ⟨lowered, lowers, rfl⟩ := ofBodies_ok succeeded
  constructor
  · rintro ⟨unique, located⟩ stale
    exact (Body.not_settled_of_leavesStale stale wellFormed lowers false).2
      ⟨sound_root_iff.mpr located, unique⟩
  · intro fresh
    have settled := Body.settled_lowerAll bodies wellFormed .root lowered lowers fresh false
    exact ⟨settled.unique, sound_root_iff.mp settled.sound⟩

def refined : List Body :=
  [{ attributes := [("zone", .optional [.string])] },
    { attributes := [("zone", { isComputed := true, constraints := [.string] })] }]

theorem refined_notes_settled : ∃ contract,
    (∀ body ∈ refined, body.WellFormed fun _ => True) ∧ (ofBodies refined).result = .ok contract ∧
    contract.computedFields.map ComputedField.path = [["zone"]] ∧
    ∀ field ∈ contract.computedFields, ∃ last,
      Members.find? contract.schema field.path = some last ∧ last.type.isList = false ∧
      last.Noted (Body.CatchAllAt refined field.path) := by
  have wellFormed : ∀ body ∈ refined, body.WellFormed fun _ => True := by
    simp [refined, Attribute.optional, Constraint.string]
  have fresh : ¬ Body.LeavesStale refined .root := by
    intro stale
    cases stale with
    | @replaced _ _ before after key declaration part split again lowers noted =>
        change [("zone", Declaration.plain _), ("zone", Declaration.plain _)] = _ at split
        rcases before with _ | ⟨first, _ | ⟨second, rest⟩⟩
        · cases split
          cases lowers
          exact noted rfl
        · cases split
          simp at again
        · simp at split
    | @inBlock _ _ key block tuple declares =>
        simp [refined, Body.allDeclarations, Body.declarations, OrderedMap.mapValues] at declares
  exact ⟨_, wellFormed, rfl, rfl, ((notes_settled_iff refined _ wellFormed rfl).mpr fresh).2⟩

def shadowed : List Body :=
  [{ attributes := [("x", { isComputed := true, constraints := [.string] })]
     blocks := [("x", {
       blockType := .object
       body := some { attributes := [("y", .optional [.string])] } })] }]

/-- The attribute is gone, and its note leads to the block. -/
theorem shadowed_notes_unsettled : ∃ contract block,
    (∀ body ∈ shadowed, body.WellFormed fun _ => True) ∧ (ofBodies shadowed).result = .ok contract ∧
    contract.computedFields = [⟨true, ["x"]⟩] ∧
    Members.find? contract.schema ["x"] = some (.member block) ∧ block.computed = false := by
  refine ⟨_, _, ?_, rfl, rfl, rfl, rfl⟩
  simp [shadowed, Attribute.optional, Constraint.string]

end Contract

end ConfigContract
