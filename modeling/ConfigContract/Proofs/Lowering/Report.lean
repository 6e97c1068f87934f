import ConfigContract.Proofs.Lowering.CatchAll

/-!
The notes of bodies and blocks. Every computed attribute that the contract keeps is noted; the notes
of what is overridden stay as well, and they are the only ones that lead nowhere or come twice.
-/

namespace ConfigContract

variable {literal : Json → Prop}

/-! Notes as branches: the keys of bodies and the label tuples of a block -/

namespace Body

def branches (bodies : List Body) (path : Path) : List (List String × List ComputedField) :=
  (allDeclarations bodies).map fun entry =>
    ([entry.1], notedFields (entry.2.lower (path.child entry.1)))

theorem LoweredAt.fields_eq {bodies : List Body} {path : Path} {lowered : Lowered Members}
    (loweredAt : LoweredAt bodies path lowered) :
    lowered.fields = (branches bodies path).flatMap Prod.snd := by
  rw [loweredAt.fields, branches, List.flatMap_map]

theorem LoweredAt.lookup {bodies : List Body} {path : Path} {lowered : Lowered Members}
    (loweredAt : LoweredAt bodies path lowered) {key : String} {declaration : Declaration}
    (survives : survivor? bodies key = some declaration) {part : Lowered Member}
    (lowers : declaration.lower (path.child key) = .ok part) :
    OrderedMap.get? key lowered.value = some part.value := by
  simp [loweredAt.member, survives, lowers, Except.toOption]

theorem loweredAt {bodies : List Body} (wellFormed : ∀ body ∈ bodies, body.WellFormed literal)
    {path : Path} {lowered : Lowered Members}
    (succeeded : (lowerAll bodies path).result = .ok lowered) : LoweredAt bodies path lowered :=
  loweredAt_of_lowerAll (fun body member => (wellFormed body member).distinct_attributes) succeeded

end Body

namespace Block

def notedAt (block : Block) (path : Path) (tuple : List String) : List ComputedField :=
  block.finishedFields (path.descend tuple)
    (notedFields (Body.lowerAll (block.bodiesFor tuple) (path.descend tuple)).result)

theorem fields_eq_branches {block : Block} {path : Path} {lowered : Lowered Member}
    (noCatchAll : block.catchAll? = none) (succeeded : (block.lower path).result = .ok lowered) :
    lowered.fields =
      (block.tuples.map fun tuple => (tuple, block.notedAt path tuple)).flatMap Prod.snd := by
  rw [(expanded_of_lower noCatchAll succeeded).fields, List.flatMap_map]
  rfl

/-- Where a label tuple leads: to an object whose notes are kept, or to a list that hides them. -/
inductive FinishedAt (block : Block) (path : Path) (tuple : List String) (spot : Spot) : Prop
  | object (merged : Lowered Members)
      (lowers : (Body.lowerAll (block.bodiesFor tuple) (path.descend tuple)).result = .ok merged)
      (kept : block.effectiveType (path.descend tuple) = .object)
      (type : spot.type = .object (Policy.isOpenObject (path.descend tuple)) merged.value)
      (noted : block.notedAt path tuple = merged.fields)
  | listed (hidden : block.effectiveType (path.descend tuple) ≠ .object)
      (type : spot.type.isList = true) (noted : block.notedAt path tuple = [])

theorem finishedAt {block : Block} {path : Path} {lowered : Lowered Member}
    (noCatchAll : block.catchAll? = none) (succeeded : (block.lower path).result = .ok lowered)
    {tuple : List String} (label : tuple ∈ block.tuples) : ∃ spot,
      (Spot.member lowered.value).follow? tuple = some spot ∧ spot.computed = false ∧
      block.FinishedAt path tuple spot := by
  obtain ⟨merged, spot, lowers, followed, plain, finished⟩ :=
    (expanded_of_lower noCatchAll succeeded).finished tuple label
  refine ⟨spot, followed, plain, ?_⟩
  unfold finishedType at finished
  cases kind : block.effectiveType (path.descend tuple) with
  | object =>
      simp only [kind, Option.some.injEq] at finished
      refine .object merged lowers kind finished.symm ?_
      simp [notedAt, finishedFields, kind, bodiesFor, lowers, notedFields]
  | list | set =>
      simp only [kind, Option.some.injEq] at finished
      refine .listed (by simp [kind]) (by rw [← finished]; rfl) ?_
      simp [notedAt, finishedFields, kind]
  | nil | map => simp [kind] at finished

end Block

/-! Every note is about something below the place where it is made -/

def Under (path : Path) (fields : List ComputedField) : Prop :=
  ∀ field ∈ fields, ∃ rest, field.path = path.segments ++ rest

theorem Faithful.under {path : Path} {start : Spot} {catchAll : List String → Prop}
    {fields : List ComputedField} (faithful : Faithful path start catchAll fields) :
    Under path fields := by
  intro field member
  obtain ⟨rest, _, leads, -⟩ := faithful.sound field member
  exact ⟨rest, leads⟩

theorem under_branches {path : Path} {branches : List (List String × List ComputedField)}
    (parts : ∀ branch ∈ branches, Under (path.descend branch.1) branch.2) :
    Under path (branches.flatMap Prod.snd) := by
  intro field member
  obtain ⟨branch, branchMem, noted⟩ := List.mem_flatMap.mp member
  obtain ⟨rest, leads⟩ := parts branch branchMem field noted
  exact ⟨branch.1 ++ rest, by simpa [Path.descend] using leads⟩

theorem Declaration.under_lower {declaration : Declaration}
    (wellFormed : declaration.WellFormed literal)
    (nested : ∀ block, declaration = .block block → ∀ tuple path merged,
      (Body.lowerAll (block.bodiesFor tuple) path).result = .ok merged → Under path merged.fields)
    {path : Path} {part : Lowered Member} (lowers : declaration.lower path = .ok part) :
    Under path part.fields := by
  cases declaration with
  | plain declared =>
      cases lowers
      exact (declared.faithful_lower wellFormed path).under
  | block block =>
      cases catchAll : block.catchAll? with
      | some declared => exact (Block.faithful_catchAll wellFormed catchAll lowers).under
      | none =>
          rw [Block.fields_eq_branches catchAll lowers]
          refine under_branches fun branch branchMem => ?_
          obtain ⟨tuple, label, rfl⟩ := List.mem_map.mp branchMem
          obtain ⟨spot, -, -, finished⟩ := Block.finishedAt catchAll lowers label
          cases finished with
          | object merged lowers _ _ noted =>
              rw [noted]
              exact nested block rfl tuple _ merged lowers
          | listed _ _ noted =>
              rw [noted]
              simp [Under]

theorem Body.under_lowerAll (bodies : List Body)
    (wellFormed : ∀ body ∈ bodies, body.WellFormed literal) (path : Path)
    (lowered : Lowered Members) (succeeded : (lowerAll bodies path).result = .ok lowered) :
    Under path lowered.fields := by
  induction bodies using nested_induction generalizing path lowered with
  | step bodies ih =>
      have loweredAt := loweredAt wellFormed succeeded
      rw [loweredAt.fields_eq]
      refine under_branches fun branch branchMem => ?_
      obtain ⟨⟨key, declaration⟩, declares, rfl⟩ := List.mem_map.mp branchMem
      obtain ⟨part, lowers⟩ := loweredAt.succeeds _ declares
      have sound := wellFormed_declaration wellFormed declares
      simp only [lowers, notedFields]
      refine declaration.under_lower sound ?_ lowers
      rintro block rfl tuple
      exact ih key block declares tuple (sound.bodiesFor tuple)

theorem Declaration.under {declaration : Declaration} (wellFormed : declaration.WellFormed literal)
    {path : Path} {part : Lowered Member} (lowers : declaration.lower path = .ok part) :
    Under path part.fields := by
  refine declaration.under_lower wellFormed ?_ lowers
  rintro block rfl tuple
  exact Body.under_lowerAll _ (Block.WellFormed.bodiesFor wellFormed tuple)

/-! No computed attribute is left out -/

theorem Declaration.complete_lower {declaration : Declaration}
    (wellFormed : declaration.WellFormed literal)
    (nested : ∀ block, declaration = .block block → ∀ tuple path merged,
      (Body.lowerAll (block.bodiesFor tuple) path).result = .ok merged → ∀ isOpen,
        Complete path (.content (.object isOpen merged.value))
          (Body.CatchAllAt (block.bodiesFor tuple)) merged.fields)
    {path : Path} {part : Lowered Member} (lowers : declaration.lower path = .ok part) :
    Complete path (.member part.value) declaration.CatchAllAt part.fields := by
  cases declaration with
  | plain declared =>
      cases lowers
      exact (declared.faithful_lower wellFormed path).complete
  | block block =>
      cases catchAll : block.catchAll? with
      | some declared => exact (Block.faithful_catchAll wellFormed catchAll lowers).complete
      | none =>
          rw [Block.fields_eq_branches catchAll lowers]
          refine complete_branches fun segments last followed noted => ?_
          rcases (Block.expanded_of_lower catchAll lowers).reach segments last followed with
            ⟨tuple, label, rest, rfl⟩ | ⟨short, plain⟩
          · obtain ⟨spot, reached, plain, finished⟩ := Block.finishedAt catchAll lowers label
            refine ⟨_, List.mem_map_of_mem label, rest, spot, rfl, reached, ?_⟩
            have notStart : ¬ block.CatchAllAt (tuple ++ []) := fun inside =>
              Body.not_catchAllAt_nil _ ((Block.catchAllAt_tuple catchAll label).mp inside)
            cases finished with
            | object merged lowers _ type noted =>
                rw [noted]
                refine (nested block rfl tuple _ merged lowers _).transfer type ?_ ?_
                · exact fun noted => absurd noted (Spot.not_noted plain notStart)
                · exact fun key rest => (Block.catchAllAt_tuple catchAll label).mp
            | listed _ type noted =>
                intro segments last followed noted
                cases segments with
                | nil =>
                    cases followed
                    exact absurd noted (Spot.not_noted plain notStart)
                | cons key rest =>
                    cases held : spot.type <;>
                      simp [held, ContractType.isList, ContractType.part?] at type followed
          · refine absurd noted (Spot.not_noted plain fun inside => ?_)
            exact absurd (Block.length_le_of_catchAllAt catchAll inside) (by omega)

theorem Body.complete_lowerAll (bodies : List Body)
    (wellFormed : ∀ body ∈ bodies, body.WellFormed literal) (path : Path)
    (lowered : Lowered Members) (succeeded : (lowerAll bodies path).result = .ok lowered)
    (isOpen : Bool) :
    Complete path (.content (.object isOpen lowered.value)) (CatchAllAt bodies) lowered.fields := by
  induction bodies using nested_induction generalizing path lowered isOpen with
  | step bodies ih =>
      have loweredAt := loweredAt wellFormed succeeded
      rw [loweredAt.fields_eq]
      refine complete_branches fun segments last followed noted => ?_
      cases segments with
      | nil =>
          cases followed
          exact absurd noted.2 (not_catchAllAt_nil bodies)
      | cons key rest =>
          rw [follow?_object, Option.bind_eq_some_iff] at followed
          obtain ⟨member, found, followed⟩ := followed
          rw [loweredAt.member, Option.bind_eq_some_iff] at found
          obtain ⟨declaration, survives, found⟩ := found
          have declares := survivor?_mem survives
          obtain ⟨part, lowers⟩ := loweredAt.succeeds _ declares
          have sound := wellFormed_declaration wellFormed declares
          refine ⟨_, List.mem_map_of_mem declares, rest, .member part.value, rfl, ?_, ?_⟩
          · simp [ContractType.part?, loweredAt.lookup survives lowers]
          · simp only [lowers, notedFields]
            have complete : Complete (path.child key) (.member part.value)
                declaration.CatchAllAt part.fields := by
              refine declaration.complete_lower sound ?_ lowers
              rintro block rfl tuple
              exact ih key block declares tuple (sound.bodiesFor tuple)
            exact complete.transfer rfl
              (fun noted => noted.mono (catchAllAt_cons survives).mp)
              fun key rest => (catchAllAt_cons survives).mp

theorem Declaration.complete {declaration : Declaration}
    (wellFormed : declaration.WellFormed literal)
    {path : Path} {part : Lowered Member} (lowers : declaration.lower path = .ok part) :
    Complete path (.member part.value) declaration.CatchAllAt part.fields := by
  refine declaration.complete_lower wellFormed ?_ lowers
  rintro block rfl tuple
  exact Body.complete_lowerAll _ (Block.WellFormed.bodiesFor wellFormed tuple)

namespace Contract

theorem find?_eq_follow? (isOpen : Bool) (schema : Members) (key : String) (rest : List String) :
    Members.find? schema (key :: rest) =
      (Spot.content (.object isOpen schema)).follow? (key :: rest) := by
  rw [follow?_object, Members.find?]

theorem mem_fields_of_computed {bodies : List Body}
    (wellFormed : ∀ body ∈ bodies, body.WellFormed literal) {lowered : Lowered Members}
    (lowers : (Body.lowerAll bodies .root).result = .ok lowered) {segments : List String}
    {member : Member} (reached : Members.find? lowered.value segments = some (.member member))
    (computed : member.computed = true) : segments ∈ lowered.fields.map ComputedField.path := by
  cases segments with
  | nil => simp [Members.find?] at reached
  | cons key rest =>
      rw [find?_eq_follow? false] at reached
      have complete := Body.complete_lowerAll bodies wellFormed .root lowered lowers false
      exact complete (key :: rest) (.member member) reached computed

/-- Every computed attribute of a contract is noted with the segments that lead to it. -/
theorem computed_attribute_noted (bodies : List Body) (contract : Contract)
    (wellFormed : ∀ body ∈ bodies, body.WellFormed literal)
    (succeeded : (ofBodies bodies).result = .ok contract) (segments : List String)
    (member : Member) (reached : Members.find? contract.schema segments = some (.member member))
    (computed : member.computed = true) :
    segments ∈ contract.computedFields.map ComputedField.path := by
  obtain ⟨lowered, lowers, rfl⟩ := ofBodies_ok succeeded
  exact mem_fields_of_computed wellFormed lowers reached computed

def revised : List Body :=
  [{ attributes := [("id", { isComputed := true }), ("zone", { isComputed := true })] },
    { attributes := [("zone", .optional [.string])]
      blocks := [("disk", {
        labels := [⟨"name", none, false⟩]
        body := some { attributes := [("size", { isComputed := true, isOptional := true })] } })] }]

theorem revised_computed_attribute_noted : ∃ contract member,
    (∀ body ∈ revised, body.WellFormed fun _ => True) ∧ (ofBodies revised).result = .ok contract ∧
    Members.find? contract.schema ["disk", "_", "size"] = some (.member member) ∧
    member.computed = true ∧
    ["disk", "_", "size"] ∈ contract.computedFields.map ComputedField.path := by
  have wellFormed : ∀ body ∈ revised, body.WellFormed fun _ => True := by
    simp [revised, Attribute.optional, Constraint.string]
  exact ⟨_, _, wellFormed, rfl, rfl, rfl,
    computed_attribute_noted revised _ wellFormed rfl ["disk", "_", "size"] _ rfl rfl⟩

end Contract

end ConfigContract
