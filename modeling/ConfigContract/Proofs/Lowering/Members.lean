import ConfigContract.Proofs.Lowering.Expansion

/-!
Which members lowering yields: those of several bodies under the names that they declare, and at a
label value those of the block's own body and, over them, those of the body for the value.
-/

namespace ConfigContract

theorem Declaration.Yields.keys {path : Path} {entries : List (String × Declaration)}
    {parts : List (String × Lowered Member)} (yields : Yields path entries parts) :
    OrderedMap.keys parts = OrderedMap.keys entries := by
  induction yields with
  | nil => rfl
  | @cons entry part _ _ first _ ih =>
      obtain ⟨name, member⟩ := part
      obtain ⟨rfl, -⟩ := first
      exact congrArg (entry.1 :: ·) ih

theorem Spot.follow?_of_object {reached : Member} {isOpen : Bool} {content : Members}
    (type : reached.type = .object isOpen content) (key : String) (rest : List String) :
    (Spot.member reached).follow? (key :: rest) =
      (OrderedMap.get? key content).bind fun member => (Spot.member member).follow? rest := by
  cases found : OrderedMap.get? key content <;> simp [type, ContractType.part?, found]

/-! Later members over earlier ones -/

namespace Lowered

def overlay (earlier later : Lowered Members) : Lowered Members :=
  ⟨OrderedMap.insertAll earlier.value later.value, earlier.fields ++ later.fields⟩

/-- Later members written over earlier ones: each key stands where it was first and has its last
member, and all that was noted is kept. -/
structure Overlay (earlier later merged : Lowered Members) : Prop where
  keys : OrderedMap.keys merged.value =
    (OrderedMap.keys earlier.value ++ OrderedMap.keys later.value).eraseDups
  member : ∀ key, OrderedMap.get? key merged.value =
    (OrderedMap.get? key later.value).or (OrderedMap.get? key earlier.value)
  fields : merged.fields = earlier.fields ++ later.fields

variable {earlier later merged : Lowered Members}

theorem overlay_nil (earlier : Lowered Members) : earlier.overlay ⟨[], []⟩ = earlier := by
  simp [overlay]

theorem overlay_assoc (earlier : Lowered Members) {between : Lowered Members}
    (distinct : OrderedMap.Distinct between.value) (later : Lowered Members) :
    earlier.overlay (between.overlay later) = (earlier.overlay between).overlay later := by
  simp only [overlay, OrderedMap.insertAll_insertAll _ distinct, List.append_assoc]

theorem overlay_iff (distinct : OrderedMap.Distinct earlier.value)
    (distinctLater : OrderedMap.Distinct later.value) :
    merged = earlier.overlay later ↔ Overlay earlier later merged := by
  have keys := OrderedMap.keys_insertAll distinct later.value
  have member (key : String) := OrderedMap.get?_insertAll key earlier.value later.value
  simp only [OrderedMap.get?_reverse _ distinctLater] at member
  constructor
  · rintro rfl
    exact ⟨keys, member, rfl⟩
  · intro overlaid
    obtain ⟨value, fields⟩ := merged
    have distinctMerged : OrderedMap.Distinct value := by
      rw [OrderedMap.Distinct, overlaid.keys]
      exact OrderedMap.nodup_eraseDups _
    have sameValue : value = OrderedMap.insertAll earlier.value later.value :=
      OrderedMap.eq_of_get? distinctMerged (overlaid.keys.trans keys.symm) fun key =>
        (overlaid.member key).trans (member key).symm
    have sameFields : fields = earlier.fields ++ later.fields := overlaid.fields
    rw [overlay, sameValue, sameFields]

end Lowered

theorem mergeParts_append (path : Path) (parts more : List Part) (merged : Lowered Members) :
    (mergeParts path (parts ++ more) merged).result =
      (mergeParts path parts merged).result >>= fun lowered =>
        (mergeParts path more lowered).result := by
  induction parts generalizing merged with
  | nil => rfl
  | cons part rest ih =>
      simp only [List.cons_append, mergeParts, Logged.result_bind, Logged.result_tellAll, ok_bind,
        ih]
      cases (part.lower path).result <;> rfl

theorem distinct_mergeParts {path : Path} {parts : List Part} {merged lowered : Lowered Members}
    (distinct : OrderedMap.Distinct merged.value)
    (succeeded : (mergeParts path parts merged).result = .ok lowered) :
    OrderedMap.Distinct lowered.value := by
  induction parts generalizing merged with
  | nil =>
      cases succeeded
      exact distinct
  | cons part rest ih =>
      rw [mergeParts, Logged.result_bind, bind_eq_ok] at succeeded
      obtain ⟨body, lowers, succeeded⟩ := succeeded
      exact ih (OrderedMap.distinct_insertAll distinct body.value) succeeded

/-- Parts may be merged on their own before they are written over what is there. -/
theorem mergeParts_overlay (path : Path) (parts : List Part) (merged : Lowered Members) :
    (mergeParts path parts merged).result =
      merged.overlay <$> (mergeParts path parts ⟨[], []⟩).result := by
  induction parts generalizing merged with
  | nil => simp only [mergeParts, Logged.result_pure, map_ok, Lowered.overlay_nil]
  | cons part rest ih =>
      have step (before : Lowered Members) : (mergeParts path (part :: rest) before).result =
          (part.lower path).result >>= fun body =>
            (mergeParts path rest (before.overlay body)).result := by
        simp only [mergeParts, Logged.result_bind, Logged.result_tellAll, ok_bind, Lowered.overlay]
      rw [step, step]
      cases (part.lower path).result with
      | error error => rfl
      | ok body =>
          have alone : OrderedMap.Distinct (Lowered.overlay ⟨[], []⟩ body).value :=
            OrderedMap.distinct_insertAll OrderedMap.distinct_nil body.value
          have first : merged.overlay (Lowered.overlay ⟨[], []⟩ body) = merged.overlay body := by
            rw [Lowered.overlay_assoc merged OrderedMap.distinct_nil, Lowered.overlay_nil]
          rw [ok_bind, ok_bind, ih (merged.overlay body), ih (Lowered.overlay ⟨[], []⟩ body)]
          cases (mergeParts path rest ⟨[], []⟩).result with
          | error error => rfl
          | ok last =>
              rw [map_ok, map_ok, map_ok, Lowered.overlay_assoc merged alone, first]

namespace Body

def names (body : Body) : List String :=
  OrderedMap.keys body.attributes ++ OrderedMap.keys body.blocks

theorem keys_allDeclarations (bodies : List Body) :
    OrderedMap.keys (allDeclarations bodies) = bodies.flatMap names := by
  simp only [allDeclarations, declarations, OrderedMap.keys, OrderedMap.mapValues,
    List.map_flatMap, List.map_append, List.map_map]
  rfl

variable {bodies later : List Body} {path : Path} {lowered : Lowered Members}

/-- Each name is a member once, in the order of first declaration. -/
theorem keys_of_lowerAll (distinct : ∀ body ∈ bodies, OrderedMap.Distinct body.attributes)
    (succeeded : (lowerAll bodies path).result = .ok lowered) :
    OrderedMap.keys lowered.value = (bodies.flatMap names).eraseDups := by
  rw [lowerAll, mergeParts_result bodies path _ distinct, map_eq_ok] at succeeded
  obtain ⟨parts, lowers, rfl⟩ := succeeded
  have written : OrderedMap.keys (OrderedMap.mapValues Lowered.value parts) =
      bodies.flatMap names := by
    rw [← keys_allDeclarations, ← (Declaration.yields_of_mapM lowers).keys]
    simp [OrderedMap.mapValues, OrderedMap.keys, Function.comp_def]
  rw [Lowered.write, OrderedMap.keys_insertAll OrderedMap.distinct_nil, written]
  rfl

theorem distinct_of_lowerAll (succeeded : (lowerAll bodies path).result = .ok lowered) :
    OrderedMap.Distinct lowered.value :=
  distinct_mergeParts OrderedMap.distinct_nil succeeded

theorem lowerAll_append_iff : (lowerAll (bodies ++ later) path).result = .ok lowered ↔
    ∃ first second, (lowerAll bodies path).result = .ok first ∧
      (lowerAll later path).result = .ok second ∧ Lowered.Overlay first second lowered := by
  have together : (lowerAll (bodies ++ later) path).result = (lowerAll bodies path).result >>=
      fun first => first.overlay <$> (lowerAll later path).result := by
    simp only [lowerAll, List.map_append, mergeParts_append]
    congr 1
    funext first
    exact mergeParts_overlay path (later.map part) first
  have overlaid {first second : Lowered Members}
      (lowers : (lowerAll bodies path).result = .ok first)
      (lowersLater : (lowerAll later path).result = .ok second) :
      lowered = first.overlay second ↔ Lowered.Overlay first second lowered :=
    Lowered.overlay_iff (distinct_of_lowerAll lowers) (distinct_of_lowerAll lowersLater)
  simp only [together, bind_eq_ok, map_eq_ok]
  constructor
  · rintro ⟨first, lowers, second, lowersLater, same⟩
    exact ⟨first, second, lowers, lowersLater, (overlaid lowers lowersLater).mp same.symm⟩
  · rintro ⟨first, second, lowers, lowersLater, overlay⟩
    exact ⟨first, lowers, second, lowersLater, ((overlaid lowers lowersLater).mpr overlay).symm⟩

theorem lowerAll_single {body : Body} (distinct : OrderedMap.Distinct body.attributes)
    (path : Path) : (lowerAll [body] path).result = (body.lower path).result := by
  have only : ∀ other ∈ [body], OrderedMap.Distinct other.attributes := by simpa using distinct
  rw [lowerAll, mergeParts_result [body] path _ only, body.lower_result path distinct,
    allDeclarations, List.flatMap_singleton]

end Body

namespace Block

variable {block : Block} {path : Path} {lowered : Lowered Member} {label free : Label}

theorem finishedType_object (declared : block.blockType = .object) (path : Path)
    (members : Members) : block.finishedType path members =
      some (.object (Policy.isOpenObject path) members) := by
  have effective : block.effectiveType path = .object := by
    simp [effectiveType, effectiveBlockType, declared]
  simp [finishedType, effective]

theorem selectedFrom_of_free {labels : List Label}
    (notCompletable : ∀ other ∈ labels, other.completable = false) (index : Nat)
    (tuple : List String) : block.selectedFrom index labels tuple = [] := by
  induction labels generalizing index tuple with
  | nil => rfl
  | cons other rest ih =>
      obtain ⟨first, others⟩ := List.forall_mem_cons.mp notCompletable
      cases tuple with
      | nil => rfl
      | cons segment tuple => simp [selectedFrom, selectedAt, first, ih others]

theorem first_level {rest : List Label} (labels : block.labels = label :: rest)
    (completable : label.completable = true) (noCatchAll : block.catchAll? = none)
    (succeeded : (block.lower path).result = .ok lowered) : ∃ content,
      lowered.value.type = .object (Policy.isOpenObject path) content ∧
      OrderedMap.keys content = block.namedValues 0 := by
  obtain ⟨spot, followed, -, level⟩ := (expanded_of_lower noCatchAll succeeded).level [] label rest
    labels [] (List.mem_singleton_self _)
  cases followed
  simp only [Spot.type_member, List.length_nil, Path.descend_nil] at level
  cases held : lowered.value.type with
  | object isOpen content =>
      rw [held] at level
      obtain ⟨-, rfl, keys⟩ := level
      exact ⟨content, rfl, keys⟩
  | dictionary content =>
      rw [held] at level
      exact absurd (completable.symm.trans level) Bool.noConfusion
  | dynamic | string | number | bool | list =>
      rw [held] at level
      exact level.elim

theorem tuples_of_label (labels : block.labels = [label]) (completable : label.completable = true) :
    block.tuples = (block.namedValues 0).map fun value => [value] := by
  simp [tuples, labels, tuplesFrom, segmentsAt, completable, ← List.map_eq_flatMap]

theorem tuples_of_labels (labels : block.labels = [label, free])
    (completable : label.completable = true) (notCompletable : free.completable = false) :
    block.tuples = (block.namedValues 0).map fun value => [value, Path.anyLabel] := by
  simp [tuples, labels, tuplesFrom, segmentsAt, completable, notCompletable,
    ← List.map_eq_flatMap]

theorem member_of_label (labels : block.labels = [label]) (completable : label.completable = true)
    (noCatchAll : block.catchAll? = none) (succeeded : (block.lower path).result = .ok lowered)
    {value : String} (named : value ∈ block.namedValues 0) {content : Members} {isOpen : Bool}
    (type : lowered.value.type = .object isOpen content) : ∃ member merged,
      OrderedMap.get? value content = some member ∧
      (Body.lowerAll (block.bodiesFor [value]) (path.child value)).result = .ok merged ∧
      block.finishedType (path.child value) merged.value = some member.type := by
  have tuple : [value] ∈ block.tuples := by
    simpa [tuples_of_label labels completable] using named
  obtain ⟨merged, spot, lowers, followed, -, finished⟩ :=
    (expanded_of_lower noCatchAll succeeded).finished _ tuple
  obtain ⟨member, found, followed⟩ :=
    Option.bind_eq_some_iff.mp ((Spot.follow?_of_object type value []).symm.trans followed)
  cases followed
  rw [Path.descend_cons, Path.descend_nil] at lowers finished
  exact ⟨member, merged, found, lowers, finished⟩

/-- The member for a value of the first label, where any value may follow: a dictionary. -/
theorem member_of_labels (labels : block.labels = [label, free])
    (completable : label.completable = true) (notCompletable : free.completable = false)
    (noCatchAll : block.catchAll? = none) (succeeded : (block.lower path).result = .ok lowered)
    {value : String} (named : value ∈ block.namedValues 0) {content : Members} {isOpen : Bool}
    (type : lowered.value.type = .object isOpen content) : ∃ member held merged,
      OrderedMap.get? value content = some member ∧ member.type = .dictionary held ∧
      (Body.lowerAll (block.bodiesFor [value, Path.anyLabel])
        (path.child value).wildcard).result = .ok merged ∧
      block.finishedType (path.child value).wildcard merged.value = some held := by
  have expanded := expanded_of_lower noCatchAll succeeded
  have tuple : [value, Path.anyLabel] ∈ block.tuples := by
    simpa [tuples_of_labels labels completable notCompletable] using named
  have before : [value] ∈ block.tuplesFrom 0 [label] := by
    simp [tuplesFrom, segmentsAt, completable, named]
  obtain ⟨merged, spot, lowers, followed, -, finished⟩ := expanded.finished _ tuple
  obtain ⟨_, reached, -, level⟩ := expanded.level [label] free [] labels _ before
  obtain ⟨member, found, followed⟩ :=
    Option.bind_eq_some_iff.mp ((Spot.follow?_of_object type value _).symm.trans followed)
  obtain ⟨same, foundAgain, reached⟩ :=
    Option.bind_eq_some_iff.mp ((Spot.follow?_of_object type value []).symm.trans reached)
  cases found.symm.trans foundAgain
  cases reached
  simp only [Path.descend_cons, Path.descend_nil] at lowers finished
  cases held : member.type with
  | dictionary inner =>
      simp only [Spot.follow?_cons, Spot.type_member, held, ContractType.part?, ↓reduceIte,
        Option.bind_some, Spot.follow?_nil, Option.some.injEq] at followed
      exact ⟨member, inner, merged, found, held, lowers,
        by simpa [← followed, Path.wildcard] using finished⟩
  | object =>
      simp only [Spot.type_member, held] at level
      exact absurd (notCompletable.symm.trans level.1) Bool.noConfusion
  | dynamic | string | number | bool | list =>
      simp only [Spot.type_member, held] at level
      exact level.elim

end Block

end ConfigContract
