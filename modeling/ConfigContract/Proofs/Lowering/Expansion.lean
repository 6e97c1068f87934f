import ConfigContract.Proofs.Contract.Spot
import ConfigContract.Proofs.Lowering.Declaration
import ConfigContract.Proofs.Lowering.Labels

/-!
The expansion of a block's labels: each label tuple leads to the block finished with the bodies that
the tuple selects, and the computed attributes are those of the finished blocks, tuple by tuple.
-/

namespace ConfigContract

namespace Block

def catchAll? (block : Block) : Option Attribute := block.body.bind Body.anyAttribute

def effectiveType (block : Block) (path : Path) : BlockType :=
  effectiveBlockType path (block.labels.any fun label => !label.completable) block.blockType
    block.maxItems

def finishedType (block : Block) (path : Path) (members : Members) : Option ContractType :=
  let object := ContractType.object (Policy.isOpenObject path) members
  match block.effectiveType path with
  | .object => some object
  | .list | .set => some (.bounded block.minItems block.maxItems object)
  | .nil | .map => none

/-- A list block hides the computed attributes of its bodies. -/
def finishedFields (block : Block) (path : Path) (fields : List ComputedField) :
    List ComputedField :=
  if block.effectiveType path = .object then fields else []

def frame (block : Block) : Frame :=
  { description := block.description
    blockType := block.blockType
    minItems := block.minItems
    maxItems := block.maxItems
    anyLabel := block.labels.any fun label => !label.completable }

def choicesFrom (block : Block) (index : Nat) (labels : List Label) : List (LabelChoice Part) :=
  LabelChoice.ofLabels (dependentParts block.dependents) index labels

theorem any_isAnyValue (block : Block) (index : Nat) (labels : List Label) :
    (block.choicesFrom index labels).any LabelChoice.isAnyValue =
      labels.any fun label => !label.completable := by
  induction labels generalizing index with
  | nil => rfl
  | cons label rest ih =>
      have others := ih (index + 1)
      simp only [choicesFrom] at others
      cases completable : label.completable <;>
        simp [choicesFrom, LabelChoice.ofLabels, completable, LabelChoice.isAnyValue, others]

theorem ownParts_eq (body : Option Body) : ownParts body = body.toList.map Body.part := by
  cases body <;> rfl

theorem dependentParts_eq (dependents : List DependentBody) :
    dependentParts dependents =
      dependents.map fun dependent => (dependent.keys, dependent.body.part) := by
  induction dependents with
  | nil => rfl
  | cons dependent rest ih =>
      obtain ⟨keys, body⟩ := dependent
      simp [dependentParts, ih, Body.part]

theorem lowerCatchAll_eq_none {body : Option Body} (noCatchAll : body.bind Body.anyAttribute = none)
    (description : Option String) (path : Path) : lowerCatchAll description body path = none := by
  cases body with
  | none => rfl
  | some own =>
      obtain ⟨_, attributes, blocks, anyAttribute⟩ := own
      cases noCatchAll
      rfl

theorem lower_eq_expand (block : Block) (path : Path) (noCatchAll : block.catchAll? = none) :
    block.lower path = block.frame.expand (block.choicesFrom 0 block.labels)
      (block.body.toList.map Body.part) path := by
  have wild := block.any_isAnyValue 0 block.labels
  obtain ⟨description, labels, blockType, minItems, maxItems, body, dependents⟩ := block
  have expanded := lowerCatchAll_eq_none noCatchAll description path
  simp only [choicesFrom] at wild
  simp only [Block.lower, expanded, ownParts_eq, frame, choicesFrom, wild]

def knownAt (block : Block) (index : Nat) : OrderedMap String Part :=
  LabelChoice.collect index (dependentParts block.dependents)

theorem distinct_knownAt (block : Block) (index : Nat) :
    OrderedMap.Distinct (block.knownAt index) := LabelChoice.distinct_collect index _

theorem keys_knownAt (block : Block) (index : Nat) :
    OrderedMap.keys (block.knownAt index) = block.namedValues index := by
  rw [knownAt, LabelChoice.collect_eq, OrderedMap.keys_insertAll OrderedMap.distinct_nil,
    LabelChoice.keys_contributions, dependentParts_eq]
  simp [namedValues, List.flatMap_map]

theorem get?_knownAt (block : Block) (index : Nat) (value : String) :
    OrderedMap.get? value (block.knownAt index) =
      (block.dependentFor index value).map Body.part := by
  rw [knownAt, LabelChoice.get?_collect, dependentParts_eq, ← List.map_reverse, List.find?_map]
  simp [dependentFor, DependentBody.carries, Function.comp_def]

variable {index : Nat} {label : Label}

theorem choicesFrom_of_free (block : Block) (index : Nat) (labels : List Label)
    (free : label.completable = false) : block.choicesFrom index (label :: labels) =
      .anyValue :: block.choicesFrom (index + 1) labels := by
  simp [choicesFrom, LabelChoice.ofLabels, free]

theorem choicesFrom_of_completable (block : Block) (index : Nat) (labels : List Label)
    (completable : label.completable = true) : block.choicesFrom index (label :: labels) =
      .known (block.knownAt index) :: block.choicesFrom (index + 1) labels := by
  simp [choicesFrom, LabelChoice.ofLabels, completable, knownAt]

/-- The part that a known value adds is the body that it selects. -/
theorem parts_append_known {block : Block} (bodies : List Body)
    (completable : label.completable = true) {value : String} {part : Part}
    (known : OrderedMap.get? value (block.knownAt index) = some part) :
    bodies.map Body.part ++ [part] =
      (bodies ++ block.selectedAt index label value).map Body.part := by
  rw [get?_knownAt] at known
  obtain ⟨body, selected, rfl⟩ := Option.map_eq_some_iff.mp known
  simp [selectedAt, completable, selected]

end Block

namespace Frame

structure Gathered (lower : String → Part → Logged LowerError (Lowered Member))
    (values : OrderedMap String Part) (content : Lowered Members) : Prop where
  keys : OrderedMap.keys content.value = OrderedMap.keys values
  member : ∀ value part, OrderedMap.get? value values = some part → ∃ lowered,
    (lower value part).result = .ok lowered ∧
      OrderedMap.get? value content.value = some lowered.value
  fields : content.fields = values.flatMap fun entry =>
    notedFields (lower entry.1 entry.2).result

theorem gathered_of_forEachValue {lower : String → Part → Logged LowerError (Lowered Member)}
    {values : OrderedMap String Part} {content : Lowered Members}
    (succeeded : (forEachValue lower values).result = .ok content) :
    Gathered lower values content := by
  induction values generalizing content with
  | nil =>
      cases succeeded
      exact ⟨rfl, by simp [OrderedMap.get?], rfl⟩
  | cons entry rest ih =>
      obtain ⟨value, part⟩ := entry
      simp only [forEachValue, Logged.result_bind, bind_eq_ok] at succeeded
      obtain ⟨member, first, others, later, built⟩ := succeeded
      cases built
      have gathered := ih later
      refine ⟨by simp [gathered.keys], fun key selected known => ?_, ?_⟩
      · by_cases same : value = key
        · subst same
          simp only [OrderedMap.get?, ↓reduceIte, Option.some.injEq] at known
          exact ⟨member, known ▸ first, by simp [OrderedMap.get?]⟩
        · simp only [OrderedMap.get?, same, ↓reduceIte] at known ⊢
          exact gathered.member key selected known
      · simp [gathered.fields, notedFields, first]

inductive Finishes (frame : Frame) (path : Path) (parts : List Part) (merged : Lowered Members) :
    Lowered Member → Prop
  | single (kind : frame.effectiveType path = .object) :
      Finishes frame path parts merged ⟨.container (frame.finishedDescription parts)
        (.object (Policy.isOpenObject path) merged.value), merged.fields⟩
  | listed (kind : frame.effectiveType path = .list ∨ frame.effectiveType path = .set) :
      Finishes frame path parts merged ⟨.container (frame.finishedDescription parts)
        (.bounded frame.minItems frame.maxItems
          (.object (Policy.isOpenObject path) merged.value)), []⟩

theorem finishes_of_finish {frame : Frame} {path : Path} {parts : List Part} {leaf : Lowered Member}
    (succeeded : (frame.finish path parts).result = .ok leaf) :
    ∃ merged, (mergeParts path parts ⟨[], []⟩).result = .ok merged ∧
      Finishes frame path parts merged leaf := by
  rw [finish] at succeeded
  cases kind : frame.effectiveType path with
  | object =>
      simp only [kind, single, Logged.result_bind, Logged.result_tell, ok_bind, bind_eq_ok]
        at succeeded
      obtain ⟨merged, lowers, built⟩ := succeeded
      cases built
      exact ⟨merged, lowers, .single kind⟩
  | list | set =>
      simp only [kind, listed, Logged.result_bind, Logged.result_tell, Logged.result_tellAll,
        ok_bind, bind_eq_ok] at succeeded
      obtain ⟨merged, lowers, built⟩ := succeeded
      cases built
      exact ⟨merged, lowers, .listed (by simp [kind])⟩
  | nil | map => simp [kind] at succeeded

theorem finish_of_finishes {frame : Frame} {path : Path} {parts : List Part}
    {merged : Lowered Members} {leaf : Lowered Member}
    (lowers : (mergeParts path parts ⟨[], []⟩).result = .ok merged)
    (finishes : Finishes frame path parts merged leaf) :
    (frame.finish path parts).result = .ok leaf := by
  rw [finish]
  cases finishes with
  | single kind => simp [kind, Frame.single, lowers]
  | listed kind => rcases kind with kind | kind <;> simp [kind, Frame.listed, lowers]

theorem finish_ok {block : Block} {path : Path} {bodies : List Body} {leaf : Lowered Member}
    (succeeded : (block.frame.finish path (bodies.map Body.part)).result = .ok leaf) :
    ∃ merged, (Body.lowerAll bodies path).result = .ok merged ∧ leaf.value.computed = false ∧
      block.finishedType path merged.value = some leaf.value.type ∧
      leaf.fields = block.finishedFields path merged.fields := by
  obtain ⟨merged, lowers, finishes⟩ := finishes_of_finish succeeded
  refine ⟨merged, lowers, ?_⟩
  simp only [Block.finishedType, Block.finishedFields]
  cases finishes with
  | single kind =>
      change block.effectiveType path = _ at kind
      rw [kind]
      exact ⟨rfl, rfl, rfl⟩
  | listed kind =>
      change block.effectiveType path = _ ∨ block.effectiveType path = _ at kind
      rcases kind with kind | kind <;> rw [kind] <;> exact ⟨rfl, rfl, rfl⟩

end Frame

namespace Block

def IsLevel (block : Block) (index : Nat) (label : Label) (path : Path) : ContractType → Prop
  | .object isOpen content =>
      label.completable = true ∧ isOpen = Policy.isOpenObject path ∧
        OrderedMap.keys content = block.namedValues index
  | .dictionary _ => label.completable = false
  | _ => False

structure Expanded (block : Block) (index : Nat) (labels : List Label) (bodies : List Body)
    (path : Path) (lowered : Lowered Member) : Prop where
  finished : ∀ tuple ∈ block.tuplesFrom index labels, ∃ merged spot,
    (Body.lowerAll (bodies ++ block.selectedFrom index labels tuple)
      (path.descend tuple)).result = .ok merged ∧
    (Spot.member lowered.value).follow? tuple = some spot ∧ spot.computed = false ∧
    block.finishedType (path.descend tuple) merged.value = some spot.type
  level : ∀ before label after, labels = before ++ label :: after →
    ∀ tuple ∈ block.tuplesFrom index before, ∃ spot,
      (Spot.member lowered.value).follow? tuple = some spot ∧ spot.computed = false ∧
      block.IsLevel (index + before.length) label (path.descend tuple) spot.type
  reach : ∀ segments last, (Spot.member lowered.value).follow? segments = some last →
    (∃ tuple ∈ block.tuplesFrom index labels, ∃ rest, segments = tuple ++ rest) ∨
      segments.length < labels.length ∧ last.computed = false
  fields : lowered.fields = (block.tuplesFrom index labels).flatMap fun tuple =>
    block.finishedFields (path.descend tuple) (notedFields
      (Body.lowerAll (bodies ++ block.selectedFrom index labels tuple)
        (path.descend tuple)).result)

theorem Expanded.plain {block : Block} {index : Nat} {labels : List Label} {bodies : List Body}
    {path : Path} {lowered : Lowered Member}
    (expanded : Expanded block index labels bodies path lowered) :
    lowered.value.computed = false := by
  cases labels with
  | nil =>
      obtain ⟨merged, spot, -, followed, plain, -⟩ := expanded.finished [] (by simp [tuplesFrom])
      cases followed
      exact plain
  | cons label rest =>
      obtain ⟨spot, followed, plain, -⟩ :=
        expanded.level [] label rest rfl [] (by simp [tuplesFrom])
      cases followed
      exact plain

theorem expanded_of_finish {block : Block} {index : Nat} {bodies : List Body} {path : Path}
    {lowered : Lowered Member}
    (succeeded : (block.frame.finish path (bodies.map Body.part)).result = .ok lowered) :
    Expanded block index [] bodies path lowered := by
  obtain ⟨merged, lowers, plain, type, fields⟩ := Frame.finish_ok succeeded
  constructor
  · intro tuple member
    cases List.mem_singleton.mp member
    exact ⟨merged, .member lowered.value, by simpa [selectedFrom] using lowers, rfl,
      plain, by simpa using type⟩
  · intro before label after split
    simp at split
  · exact fun segments last _ => .inl ⟨[], by simp [tuplesFrom], segments, rfl⟩
  · simp [tuplesFrom, selectedFrom, lowers, notedFields, fields]

theorem IsLevel.segment {block : Block} {index : Nat} {label : Label} {path : Path}
    {type : ContractType} (level : block.IsLevel index label path type) {segment : String}
    {next : Spot} (part : type.part? segment = some next) :
    segment ∈ block.segmentsAt index label := by
  cases type with
  | object isOpen content =>
      obtain ⟨completable, -, keys⟩ := level
      obtain ⟨member, found, -⟩ := Option.map_eq_some_iff.mp part
      rw [segmentsAt, completable, if_pos rfl, ← keys]
      exact List.mem_map_of_mem (OrderedMap.mem_of_get? found)
  | dictionary content =>
      have free : label.completable = false := level
      simp only [ContractType.part?, Option.ite_none_right_eq_some] at part
      simp [segmentsAt, free, part.1]
  | dynamic | string | number | bool | list => exact level.elim

/-- A label position is expanded when each of its segments leads to an expansion of the rest. -/
theorem expanded_cons {block : Block} {index : Nat} {label : Label} {labels : List Label}
    {bodies : List Body} {path : Path} {lowered : Lowered Member}
    (fieldsOf : String → List ComputedField)
    (plain : lowered.value.computed = false)
    (level : block.IsLevel index label path lowered.value.type)
    (parts : ∀ segment ∈ block.segmentsAt index label, ∃ inner next,
      Expanded block (index + 1) labels (bodies ++ block.selectedAt index label segment)
        (path.child segment) inner ∧
      inner.fields = fieldsOf segment ∧
      lowered.value.type.part? segment = some next ∧ next.type = inner.value.type ∧
      next.computed = false)
    (fields : lowered.fields = (block.segmentsAt index label).flatMap fieldsOf) :
    Expanded block index (label :: labels) bodies path lowered := by
  constructor
  · intro tuple member
    simp only [tuplesFrom, List.mem_flatMap, List.mem_map] at member
    obtain ⟨segment, segmentMem, rest, restMem, rfl⟩ := member
    obtain ⟨inner, next, expanded, -, part, sameType, nextPlain⟩ := parts segment segmentMem
    obtain ⟨merged, last, lowers, followed, lastPlain, finished⟩ := expanded.finished rest restMem
    obtain ⟨spot, reached, lastType, spotPlain⟩ :=
      Spot.follow?_of_type_eq next (by simpa) nextPlain followed lastPlain
    refine ⟨merged, spot, ?_, ?_, spotPlain, ?_⟩
    · simpa [selectedFrom, Path.descend_cons] using lowers
    · simp [part, reached]
    · rw [Path.descend_cons, finished, lastType]
  · intro before owner after split tuple member
    cases before with
    | nil =>
        simp only [List.nil_append, List.cons.injEq] at split
        cases List.mem_singleton.mp member
        exact ⟨.member lowered.value, rfl, plain, by simpa [split.1] using level⟩
    | cons first before =>
        simp only [List.cons_append, List.cons.injEq] at split
        obtain ⟨rfl, rfl⟩ := split
        simp only [tuplesFrom, List.mem_flatMap, List.mem_map] at member
        obtain ⟨segment, segmentMem, rest, restMem, rfl⟩ := member
        obtain ⟨inner, next, expanded, -, part, sameType, nextPlain⟩ := parts segment segmentMem
        obtain ⟨last, followed, lastPlain, below⟩ :=
          expanded.level before owner after rfl rest restMem
        obtain ⟨spot, reached, lastType, spotPlain⟩ :=
          Spot.follow?_of_type_eq next (by simpa) nextPlain followed lastPlain
        refine ⟨spot, by simp [part, reached], spotPlain, ?_⟩
        rw [Path.descend_cons, lastType, List.length_cons,
          show index + (before.length + 1) = index + 1 + before.length by omega]
        exact below
  · intro segments last followed
    cases segments with
    | nil =>
        cases followed
        exact .inr ⟨by simp, plain⟩
    | cons segment rest =>
        obtain ⟨next, part, followed⟩ := Option.bind_eq_some_iff.mp followed
        have segmentMem := level.segment part
        obtain ⟨inner, same, expanded, -, samePart, sameType, nextPlain⟩ := parts segment segmentMem
        cases part.symm.trans samePart
        obtain ⟨reached, below, reachedPlain⟩ : ∃ reached,
            (Spot.member inner.value).follow? rest = some reached ∧
              (reached.computed = false → last.computed = false) := by
          cases rest with
          | nil =>
              cases followed
              exact ⟨_, rfl, fun _ => nextPlain⟩
          | cons key rest => exact ⟨last, by simpa [sameType] using followed, id⟩
        rcases expanded.reach rest reached below with ⟨tuple, tupleMem, tail, rfl⟩ | short
        · refine .inl ⟨segment :: tuple, ?_, tail, rfl⟩
          simp only [tuplesFrom, List.mem_flatMap, List.mem_map]
          exact ⟨segment, segmentMem, tuple, tupleMem, rfl⟩
        · exact .inr ⟨by simpa using short.1, reachedPlain short.2⟩
  · rw [fields, tuplesFrom, List.flatMap_assoc]
    apply List.flatMap_congr
    intro segment segmentMem
    obtain ⟨inner, next, expanded, innerFields, -⟩ := parts segment segmentMem
    rw [← innerFields, expanded.fields, List.flatMap_map]
    simp [selectedFrom, Path.descend_cons]

theorem expanded_of_expand {block : Block} {index : Nat} {labels : List Label}
    {bodies : List Body} {path : Path} {lowered : Lowered Member}
    (succeeded : (block.frame.expand (block.choicesFrom index labels) (bodies.map Body.part)
      path).result = .ok lowered) :
    Expanded block index labels bodies path lowered := by
  induction labels generalizing index bodies path lowered with
  | nil => exact expanded_of_finish succeeded
  | cons label labels ih =>
      cases completable : label.completable with
      | false =>
          have segments := block.segmentsAt_of_free index completable
          rw [block.choicesFrom_of_free index labels completable] at succeeded
          simp only [Frame.expand, Logged.result_bind, bind_eq_ok] at succeeded
          obtain ⟨inner, lowers, built⟩ := succeeded
          cases built
          apply expanded_cons fun _ => inner.fields
          · rfl
          · exact completable
          · intro segment member
            rw [segments, List.mem_singleton] at member
            subst member
            exact ⟨inner, .content inner.value.type,
              by simpa [selectedAt, completable, Path.wildcard] using ih lowers, rfl,
              by simp [ContractType.part?, Member.container], rfl, rfl⟩
          · simp [segments]
      | true =>
          have segments := block.segmentsAt_of_completable index completable
          rw [block.choicesFrom_of_completable index labels completable] at succeeded
          simp only [Frame.expand, Logged.result_bind, bind_eq_ok] at succeeded
          obtain ⟨content, lowers, built⟩ := succeeded
          cases built
          have gathered := Frame.gathered_of_forEachValue lowers
          apply expanded_cons fun value => notedFields (block.frame.expand
            (block.choicesFrom (index + 1) labels)
            ((bodies ++ block.selectedAt index label value).map Body.part)
            (path.child value)).result
          · rfl
          · exact ⟨completable, rfl, by rw [gathered.keys, keys_knownAt]⟩
          · intro value member
            rw [segments, ← keys_knownAt] at member
            obtain ⟨part, known⟩ := OrderedMap.exists_of_mem_keys member
            obtain ⟨inner, lowersInner, found⟩ := gathered.member value part known
            rw [parts_append_known bodies completable known] at lowersInner
            have expanded := ih lowersInner
            exact ⟨inner, .member inner.value, expanded, by rw [lowersInner]; rfl,
              by simp [ContractType.part?, Member.container, found], rfl, expanded.plain⟩
          · rw [segments, ← keys_knownAt]
            apply gathered.fields.trans
            apply OrderedMap.flatMap_keys (block.distinct_knownAt index)
            intro value part known
            rw [parts_append_known bodies completable known]

theorem expanded_of_lower {block : Block} {path : Path} {lowered : Lowered Member}
    (noCatchAll : block.catchAll? = none) (succeeded : (block.lower path).result = .ok lowered) :
    Expanded block 0 block.labels block.body.toList path lowered := by
  rw [lower_eq_expand block path noCatchAll] at succeeded
  exact expanded_of_expand succeeded

/-- Every label tuple of a block leads to the block finished with its own body and the bodies that
the tuple selects. On the way there, a completable position is an object with the named values as
keys, and any other position is a dictionary. The computed attributes are those of the finished
blocks, tuple by tuple. -/
theorem lower_follows_tuples (block : Block) (path : Path) (lowered : Lowered Member)
    (noCatchAll : block.catchAll? = none) (succeeded : (block.lower path).result = .ok lowered) :
    (∀ tuple ∈ block.tuples, ∃ merged spot,
      (Body.lowerAll (block.bodiesFor tuple) (path.descend tuple)).result = .ok merged ∧
      (Spot.member lowered.value).follow? tuple = some spot ∧
      block.finishedType (path.descend tuple) merged.value = some spot.type) ∧
    (∀ before label after, block.labels = before ++ label :: after →
      ∀ tuple ∈ block.tuplesFrom 0 before, ∃ spot,
        (Spot.member lowered.value).follow? tuple = some spot ∧
        block.IsLevel before.length label (path.descend tuple) spot.type) ∧
    lowered.fields = block.tuples.flatMap fun tuple =>
      block.finishedFields (path.descend tuple) (notedFields
        (Body.lowerAll (block.bodiesFor tuple) (path.descend tuple)).result) := by
  have expanded := expanded_of_lower noCatchAll succeeded
  refine ⟨fun tuple member => ?_, fun before label after split tuple member => ?_, expanded.fields⟩
  · obtain ⟨merged, spot, lowers, followed, -, finished⟩ := expanded.finished tuple member
    exact ⟨merged, spot, lowers, followed, finished⟩
  · obtain ⟨spot, followed, -, level⟩ := expanded.level before label after split tuple member
    exact ⟨spot, followed, by simpa using level⟩

def doublyNamed : Block :=
  { labels := [⟨"type", none, true⟩, ⟨"name", none, false⟩]
    blockType := .object
    body := some { attributes := [("count", .optional [.number])] }
    dependents := [
      ⟨[⟨0, "disk"⟩, ⟨0, "image"⟩], { attributes := [("size", .optional [.number])] }⟩,
      ⟨[⟨0, "disk"⟩], { attributes := [("address", { isComputed := true })] }⟩] }

theorem doublyNamed_follows_tuples : ∃ lowered,
    doublyNamed.catchAll? = none ∧
    (doublyNamed.lower ⟨["resource"]⟩).result = .ok lowered ∧
    doublyNamed.tuples = [["disk", "_"], ["image", "_"]] ∧
    ∀ tuple ∈ doublyNamed.tuples, ∃ merged spot,
      (Body.lowerAll (doublyNamed.bodiesFor tuple)
        ((Path.mk ["resource"]).descend tuple)).result = .ok merged ∧
      (Spot.member lowered.value).follow? tuple = some spot ∧
      doublyNamed.finishedType ((Path.mk ["resource"]).descend tuple) merged.value =
        some spot.type :=
  ⟨_, rfl, rfl, rfl, (lower_follows_tuples doublyNamed ⟨["resource"]⟩ _ rfl rfl).1⟩

end Block

end ConfigContract
