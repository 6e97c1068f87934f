import ConfigContract.Proofs.Lowering.Report

/-!
Which dependent bodies take part at a label tuple. Labels are classified position by position: a
completable one selects the last dependent body that names its value, whatever keys that body has
for other positions.
-/

namespace ConfigContract

/-! The place of the last item that satisfies a predicate -/

section LastPlace

variable {α β : Type}

def lastPlace? (holds : α → Bool) : List α → Option Nat
  | [] => none
  | item :: rest =>
      ((lastPlace? holds rest).map (· + 1)).or (if holds item then some 0 else none)

theorem lastPlace?_map (holds : β → Bool) (f : α → β) (items : List α) :
    lastPlace? holds (items.map f) = lastPlace? (fun item => holds (f item)) items := by
  induction items with
  | nil => rfl
  | cons item rest ih => simp only [List.map_cons, lastPlace?, ih]

theorem lastPlace?_eq_none_iff {holds : α → Bool} {items : List α} :
    lastPlace? holds items = none ↔ ∀ item ∈ items, holds item = false := by
  induction items with
  | nil => simp [lastPlace?]
  | cons item rest ih => cases here : holds item <;> simp [lastPlace?, here, ih]

theorem lastPlace?_eq_some_iff {holds : α → Bool} {items : List α} {place : Nat} :
    lastPlace? holds items = some place ↔
      (∃ item, items[place]? = some item ∧ holds item = true) ∧
        ∀ later item, place < later → items[later]? = some item → holds item = false := by
  induction items generalizing place with
  | nil => simp [lastPlace?]
  | cons first rest ih =>
      rw [lastPlace?]
      cases place with
      -- the first item is the last that satisfies the predicate if none of the rest does
      | zero =>
          have others : lastPlace? holds rest = none ↔ ∀ later item, 0 < later →
              (first :: rest)[later]? = some item → holds item = false := by
            rw [lastPlace?_eq_none_iff]
            constructor
            · intro none later item positive found
              obtain ⟨before, rfl⟩ := Nat.exists_eq_add_one.mpr positive
              exact none item (List.mem_of_getElem? found)
            · intro none item member
              obtain ⟨before, found⟩ := List.mem_iff_getElem?.mp member
              exact none (before + 1) item (by omega) found
          rw [← others]
          cases lastPlace? holds rest <;> simp
      | succ before =>
          have shifted : (∀ later item, before < later → rest[later]? = some item →
              holds item = false) ↔ ∀ later item, before + 1 < later →
                (first :: rest)[later]? = some item → holds item = false := by
            constructor
            · intro none later item after found
              obtain ⟨earlier, rfl⟩ := Nat.exists_eq_add_one.mpr (Nat.zero_lt_of_lt after)
              exact none earlier item (by omega) found
            · exact fun none later item after found => none (later + 1) item (by omega) found
          rw [← shifted, List.getElem?_cons_succ, ← ih]
          cases lastPlace? holds rest with
          | none => cases holds first <;> simp
          | some place => simp

theorem find?_reverse (holds : α → Bool) (items : List α) :
    items.reverse.find? holds = (lastPlace? holds items).bind fun place => items[place]? := by
  induction items with
  | nil => rfl
  | cons item rest ih =>
      rw [List.reverse_cons, List.find?_append, ih, lastPlace?]
      cases later : lastPlace? holds rest with
      | none => cases here : holds item <;> simp [here]
      | some place =>
          obtain ⟨⟨last, found, -⟩, -⟩ := lastPlace?_eq_some_iff.mp later
          simp [found]

end LastPlace

namespace Block

variable {block : Block} {path : Path} {tuple : List String}

/-! What a label tuple selects -/

structure NamedLast (block : Block) (position : Nat) (value : String) (place : Nat) : Prop where
  here : ∃ dependent, block.dependents[place]? = some dependent ∧
    dependent.carries position value = true
  last : ∀ later dependent, place < later → block.dependents[later]? = some dependent →
    dependent.carries position value = false

def placeFor (block : Block) (position : Nat) (value : String) : Option Nat :=
  lastPlace? (fun dependent => dependent.carries position value) block.dependents

structure Selects (block : Block) (tuple : List String) (position place : Nat) : Prop where
  completable : ∃ label, block.labels[position]? = some label ∧ label.completable = true
  named : ∃ value, tuple[position]? = some value ∧ block.NamedLast position value place

def selectionFrom (block : Block) : Nat → List Label → List String → List (Nat × Nat)
  | position, label :: labels, segment :: tuple =>
      (if label.completable then (block.placeFor position segment).toList.map (position, ·)
        else []) ++ selectionFrom block (position + 1) labels tuple
  | _, _, _ => []

def selection (block : Block) (tuple : List String) : List (Nat × Nat) :=
  block.selectionFrom 0 block.labels tuple

def bodyAt? (block : Block) (place : Nat) : Option Body :=
  block.dependents[place]?.map DependentBody.body

theorem placeFor_eq_some_iff {position place : Nat} {value : String} :
    block.placeFor position value = some place ↔ block.NamedLast position value place :=
  lastPlace?_eq_some_iff.trans ⟨fun ⟨here, last⟩ => ⟨here, last⟩, fun ⟨here, last⟩ => ⟨here, last⟩⟩

theorem dependentFor_eq (block : Block) (position : Nat) (value : String) :
    block.dependentFor position value = (block.placeFor position value).bind block.bodyAt? := by
  rw [dependentFor, find?_reverse, Option.map_bind]
  rfl

theorem mem_selectionFrom {start position place : Nat} {labels : List Label} :
    (position, place) ∈ block.selectionFrom start labels tuple ↔
      ∃ offset, position = start + offset ∧
        (∃ label, labels[offset]? = some label ∧ label.completable = true) ∧
        ∃ value, tuple[offset]? = some value ∧ block.NamedLast position value place := by
  induction labels generalizing start tuple with
  | nil => simp [selectionFrom]
  | cons label labels ih =>
      cases tuple with
      | nil => simp [selectionFrom]
      | cons segment tuple =>
          rw [selectionFrom, List.mem_append, ih]
          constructor
          · rintro (here | ⟨offset, rfl, completable, named⟩)
            · split at here
              next completable =>
                obtain ⟨found, known, same⟩ := List.mem_map.mp here
                cases same
                have named := placeFor_eq_some_iff.mp (Option.mem_toList.mp known)
                exact ⟨0, rfl, ⟨label, rfl, completable⟩, segment, rfl, named⟩
              next => simp at here
            · exact ⟨offset + 1, by omega, completable, named⟩
          · rintro ⟨offset, rfl, completable, named⟩
            cases offset with
            | zero =>
                obtain ⟨_, here, completable⟩ := completable
                obtain ⟨_, read, named⟩ := named
                cases here
                cases read
                have known := Option.mem_toList.mpr (placeFor_eq_some_iff.mpr named)
                rw [if_pos completable]
                exact .inl (List.mem_map_of_mem known)
            | succ offset =>
                exact .inr ⟨offset, by omega, completable, named⟩

theorem mem_selection {position place : Nat} :
    (position, place) ∈ block.selection tuple ↔ block.Selects tuple position place := by
  rw [selection, mem_selectionFrom]
  constructor
  · rintro ⟨offset, rfl, completable, named⟩
    rw [Nat.zero_add] at named
    exact ⟨by simpa using completable, by simpa using named⟩
  · rintro ⟨completable, named⟩
    exact ⟨position, (Nat.zero_add position).symm, completable, named⟩

theorem pairwise_selectionFrom (block : Block) (start : Nat) (labels : List Label)
    (tuple : List String) :
    (block.selectionFrom start labels tuple).Pairwise fun first second => first.1 < second.1 := by
  induction labels generalizing start tuple with
  | nil => simp [selectionFrom]
  | cons label labels ih =>
      cases tuple with
      | nil => simp [selectionFrom]
      | cons segment tuple =>
          rw [selectionFrom]
          refine List.pairwise_append.mpr ⟨?here, ih (start + 1) tuple, ?apart⟩
          case here =>
            split
            next => cases block.placeFor start segment <;> simp
            next => exact .nil
          case apart =>
            rintro first here ⟨position, place⟩ later
            have same : first.1 = start := by
              split at here
              next =>
                obtain ⟨_, -, rfl⟩ := List.mem_map.mp here
                rfl
              next => simp at here
            obtain ⟨offset, rfl, -⟩ := mem_selectionFrom.mp later
            omega

theorem selectedFrom_eq (block : Block) (start : Nat) (labels : List Label)
    (tuple : List String) : block.selectedFrom start labels tuple =
      (block.selectionFrom start labels tuple).filterMap fun selected =>
        block.bodyAt? selected.2 := by
  induction labels generalizing start tuple with
  | nil => rfl
  | cons label labels ih =>
      cases tuple with
      | nil => rfl
      | cons segment tuple =>
          rw [selectedFrom, selectionFrom, List.filterMap_append, ← ih, selectedAt, dependentFor_eq]
          cases label.completable with
          | false => rfl
          | true =>
              cases block.placeFor start segment with
              | none => rfl
              | some place => cases found : block.bodyAt? place <;> simp [found]

theorem bodiesFor_eq (block : Block) (tuple : List String) : block.bodiesFor tuple =
    block.body.toList ++ (block.selection tuple).filterMap fun selected =>
      block.bodyAt? selected.2 := by
  rw [bodiesFor, selectedFrom_eq, selection]

/-! Another body in the place of a dependent one -/

def withBodyAt (block : Block) (place : Nat) (body : Body) : Block :=
  { block with
    dependents := block.dependents.modify place fun dependent => { dependent with body } }

section WithBodyAt

variable (place : Nat) (body : Body)

theorem keys_withBodyAt (block : Block) :
    (block.withBodyAt place body).dependents.map DependentBody.keys =
      block.dependents.map DependentBody.keys := by
  apply List.ext_getElem?
  intro other
  by_cases same : place = other <;> simp [withBodyAt, same, Function.comp_def]

theorem bodyAt?_withBodyAt {other : Nat} (different : place ≠ other) :
    (block.withBodyAt place body).bodyAt? other = block.bodyAt? other := by
  simp [bodyAt?, withBodyAt, different]

theorem placeFor_withBodyAt (block : Block) :
    (block.withBodyAt place body).placeFor = block.placeFor := by
  funext position value
  have ofKeys (block : Block) : block.placeFor position value =
      lastPlace? (fun keys => keys.any fun key => key.index.toNat == position && key.value == value)
        (block.dependents.map DependentBody.keys) := by
    rw [lastPlace?_map]
    rfl
  rw [ofKeys, ofKeys, keys_withBodyAt]

theorem selection_withBodyAt (block : Block) :
    (block.withBodyAt place body).selection = block.selection := by
  have everyStart (start : Nat) (labels : List Label) (tuple : List String) :
      (block.withBodyAt place body).selectionFrom start labels tuple =
        block.selectionFrom start labels tuple := by
    induction labels generalizing start tuple with
    | nil => rfl
    | cons label labels ih =>
        cases tuple with
        | nil => rfl
        | cons segment tuple => rw [selectionFrom, selectionFrom, ih, placeFor_withBodyAt]
  funext tuple
  exact everyStart 0 block.labels tuple

theorem tuples_withBodyAt (block : Block) :
    (block.withBodyAt place body).tuples = block.tuples := by
  have named : (block.withBodyAt place body).namedValues = block.namedValues := by
    funext index
    simp only [namedValues, List.flatMap, keys_withBodyAt]
  have everyStart (start : Nat) (labels : List Label) :
      (block.withBodyAt place body).tuplesFrom start labels = block.tuplesFrom start labels := by
    induction labels generalizing start with
    | nil => rfl
    | cons label labels ih => simp only [tuplesFrom, segmentsAt, named, ih]
  exact everyStart 0 block.labels

theorem bodiesFor_withBodyAt (unselected : ∀ position, ¬ block.Selects tuple position place) :
    (block.withBodyAt place body).bodiesFor tuple = block.bodiesFor tuple := by
  rw [bodiesFor_eq, bodiesFor_eq, selection_withBodyAt]
  congr 1
  apply List.filterMap_congr
  rintro ⟨position, other⟩ selected
  refine bodyAt?_withBodyAt place body ?_
  rintro rfl
  exact unselected position (mem_selection.mp selected)

end WithBodyAt

/-! What is at a label tuple -/

def typeAt? (block : Block) (path : Path) (tuple : List String) : Option ContractType :=
  (block.lower path).result.toOption.bind fun lowered =>
    ((Spot.member lowered.value).follow? tuple).map Spot.type

/-- A dependent body contributes at a label tuple if the type there or the computed attributes noted
there depend on it. -/
def Contributes (block : Block) (path : Path) (tuple : List String) (place : Nat) : Prop :=
  ∃ body, (∃ lowered, ((block.withBodyAt place body).lower path).result = .ok lowered) ∧
    ((block.withBodyAt place body).typeAt? path tuple ≠ block.typeAt? path tuple ∨
      (block.withBodyAt place body).notedAt path tuple ≠ block.notedAt path tuple)

theorem typeAt?_of_lower {lowered : Lowered Member} (noCatchAll : block.catchAll? = none)
    (succeeded : (block.lower path).result = .ok lowered) (member : tuple ∈ block.tuples) :
    ∃ merged, (Body.lowerAll (block.bodiesFor tuple) (path.descend tuple)).result = .ok merged ∧
      (block.typeAt? path tuple).isSome = true ∧
      block.typeAt? path tuple = block.finishedType (path.descend tuple) merged.value ∧
      block.notedAt path tuple = block.finishedFields (path.descend tuple) merged.fields := by
  obtain ⟨merged, spot, lowers, followed, -, finished⟩ :=
    (expanded_of_lower noCatchAll succeeded).finished tuple member
  have type : block.typeAt? path tuple = some spot.type := by
    simp [typeAt?, succeeded, followed, Except.toOption]
  refine ⟨merged, lowers, by simp [type], type.trans finished.symm, ?_⟩
  simp [notedAt, bodiesFor, lowers, notedFields]

theorem exists_selects_of_contributes {lowered : Lowered Member}
    (noCatchAll : block.catchAll? = none) (succeeded : (block.lower path).result = .ok lowered)
    (member : tuple ∈ block.tuples) {place : Nat} (contributes : block.Contributes path tuple place) :
    ∃ position, block.Selects tuple position place := by
  by_contra unselected
  obtain ⟨body, ⟨changed, succeededToo⟩, differs⟩ := contributes
  -- with the other body in its place, the tuple is still finished with the same bodies
  have bodies := bodiesFor_withBodyAt place body (not_exists.mp unselected)
  have memberToo : tuple ∈ (block.withBodyAt place body).tuples :=
    tuples_withBodyAt place body block ▸ member
  have noCatchAllToo : (block.withBodyAt place body).catchAll? = none := noCatchAll
  obtain ⟨merged, lowers, -, type, noted⟩ := typeAt?_of_lower noCatchAll succeeded member
  obtain ⟨other, lowersToo, -, typeToo, notedToo⟩ :=
    typeAt?_of_lower noCatchAllToo succeededToo memberToo
  rw [bodies, lowers] at lowersToo
  cases lowersToo
  rcases differs with different | different
  · exact different (typeToo.trans type.symm)
  · exact different (notedToo.trans noted.symm)

/-! Keys -/

def completableKeys (block : Block) (dependent : DependentBody) : List LabelKey :=
  dependent.keys.filter fun key => block.labels[key.index.toNat]?.any Label.completable

def Matches (block : Block) (dependent : DependentBody) (tuple : List String) : Prop :=
  ∀ key ∈ block.completableKeys dependent, tuple[key.index.toNat]? = some key.value

theorem Selects.exists_key {position place : Nat} (selects : block.Selects tuple position place)
    {dependent : DependentBody} (listed : block.dependents[place]? = some dependent) :
    ∃ key ∈ block.completableKeys dependent, key.index.toNat = position ∧
      tuple[position]? = some key.value := by
  obtain ⟨⟨label, found, completable⟩, value, read, ⟨_, same, carries⟩, -⟩ := selects
  cases listed.symm.trans same
  obtain ⟨key, member, here⟩ := List.any_eq_true.mp carries
  obtain ⟨rfl, rfl⟩ : key.index.toNat = position ∧ key.value = value := by simpa using here
  exact ⟨key, List.mem_filter.mpr ⟨member, by simp [found, completable]⟩, rfl, read⟩

def SinglyKeyed (block : Block) (dependent : DependentBody) : Prop :=
  ∀ key ∈ block.completableKeys dependent, ∀ other ∈ block.completableKeys dependent, other = key

namespace Selects

variable {position place : Nat} {dependent : DependentBody}
  (selects : block.Selects tuple position place)
  (listed : block.dependents[place]? = some dependent) (single : block.SinglyKeyed dependent)
include selects listed single

theorem matches_of_singlyKeyed : block.Matches dependent tuple := by
  obtain ⟨key, member, rfl, read⟩ := selects.exists_key listed
  intro other memberToo
  cases single key member other memberToo
  exact read

theorem position_unique {other : Nat} (selectsToo : block.Selects tuple other place) :
    position = other := by
  obtain ⟨key, member, rfl, -⟩ := selects.exists_key listed
  obtain ⟨another, memberToo, rfl, -⟩ := selectsToo.exists_key listed
  rw [single key member another memberToo]

end Selects

/-- What a label tuple leads to is the block finished with its own body and, label by label, with
selected dependent ones. -/
structure FinishedFrom (block : Block) (path : Path) (tuple : List String)
    (selection : List (Nat × Nat)) : Prop where
  finished : ∃ merged, (Body.lowerAll (block.body.toList ++ selection.filterMap fun selected =>
      block.bodyAt? selected.2) (path.descend tuple)).result = .ok merged ∧
    (block.typeAt? path tuple).isSome = true ∧
    block.typeAt? path tuple = block.finishedType (path.descend tuple) merged.value ∧
    block.notedAt path tuple = block.finishedFields (path.descend tuple) merged.fields
  ascending : selection.Pairwise fun first second => first.1 < second.1
  selects : ∀ position place, (position, place) ∈ selection → block.Selects tuple position place
  complete : ∀ position place, block.Selects tuple position place →
    place ∈ selection.map Prod.snd

theorem finishedFrom_selection {lowered : Lowered Member} (noCatchAll : block.catchAll? = none)
    (succeeded : (block.lower path).result = .ok lowered) (member : tuple ∈ block.tuples) :
    block.FinishedFrom path tuple (block.selection tuple) where
  finished := by
    rw [← bodiesFor_eq]
    exact typeAt?_of_lower noCatchAll succeeded member
  ascending := block.pairwise_selectionFrom 0 block.labels tuple
  selects _ _ := mem_selection.mp
  complete _ _ selects := List.mem_map_of_mem (mem_selection.mpr selects)

theorem count_place_le_one {selection : List (Nat × Nat)} {place : Nat}
    (ascending : selection.Pairwise fun first second => first.1 < second.1)
    (unique : ∀ position other, (position, place) ∈ selection → (other, place) ∈ selection →
      position = other) : (selection.map Prod.snd).count place ≤ 1 := by
  induction selection with
  | nil => simp
  | cons first rest ih =>
      obtain ⟨position, selected⟩ := first
      obtain ⟨below, ascending⟩ := List.pairwise_cons.mp ascending
      have counted := ih ascending fun position other member memberToo =>
        unique position other (List.mem_cons_of_mem _ member) (List.mem_cons_of_mem _ memberToo)
      by_cases here : selected = place
      · subst here
        have absent : selected ∉ rest.map Prod.snd := by
          intro later
          obtain ⟨⟨other, _⟩, member, rfl⟩ := List.mem_map.mp later
          have same := unique position other List.mem_cons_self (List.mem_cons_of_mem _ member)
          exact absurd (below _ member) (by simp [same])
        simp [List.count_eq_zero.mpr absent]
      · simpa [List.count_cons, here] using counted

/-- A completable label selects one dependent body, the last that has its value in the tuple as a
key; the keys of that body for other labels do not count. The object at the tuple is finished with
the block's own body and with selected ones, and no other dependent body contributes. So a dependent
body with a single key contributes only where that key matches, and once. -/
theorem dependents_apply_by_position (block : Block) (path : Path) (lowered : Lowered Member)
    (noCatchAll : block.catchAll? = none) (succeeded : (block.lower path).result = .ok lowered) :
    lowered.fields = block.tuples.flatMap (block.notedAt path) ∧
    ∀ tuple ∈ block.tuples, ∃ selection, block.FinishedFrom path tuple selection ∧
      (∀ place, block.Contributes path tuple place →
        ∃ position, block.Selects tuple position place) ∧
      ∀ place dependent, block.dependents[place]? = some dependent →
        block.SinglyKeyed dependent →
        (block.Contributes path tuple place → block.Matches dependent tuple) ∧
        (selection.map Prod.snd).count place ≤ 1 := by
  refine ⟨(expanded_of_lower noCatchAll succeeded).fields, fun tuple member => ?_⟩
  have finished := finishedFrom_selection noCatchAll succeeded member
  have onlySelected (place : Nat) (contributes : block.Contributes path tuple place) :
      ∃ position, block.Selects tuple position place :=
    exists_selects_of_contributes noCatchAll succeeded member contributes
  refine ⟨block.selection tuple, finished, onlySelected, fun place dependent listed single =>
    ⟨fun contributes => ?matched, count_place_le_one finished.ascending ?once⟩⟩
  case matched =>
    obtain ⟨position, selects⟩ := onlySelected place contributes
    exact selects.matches_of_singlyKeyed listed single
  case once =>
    intro position other selected selectedToo
    have selects := finished.selects position place selected
    exact selects.position_unique listed single (finished.selects other place selectedToo)

def partlyKeyed : Block :=
  { labels := [⟨"type", none, true⟩, ⟨"name", none, true⟩]
    blockType := .object
    dependents := [
      ⟨[⟨0, "disk"⟩, ⟨1, "main"⟩], { attributes := [("size", { isComputed := true })] }⟩,
      ⟨[⟨1, "spare"⟩], {}⟩] }

theorem partlyKeyed_applies_by_position : ∃ lowered,
    partlyKeyed.catchAll? = none ∧
    (partlyKeyed.lower ⟨["resource"]⟩).result = .ok lowered ∧
    ["disk", "main"] ∈ partlyKeyed.tuples ∧
    lowered.fields = partlyKeyed.tuples.flatMap (partlyKeyed.notedAt ⟨["resource"]⟩) ∧
    ¬ partlyKeyed.Contributes ⟨["resource"]⟩ ["disk", "main"] 1 := by
  have member : ["disk", "main"] ∈ partlyKeyed.tuples := by decide
  obtain ⟨fields, applies⟩ :=
    dependents_apply_by_position partlyKeyed ⟨["resource"]⟩ _ rfl rfl
  obtain ⟨_, -, onlySelected, -⟩ := applies _ member
  refine ⟨_, rfl, rfl, member, fields, fun contributes => ?_⟩
  obtain ⟨position, selects⟩ := onlySelected 1 contributes
  have selection : partlyKeyed.selection ["disk", "main"] = [(0, 0), (1, 0)] := rfl
  simpa [selection] using mem_selection.mpr selects

/-- A dependent body contributes although one of its keys does not match, and where both of its keys
match it is noted twice. -/
theorem partlyKeyed_contributes_unmatched : ∃ lowered dependent,
    partlyKeyed.catchAll? = none ∧
    (partlyKeyed.lower ⟨["resource"]⟩).result = .ok lowered ∧
    ["disk", "spare"] ∈ partlyKeyed.tuples ∧
    partlyKeyed.dependents[0]? = some dependent ∧
    partlyKeyed.Contributes ⟨["resource"]⟩ ["disk", "spare"] 0 ∧
    ¬ partlyKeyed.Matches dependent ["disk", "spare"] ∧
    lowered.fields = [
      ⟨true, ["resource", "disk", "main", "size"]⟩,
      ⟨true, ["resource", "disk", "main", "size"]⟩,
      ⟨true, ["resource", "disk", "spare", "size"]⟩] := by
  refine ⟨_, _, rfl, rfl, by decide, rfl, ?contributes, ?unmatched, rfl⟩
  case contributes =>
    have noted : partlyKeyed.notedAt ⟨["resource"]⟩ ["disk", "spare"] =
        [⟨true, ["resource", "disk", "spare", "size"]⟩] := rfl
    have emptied : (partlyKeyed.withBodyAt 0 {}).notedAt ⟨["resource"]⟩ ["disk", "spare"] = [] :=
      rfl
    exact ⟨{}, ⟨_, rfl⟩, .inr (by simp [noted, emptied])⟩
  case unmatched =>
    intro matched
    have second := matched ⟨1, "main"⟩ (by decide)
    simp at second

end Block

end ConfigContract
