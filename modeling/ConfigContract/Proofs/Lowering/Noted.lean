import ConfigContract.Lowering.Attribute
import ConfigContract.Proofs.Contract.Spot
import ConfigContract.Proofs.Lowering.Declaration
import ConfigContract.Proofs.Schema.WellFormed
import Mathlib.Data.List.Nodup

/-!
The notes of computed attributes beside the contract tree that they are about: a note is sound when
its path leads to a computed attribute, and the notes are complete when each computed attribute has
one. For attributes both hold, and no path is noted twice.
-/

namespace ConfigContract

/-- Whether a note should lead here: to a computed attribute, or to the content of a dictionary if
that comes from a computed catch-all. -/
def Spot.Noted (catchAll : Prop) : Spot → Prop
  | .member reached => reached.computed = true
  | .content held => held.isList = false ∧ catchAll

def Sound (path : Path) (start : Spot) (catchAll : List String → Prop)
    (fields : List ComputedField) : Prop :=
  ∀ field ∈ fields, ∃ segments last, field.path = path.segments ++ segments ∧
    start.follow? segments = some last ∧ last.type.isList = false ∧ last.Noted (catchAll segments)

def Complete (path : Path) (start : Spot) (catchAll : List String → Prop)
    (fields : List ComputedField) : Prop :=
  ∀ segments last, start.follow? segments = some last → last.Noted (catchAll segments) →
    path.segments ++ segments ∈ fields.map ComputedField.path

def Unique (fields : List ComputedField) : Prop := (fields.map ComputedField.path).Nodup

structure Faithful (path : Path) (start : Spot) (catchAll : List String → Prop)
    (fields : List ComputedField) : Prop where
  sound : Sound path start catchAll fields
  complete : Complete path start catchAll fields
  unique : Unique fields

theorem Spot.Noted.mono {first second : Prop} (implies : first → second) {spot : Spot}
    (noted : spot.Noted first) : spot.Noted second := by
  cases spot with
  | member reached => exact noted
  | content held => exact ⟨noted.1, implies noted.2⟩

theorem Spot.not_noted {catchAll : Prop} {spot : Spot} (plain : spot.computed = false)
    (absent : ¬ catchAll) : ¬ spot.Noted catchAll := by
  cases spot with
  | member reached => exact fun computed => Bool.false_ne_true (plain.symm.trans computed)
  | content held => exact fun noted => absent noted.2

theorem Sound.transfer {path : Path} {start other : Spot} {catchAll given : List String → Prop}
    {fields : List ComputedField} (sound : Sound path start catchAll fields)
    (same : other.type = start.type)
    (atStart : start.type.isList = false → start.Noted (catchAll []) → other.Noted (given []))
    (below : ∀ key rest, catchAll (key :: rest) → given (key :: rest)) :
    Sound path other given fields := by
  intro field fieldMem
  obtain ⟨segments, last, leads, followed, notList, noted⟩ := sound field fieldMem
  cases segments with
  | nil =>
      cases followed
      exact ⟨[], other, leads, rfl, same ▸ notList, atStart notList noted⟩
  | cons key rest =>
      exact ⟨key :: rest, last, leads, by rwa [Spot.follow?_cons, same], notList,
        noted.mono (below key rest)⟩

theorem Complete.transfer {path : Path} {start other : Spot} {catchAll given : List String → Prop}
    {fields : List ComputedField} (complete : Complete path start catchAll fields)
    (same : other.type = start.type)
    (atStart : other.Noted (given []) → start.Noted (catchAll []))
    (below : ∀ key rest, given (key :: rest) → catchAll (key :: rest)) :
    Complete path other given fields := by
  intro segments last followed noted
  cases segments with
  | nil =>
      cases followed
      exact complete [] start rfl (atStart noted)
  | cons key rest =>
      rw [Spot.follow?_cons, same] at followed
      exact complete (key :: rest) last followed (noted.mono (below key rest))

/-! Notes put together from branches, each with the segments that lead to where it starts -/

section Branches

variable {path : Path} {start : Spot} {catchAll : List String → Prop}
  {branches : List (List String × List ComputedField)}

theorem sound_branches
    (parts : ∀ branch ∈ branches, branch.2 ≠ [] → ∃ spot, start.follow? branch.1 = some spot ∧
      Sound (path.descend branch.1) spot (fun rest => catchAll (branch.1 ++ rest)) branch.2) :
    Sound path start catchAll (branches.flatMap Prod.snd) := by
  intro field fieldMem
  obtain ⟨branch, branchMem, noted⟩ := List.mem_flatMap.mp fieldMem
  obtain ⟨spot, reached, sound⟩ := parts branch branchMem (List.ne_nil_of_mem noted)
  obtain ⟨rest, last, leads, followed, notList, atLast⟩ := sound field noted
  refine ⟨branch.1 ++ rest, last, by simpa [Path.descend] using leads, ?_, notList, atLast⟩
  simp [Spot.follow?_append, reached, followed]

theorem complete_branches
    (parts : ∀ segments last, start.follow? segments = some last →
      last.Noted (catchAll segments) → ∃ branch ∈ branches, ∃ rest spot,
        segments = branch.1 ++ rest ∧ start.follow? branch.1 = some spot ∧
        Complete (path.descend branch.1) spot (fun rest => catchAll (branch.1 ++ rest)) branch.2) :
    Complete path start catchAll (branches.flatMap Prod.snd) := by
  intro segments last followed noted
  obtain ⟨branch, branchMem, rest, spot, rfl, reached, complete⟩ :=
    parts segments last followed noted
  rw [Spot.follow?_append, reached] at followed
  obtain ⟨field, fieldMem, leads⟩ := List.mem_map.mp (complete rest last followed noted)
  refine List.mem_map.mpr ⟨field, List.mem_flatMap.mpr ⟨_, branchMem, fieldMem⟩, ?_⟩
  simpa [Path.descend] using leads

/-- Branches of equally many segments note different paths unless they start at the same place, so
it is enough that a branch is empty when a later one starts where it does. -/
theorem unique_branches (path : Path) (count : Nat)
    (parts : ∀ branch ∈ branches, branch.1.length = count ∧ Unique branch.2 ∧
      ∀ field ∈ branch.2, ∃ rest, field.path = path.segments ++ (branch.1 ++ rest))
    (silent : ∀ before branch after, branches = before ++ branch :: after →
      branch.1 ∈ after.map Prod.fst → branch.2 = []) :
    Unique (branches.flatMap Prod.snd) := by
  induction branches with
  | nil => exact List.nodup_nil
  | cons branch rest ih =>
      have others : Unique (rest.flatMap Prod.snd) := by
        refine ih (fun later member => parts later (by simp [member])) ?_
        intro before later after split
        exact silent (branch :: before) later after (by simp [split])
      obtain ⟨sameLength, uniqueFirst, leads⟩ := parts branch (by simp)
      rw [Unique, List.flatMap_cons, List.map_append, List.nodup_append]
      refine ⟨uniqueFirst, others, ?_⟩
      rintro _ first _ second rfl
      obtain ⟨field, fieldMem, samePath⟩ := List.mem_map.mp first
      obtain ⟨other, otherMem, rfl⟩ := List.mem_map.mp second
      obtain ⟨later, laterMem, noted⟩ := List.mem_flatMap.mp otherMem
      obtain ⟨laterLength, -, laterLeads⟩ := parts later (by simp [laterMem])
      obtain ⟨tail, fieldPath⟩ := leads field fieldMem
      obtain ⟨otherTail, otherPath⟩ := laterLeads other noted
      rw [fieldPath, otherPath] at samePath
      have sameStart := List.append_inj_left (List.append_cancel_left samePath)
        (sameLength.trans laterLength.symm)
      have nothing := silent [] branch rest rfl (sameStart ▸ List.mem_map_of_mem laterMem)
      simp [nothing] at fieldMem

theorem silent_of_nodup (distinct : (branches.map Prod.fst).Nodup) :
    ∀ before branch after, branches = before ++ branch :: after →
      branch.1 ∈ after.map Prod.fst → branch.2 = [] := by
  rintro before branch after rfl again
  rw [List.map_append, List.map_cons, List.nodup_append] at distinct
  exact absurd again (List.nodup_cons.mp distinct.2.1).1

end Branches

theorem follow?_object (isOpen : Bool) (content : Members) (key : String) (rest : List String) :
    (Spot.content (.object isOpen content)).follow? (key :: rest) =
      (OrderedMap.get? key content).bind fun member => (Spot.member member).follow? rest := by
  cases found : OrderedMap.get? key content <;> simp [ContractType.part?, found]

/-! Attributes -/

variable {literal : Json → Prop}

def noCatchAll (_ : List String) : Prop := False

theorem faithful_of_no_part {path : Path} {type : ContractType}
    (noPart : ∀ segment, type.part? segment = none) :
    Faithful path (.content type) noCatchAll [] := by
  refine ⟨by simp [Sound], fun segments last followed noted => ?_, List.nodup_nil⟩
  cases segments with
  | nil =>
      cases followed
      exact noted.2.elim
  | cons segment rest => simp [noPart] at followed

theorem Sound.proper {path : Path} {type : ContractType} {fields : List ComputedField}
    (sound : Sound path (.content type) noCatchAll fields) {field : ComputedField}
    (member : field ∈ fields) : ∃ key rest last, field.path = path.segments ++ key :: rest ∧
      (Spot.content type).follow? (key :: rest) = some last ∧ last.type.isList = false ∧
      last.Noted False := by
  obtain ⟨segments, last, leads, followed, notList, noted⟩ := sound field member
  cases segments with
  | nil =>
      cases followed
      exact noted.2.elim
  | cons key rest => exact ⟨key, rest, last, leads, followed, notList, noted⟩

theorem faithful_member (member : Member) {path : Path} {fields own : List ComputedField}
    (inner : Faithful path (.content member.type) noCatchAll fields)
    (ownPaths : own.map ComputedField.path = if member.computed then [path.segments] else [])
    (notList : member.computed = true → member.type.isList = false) :
    Faithful path (.member member) noCatchAll (fields ++ own) := by
  have ownPath {field : ComputedField} (fieldMem : field ∈ own) :
      field.path = path.segments ∧ member.computed = true := by
    have listed : field.path ∈ own.map ComputedField.path := List.mem_map_of_mem fieldMem
    rw [ownPaths] at listed
    split at listed
    next computed => exact ⟨List.mem_singleton.mp listed, computed⟩
    next => simp at listed
  refine ⟨?_, ?_, ?_⟩
  · intro field fieldMem
    rcases List.mem_append.mp fieldMem with inside | itself
    · obtain ⟨key, rest, last, leads, followed, lastNotList, noted⟩ := inner.sound.proper inside
      exact ⟨key :: rest, last, leads, followed, lastNotList, noted⟩
    · obtain ⟨samePath, computed⟩ := ownPath itself
      exact ⟨[], .member member, by simp [samePath], rfl, notList computed, computed⟩
  · intro segments last followed noted
    rw [List.map_append, List.mem_append]
    cases segments with
    | nil =>
        cases followed
        have computed : member.computed = true := noted
        exact .inr (by simp [ownPaths, computed])
    | cons key rest => exact .inl (inner.complete (key :: rest) last followed noted)
  · rw [Unique, List.map_append, List.nodup_append]
    refine ⟨inner.unique, ?_, ?_⟩
    · rw [ownPaths]
      split <;> simp
    · rintro _ inside _ itself rfl
      obtain ⟨field, fieldMem, samePath⟩ := List.mem_map.mp inside
      obtain ⟨other, otherMem, rfl⟩ := List.mem_map.mp itself
      obtain ⟨key, rest, last, leads, -⟩ := inner.sound.proper fieldMem
      rw [leads, (ownPath otherMem).1] at samePath
      simp at samePath

theorem faithful_memberOf {declared : Attribute} {path : Path} {type : Yield ContractType}
    (inner : Faithful path (.content type.value) noCatchAll type.fields) :
    Faithful path (.member (memberOf declared path type).value) noCatchAll
      (memberOf declared path type).fields := by
  unfold memberOf
  split
  next list =>
    have silent := faithful_member
      ⟨declared.description.getD "", true, false, type.value⟩ inner (List.map_nil) (by simp)
    simpa using silent
  next single =>
    refine faithful_member ⟨_, _, _, type.value⟩ inner ?_ fun _ => by simpa using single
    simp only [classify]
    split <;> simp_all

def Reading.Faithful (reading : Reading) : Prop := ∀ path,
  ConfigContract.Faithful path (.content (reading.lower path).value) noCatchAll
    (reading.lower path).fields

theorem Reading.faithful_orElse {first rest : Reading} (ofFirst : first.Faithful)
    (ofRest : rest.Faithful) : (first.orElse rest).Faithful := by
  unfold orElse
  split
  next => exact ofFirst
  next => exact ofRest

theorem Reading.faithful_none : Reading.none.Faithful := fun _ =>
  faithful_of_no_part fun _ => rfl

theorem Reading.faithful_literal (type : ValueType) : (Reading.literal type.lower).Faithful := by
  intro path
  apply faithful_of_no_part
  intro segment
  cases type <;> rfl

theorem Reading.faithful_elements (minItems maxItems : UInt64)
    (element : Path → Yield ContractType) :
    (Reading.elements minItems maxItems element).Faithful := fun _ =>
  faithful_of_no_part fun _ => rfl

theorem Reading.faithful_object {attributes : List (String × Attribute)}
    (distinct : OrderedMap.Distinct attributes)
    (members : ∀ entry ∈ attributes, ∀ path, ConfigContract.Faithful path
      (.member (entry.2.lower path).value) noCatchAll (entry.2.lower path).fields) :
    (Reading.object fun path => lowerAttributes attributes path).Faithful := by
  intro path
  have lookup {key : String} {declared : Attribute} (member : (key, declared) ∈ attributes) :
      OrderedMap.get? key (lowerAttributes attributes path).value =
        some (declared.lower (path.child key)).value := by
    rw [lowerAttributes_value]
    apply OrderedMap.get?_of_mem
    · simpa [OrderedMap.Distinct, OrderedMap.keys, Function.comp_def] using distinct
    · exact List.mem_map_of_mem (f := fun entry : String × Attribute =>
        (entry.1, (entry.2.lower (path.child entry.1)).value)) member
  have branches : (lowerAttributes attributes path).fields =
      (attributes.map fun entry =>
        ([entry.1], (entry.2.lower (path.child entry.1)).fields)).flatMap Prod.snd := by
    simp [lowerAttributes_fields, List.flatMap_map]
  show ConfigContract.Faithful path (.content (.object false _)) noCatchAll
    (lowerAttributes attributes path).fields
  rw [branches]
  refine ⟨sound_branches ?_, complete_branches ?_, unique_branches path 1 ?_ (silent_of_nodup ?_)⟩
  · intro branch branchMem _
    obtain ⟨entry, entryMem, rfl⟩ := List.mem_map.mp branchMem
    refine ⟨.member (entry.2.lower (path.child entry.1)).value, ?_, ?_⟩
    · simp [ContractType.part?, lookup entryMem]
    · exact (members entry entryMem _).sound
  · intro segments last followed noted
    cases segments with
    | nil =>
        cases followed
        exact noted.2.elim
    | cons key rest =>
        rw [follow?_object, Option.bind_eq_some_iff] at followed
        obtain ⟨member, found, followed⟩ := followed
        have listed := OrderedMap.mem_of_get? found
        rw [lowerAttributes_value] at listed
        obtain ⟨entry, entryMem, same⟩ := List.mem_map.mp listed
        cases same
        refine ⟨_, List.mem_map_of_mem entryMem, rest,
          .member (entry.2.lower (path.child entry.1)).value, rfl, ?_, ?_⟩
        · simp [ContractType.part?, lookup entryMem]
        · exact (members entry entryMem _).complete
  · intro branch branchMem
    obtain ⟨entry, entryMem, rfl⟩ := List.mem_map.mp branchMem
    have faithful := members entry entryMem (path.child entry.1)
    refine ⟨rfl, faithful.unique, fun field fieldMem => ?_⟩
    obtain ⟨rest, last, leads, -⟩ := faithful.sound field fieldMem
    exact ⟨rest, by simpa using leads⟩
  · simpa [OrderedMap.keys, Function.comp_def] using
      List.Nodup.map (fun _ _ same => (List.cons.inj same).1 : Function.Injective
        fun key : String => [key]) distinct

mutual

theorem Attribute.faithful_lower : ∀ declared : Attribute, declared.WellFormed literal → ∀ path,
    Faithful path (.member (declared.lower path).value) noCatchAll (declared.lower path).fields
  | ⟨_, _, _, _, _, constraints⟩, wellFormed, path =>
      faithful_memberOf (faithful_deciding constraints wellFormed path)

theorem Constraint.faithful_reading : ∀ constraint : Constraint, constraint.WellFormed literal →
    constraint.reading.Faithful
  | .object attributes, wellFormed =>
      Reading.faithful_object wellFormed.1 (faithful_attributes attributes wellFormed.2)
  | .list _ minItems maxItems, _ => Reading.faithful_elements minItems maxItems _
  | .set _ minItems maxItems, _ => Reading.faithful_elements minItems maxItems _
  | .map _, _ => Reading.faithful_none
  | .tuple _, _ => Reading.faithful_none
  | .literalType type, _ => Reading.faithful_literal type
  | .literalValue _, _ => Reading.faithful_none
  | .keyword _, _ => Reading.faithful_none
  | .reference, _ => Reading.faithful_none

theorem faithful_deciding : ∀ constraints : List Constraint,
    constraintsWellFormed literal constraints →
    (deciding constraints).Faithful
  | [], _ => Reading.faithful_none
  | constraint :: rest, wellFormed =>
      Reading.faithful_orElse (constraint.faithful_reading wellFormed.1)
        (faithful_deciding rest wellFormed.2)

theorem faithful_attributes : ∀ attributes : List (String × Attribute),
    attributesWellFormed literal attributes → ∀ entry ∈ attributes, ∀ path,
      Faithful path (.member (entry.2.lower path).value) noCatchAll (entry.2.lower path).fields
  | (_, declared) :: rest, wellFormed, entry, member, path => by
      rcases List.mem_cons.mp member with rfl | later
      · exact declared.faithful_lower wellFormed.1 path
      · exact faithful_attributes rest wellFormed.2 entry later path

end

end ConfigContract
