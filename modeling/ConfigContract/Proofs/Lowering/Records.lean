import ConfigContract.Proofs.Lowering.Expansion
import ConfigContract.Proofs.Lowering.Nesting

/-!
The computed attributes of bodies, read off the declarations in one walk: where an attribute is met,
and whether its flags make it computed. Lists hide what they hold, as elements and as blocks.
-/

namespace ConfigContract

namespace Constraint

def isObject : Constraint → Bool
  | .object _ => true
  | _ => false

def hasElements : Constraint → Bool
  | .list .. | .set .. => true
  | _ => false

end Constraint

/-- Whether a list is what alternative forms come to: one is a list or a set, and none an object. -/
def resolvesToList (constraints : List Constraint) : Bool :=
  constraints.any Constraint.hasElements && !constraints.any Constraint.isObject

mutual

/-- The records of an attribute: those of the members of its first object form, then its own. -/
def Attribute.records : Attribute → Path → List ComputedField
  | ⟨_, isOptional, isRequired, isComputed, _, constraints⟩, path =>
      objectRecords constraints path ++
        if isComputed && !isRequired && !resolvesToList constraints then
          [⟨!isOptional || path.last? == some "id", path.segments⟩]
        else []

def objectRecords : List Constraint → Path → List ComputedField
  | [], _ => []
  | .object attributes :: _, path => attributeRecords attributes path
  | _ :: rest, path => objectRecords rest path

def attributeRecords : List (String × Attribute) → Path → List ComputedField
  | [], _ => []
  | (key, declared) :: rest, path =>
      declared.records (path.child key) ++ attributeRecords rest path

end

namespace Block

def isListed (block : Block) (path : Path) : Bool :=
  block.effectiveType path == .list || block.effectiveType path == .set

/-- The records of a block: those of its catch-all, or else, label tuple by label tuple, those of
the bodies that the tuple selects. -/
def records (block : Block) (place : Path) : List ComputedField :=
  match block.catchAll? with
  | some declared => declared.records place.wildcard
  | none => block.tuples.flatMap fun tuple =>
      if block.isListed (place.descend tuple) then []
      else (block.bodiesFor tuple).attach.flatMap fun body =>
        attributeRecords body.1.attributes (place.descend tuple) ++
          body.1.blocks.attach.flatMap fun entry =>
            records entry.1.2 ((place.descend tuple).child entry.1.1)
termination_by sizeOf block
decreasing_by exact Nat.lt_trans (Body.sizeOf_block entry.2) (sizeOf_bodiesFor body.2)

end Block

namespace Body

/-- One body after another, the attributes of each before its blocks. -/
def records (bodies : List Body) (path : Path) : List ComputedField :=
  bodies.flatMap fun body => attributeRecords body.attributes path ++
    body.blocks.flatMap fun entry => entry.2.records (path.child entry.1)

end Body

namespace Block

variable {block : Block}

theorem records_of_catchAll {declared : Attribute} (catchAll : block.catchAll? = some declared)
    (place : Path) : block.records place = declared.records place.wildcard := by
  rw [records, catchAll]

theorem records_of_labels (noCatchAll : block.catchAll? = none) (place : Path) :
    block.records place = block.tuples.flatMap fun tuple =>
      if block.isListed (place.descend tuple) then []
      else Body.records (block.bodiesFor tuple) (place.descend tuple) := by
  have inside (body : Body) (path : Path) :
      body.blocks.attach.flatMap (fun entry => entry.1.2.records (path.child entry.1.1)) =
        body.blocks.flatMap fun entry => entry.2.records (path.child entry.1) :=
    Body.flatMap_attach _ fun entry : String × Block => entry.2.records (path.child entry.1)
  have selected (tuple : List String) :
      (block.bodiesFor tuple).attach.flatMap (fun body =>
        attributeRecords body.1.attributes (place.descend tuple) ++
          body.1.blocks.flatMap fun entry =>
            entry.2.records ((place.descend tuple).child entry.1)) =
        Body.records (block.bodiesFor tuple) (place.descend tuple) :=
    Body.flatMap_attach _ fun body : Body => attributeRecords body.attributes (place.descend tuple) ++
      body.blocks.flatMap fun entry => entry.2.records ((place.descend tuple).child entry.1)
  rw [records, noCatchAll]
  simp only [inside, selected]

end Block

/-! Attributes -/

namespace Reading

/-- The rank of a reading says what it reads: 3 is an object, 2 a list. -/
structure Ranked (reading : Reading) : Prop where
  bounded : reading.rank ≤ 3
  list : ∀ path, (reading.lower path).value.isList = (reading.rank == 2)
  silent : reading.rank < 3 → ∀ path, (reading.lower path).fields = []

variable {first rest : Reading}

theorem rank_orElse (first rest : Reading) :
    (first.orElse rest).rank = max first.rank rest.rank := by
  unfold orElse
  split <;> omega

theorem Ranked.orElse (ofFirst : first.Ranked) (ofRest : rest.Ranked) :
    (first.orElse rest).Ranked := by
  unfold Reading.orElse
  split
  next => exact ofFirst
  next => exact ofRest

/-- What is no object does not add to the records of the alternatives after it. -/
theorem fields_orElse (ofFirst : first.Ranked) (ofRest : rest.Ranked) (low : first.rank < 3)
    (path : Path) :
    ((first.orElse rest).lower path).fields = (rest.lower path).fields := by
  unfold Reading.orElse
  split
  next below => rw [ofFirst.silent low, ofRest.silent (by omega)]
  next => rfl

end Reading

theorem Constraint.ranked_reading (constraint : Constraint) : constraint.reading.Ranked := by
  cases constraint with
  | object attributes =>
      exact ⟨Nat.le_refl 3, fun _ => rfl, fun low => absurd low (Nat.lt_irrefl 3)⟩
  | list element minItems maxItems => exact ⟨Nat.le_succ 2, fun _ => rfl, fun _ _ => rfl⟩
  | set element minItems maxItems => exact ⟨Nat.le_succ 2, fun _ => rfl, fun _ _ => rfl⟩
  | literalType type =>
      refine ⟨Nat.le_add_left 1 2, fun _ => ?_, fun _ _ => rfl⟩
      cases type <;> rfl
  | map | tuple | literalValue | keyword | reference =>
      exact ⟨Nat.zero_le 3, fun _ => rfl, fun _ _ => rfl⟩

theorem ranked_deciding (constraints : List Constraint) : (deciding constraints).Ranked := by
  induction constraints with
  | nil => exact ⟨Nat.zero_le 3, fun _ => rfl, fun _ _ => rfl⟩
  | cons constraint rest ih => exact constraint.ranked_reading.orElse ih

theorem deciding_single (constraint : Constraint) : deciding [constraint] = constraint.reading := by
  rw [deciding, Reading.orElse, if_pos]
  exact Nat.zero_le constraint.reading.rank

theorem le_rank_deciding {rank : Nat} (positive : 0 < rank) (constraints : List Constraint) :
    rank ≤ (deciding constraints).rank ↔
      ∃ constraint ∈ constraints, rank ≤ constraint.reading.rank := by
  induction constraints with
  | nil => simp [deciding, Reading.none, Nat.ne_of_gt positive]
  | cons constraint rest ih =>
      have either : rank ≤ max constraint.reading.rank (deciding rest).rank ↔
          rank ≤ constraint.reading.rank ∨ rank ≤ (deciding rest).rank := by omega
      rw [deciding, Reading.rank_orElse, either, ih]
      simp

theorem Constraint.rank_object (constraint : Constraint) :
    3 ≤ constraint.reading.rank ↔ constraint.isObject = true := by
  cases constraint <;> simp [reading, isObject, Reading.object, Reading.elements, Reading.literal,
    Reading.none]

theorem Constraint.rank_elements (constraint : Constraint) :
    2 ≤ constraint.reading.rank ↔
      constraint.isObject = true ∨ constraint.hasElements = true := by
  cases constraint <;> simp [reading, isObject, hasElements, Reading.object, Reading.elements,
    Reading.literal, Reading.none]

theorem isList_deciding (constraints : List Constraint) (path : Path) :
    ((deciding constraints).lower path).value.isList = resolvesToList constraints := by
  have object : 3 ≤ (deciding constraints).rank ↔ ∃ constraint ∈ constraints,
      constraint.isObject = true := by
    simp [le_rank_deciding, Constraint.rank_object]
  have elements : 2 ≤ (deciding constraints).rank ↔ ∃ constraint ∈ constraints,
      constraint.isObject = true ∨ constraint.hasElements = true := by
    simp [le_rank_deciding, Constraint.rank_elements]
  have ranked := ranked_deciding constraints
  rw [ranked.list, Bool.eq_iff_iff, beq_iff_eq, resolvesToList, Bool.and_eq_true, Bool.not_eq_true',
    ← Bool.not_eq_true, List.any_eq_true, List.any_eq_true, ← object]
  constructor
  · intro list
    have noObject : ¬ 3 ≤ (deciding constraints).rank := by omega
    obtain ⟨constraint, member, either⟩ := elements.mp (by omega)
    refine ⟨⟨constraint, member, either.resolve_left fun isObject => ?_⟩, noObject⟩
    exact noObject (object.mpr ⟨constraint, member, isObject⟩)
  · rintro ⟨⟨constraint, member, list⟩, noObject⟩
    have atLeast := elements.mpr ⟨constraint, member, .inr list⟩
    omega

theorem fields_deciding_cons {constraint : Constraint} (other : constraint.isObject = false)
    (rest : List Constraint) (path : Path) :
    ((deciding (constraint :: rest)).lower path).fields =
      ((deciding rest).lower path).fields := by
  have low : constraint.reading.rank < 3 := by
    rw [← Nat.not_le, constraint.rank_object, other]
    exact Bool.false_ne_true
  exact Reading.fields_orElse constraint.ranked_reading (ranked_deciding rest) low path

/-! What attributes note -/

mutual

theorem Attribute.fields_lower : ∀ (declared : Attribute) (path : Path),
    (declared.lower path).fields = declared.records path
  | ⟨description, isOptional, isRequired, isComputed, isSensitive, constraints⟩, path => by
      have inner := fields_deciding constraints path
      have list := isList_deciding constraints path
      simp only [Attribute.lower, Attribute.records, memberOf, list]
      cases resolves : resolvesToList constraints with
      | true => simp [inner]
      | false =>
          cases isComputed <;> cases isRequired <;> simp [inner, classify]

theorem fields_deciding : ∀ (constraints : List Constraint) (path : Path),
    ((deciding constraints).lower path).fields = objectRecords constraints path
  | [], _ => rfl
  | .object attributes :: rest, path => by
      have first : deciding (.object attributes :: rest) =
          .object fun path => lowerAttributes attributes path :=
        if_pos (ranked_deciding rest).bounded
      rw [first]
      exact fields_attributes attributes path
  | .list _ _ _ :: rest, path =>
      (fields_deciding_cons rfl rest path).trans (fields_deciding rest path)
  | .set _ _ _ :: rest, path =>
      (fields_deciding_cons rfl rest path).trans (fields_deciding rest path)
  | .map _ :: rest, path =>
      (fields_deciding_cons rfl rest path).trans (fields_deciding rest path)
  | .tuple _ :: rest, path =>
      (fields_deciding_cons rfl rest path).trans (fields_deciding rest path)
  | .literalType _ :: rest, path =>
      (fields_deciding_cons rfl rest path).trans (fields_deciding rest path)
  | .literalValue _ :: rest, path =>
      (fields_deciding_cons rfl rest path).trans (fields_deciding rest path)
  | .keyword _ :: rest, path =>
      (fields_deciding_cons rfl rest path).trans (fields_deciding rest path)
  | .reference :: rest, path =>
      (fields_deciding_cons rfl rest path).trans (fields_deciding rest path)

theorem fields_attributes : ∀ (attributes : List (String × Attribute)) (path : Path),
    (lowerAttributes attributes path).fields = attributeRecords attributes path
  | [], _ => rfl
  | (key, declared) :: rest, path => by
      rw [lowerAttributes, attributeRecords, ← declared.fields_lower, ← fields_attributes rest]

end

end ConfigContract
