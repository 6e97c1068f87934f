import ConfigContract.Proofs.Lowering.Records

/-!
Only the form that decides matters: bodies in which each list of alternative forms is cut down to
the deciding one, at every depth, lower to the same contract.
-/

namespace ConfigContract

/-! The form that decides -/

def Constraint.isLiteralType : Constraint → Bool
  | .literalType _ => true
  | _ => false

def decidingForm? (constraints : List Constraint) : Option Constraint :=
  (constraints.find? Constraint.isObject).or
    ((constraints.find? Constraint.hasElements).or (constraints.find? Constraint.isLiteralType))

theorem Constraint.rank_literalType (constraint : Constraint) : 1 ≤ constraint.reading.rank ↔
    constraint.isObject = true ∨ constraint.hasElements = true ∨
      constraint.isLiteralType = true := by
  cases constraint <;> simp [reading, isObject, hasElements, isLiteralType, Reading.object,
    Reading.elements, Reading.literal, Reading.none]

section

variable {constraints : List Constraint}

theorem deciding_of_first {before after : List Constraint} {constraint : Constraint}
    (lower : ∀ earlier ∈ before, earlier.reading.rank < constraint.reading.rank)
    (bounded : ∀ later ∈ after, later.reading.rank ≤ constraint.reading.rank) :
    deciding (before ++ constraint :: after) = constraint.reading := by
  induction before with
  | nil =>
      refine if_pos (Nat.not_lt.mp fun higher => ?_)
      obtain ⟨later, member, above⟩ := (le_rank_deciding (Nat.zero_lt_succ _) after).mp higher
      exact absurd (bounded later member) (Nat.not_le.mpr above)
  | cons earlier rest ih =>
      obtain ⟨first, others⟩ := List.forall_mem_cons.mp lower
      rw [List.cons_append, deciding, ih others]
      exact if_neg (Nat.not_le.mpr first)

/-- The first form of a kind decides when there is no form of a higher rank. -/
theorem deciding_of_find? {kind : Constraint → Bool} {rank : Nat} {constraint : Constraint}
    (ofKind : ∀ form ∈ constraints, rank ≤ form.reading.rank ↔ kind form = true)
    (highest : ∀ form ∈ constraints, form.reading.rank ≤ rank)
    (found : constraints.find? kind = some constraint) :
    deciding constraints = constraint.reading := by
  obtain ⟨isKind, before, after, rfl, others⟩ := List.find?_eq_some_iff_append.mp found
  have atRank : rank ≤ constraint.reading.rank := (ofKind constraint (by simp)).mpr isKind
  refine deciding_of_first (fun earlier member => ?_) fun later member => ?_
  · have below : ¬ rank ≤ earlier.reading.rank := by
      rw [ofKind earlier (List.mem_append_left _ member)]
      simpa using others earlier member
    omega
  · exact Nat.le_trans (highest later (by simp [member])) atRank

theorem deciding_of_unranked (unranked : ∀ form ∈ constraints, form.reading.rank = 0) :
    deciding constraints = .none := by
  induction constraints with
  | nil => rfl
  | cons constraint rest ih =>
      obtain ⟨first, others⟩ := List.forall_mem_cons.mp unranked
      have nothing : constraint.reading = .none := by
        cases constraint <;> first | rfl | cases first
      rw [deciding, ih others, nothing]
      rfl

theorem deciding_eq (constraints : List Constraint) :
    deciding constraints = (decidingForm? constraints).elim .none Constraint.reading := by
  rw [decidingForm?]
  cases object : constraints.find? Constraint.isObject with
  | some constraint =>
      exact deciding_of_find? (fun form _ => form.rank_object)
        (fun form _ => form.ranked_reading.bounded) object
  | none =>
      -- without objects, lists and sets rank highest, and without these, literal types
      have noObject := List.find?_eq_none.mp object
      have elementsOnly (form : Constraint) (member : form ∈ constraints) :
          2 ≤ form.reading.rank ↔ form.hasElements = true := by
        rw [form.rank_elements, or_iff_right (noObject form member)]
      cases elements : constraints.find? Constraint.hasElements with
      | some constraint =>
          refine deciding_of_find? elementsOnly (fun form member => ?_) elements
          have low := mt form.rank_object.mp (noObject form member)
          omega
      | none =>
          have noElements := List.find?_eq_none.mp elements
          have literalsOnly (form : Constraint) (member : form ∈ constraints) :
              1 ≤ form.reading.rank ↔ form.isLiteralType = true := by
            rw [form.rank_literalType, or_iff_right (noObject form member),
              or_iff_right (noElements form member)]
          cases literal : constraints.find? Constraint.isLiteralType with
          | some constraint =>
              refine deciding_of_find? literalsOnly (fun form member => ?_) literal
              have low := mt (elementsOnly form member).mp (noElements form member)
              omega
          | none =>
              have noLiteral := List.find?_eq_none.mp literal
              refine deciding_of_unranked fun form member => ?_
              have low := mt (literalsOnly form member).mp (noLiteral form member)
              omega

theorem deciding_decidingForm (constraints : List Constraint) :
    deciding (decidingForm? constraints).toList = deciding constraints := by
  rw [deciding_eq constraints]
  cases decidingForm? constraints with
  | none => rfl
  | some constraint => exact deciding_single constraint

end

/-! Attributes -/

mutual

def Attribute.decided : Attribute → Attribute
  | ⟨description, isOptional, isRequired, isComputed, isSensitive, constraints⟩ =>
      ⟨description, isOptional, isRequired, isComputed, isSensitive,
        (decidingForm? (decidedEach constraints)).toList⟩

/-- Maps and tuples never decide. -/
def Constraint.decided : Constraint → Constraint
  | .object attributes => .object (decidedAttributes attributes)
  | .list element minItems maxItems =>
      .list (decidingForm? (decidedEach element)).toList minItems maxItems
  | .set element minItems maxItems =>
      .set (decidingForm? (decidedEach element)).toList minItems maxItems
  | .map element => .map element
  | .tuple elements => .tuple elements
  | .literalType type => .literalType type
  | .literalValue value => .literalValue value
  | .keyword word => .keyword word
  | .reference => .reference

def decidedEach : List Constraint → List Constraint
  | [] => []
  | constraint :: rest => constraint.decided :: decidedEach rest

def decidedAttributes : List (String × Attribute) → List (String × Attribute)
  | [] => []
  | (key, declared) :: rest => (key, declared.decided) :: decidedAttributes rest

end

mutual

theorem Attribute.lower_decided : ∀ (declared : Attribute) (path : Path),
    declared.decided.lower path = declared.lower path
  | ⟨_, _, _, _, _, constraints⟩, path => by
      simp only [Attribute.decided, Attribute.lower, deciding_decidingForm,
        deciding_decidedEach constraints]
      rfl

theorem Constraint.reading_decided : ∀ constraint : Constraint,
    constraint.decided.reading = constraint.reading
  | .object attributes => by
      simp only [Constraint.decided, Constraint.reading, lowerAttributes_decided attributes]
  | .list element _ _ => by
      simp only [Constraint.decided, Constraint.reading, deciding_decidingForm,
        deciding_decidedEach element]
  | .set element _ _ => by
      simp only [Constraint.decided, Constraint.reading, deciding_decidingForm,
        deciding_decidedEach element]
  | .map _ => rfl
  | .tuple _ => rfl
  | .literalType _ => rfl
  | .literalValue _ => rfl
  | .keyword _ => rfl
  | .reference => rfl

theorem deciding_decidedEach : ∀ constraints : List Constraint,
    deciding (decidedEach constraints) = deciding constraints
  | [] => rfl
  | constraint :: rest => by
      rw [decidedEach, deciding, deciding, constraint.reading_decided, deciding_decidedEach rest]

theorem lowerAttributes_decided : ∀ (attributes : List (String × Attribute)) (path : Path),
    lowerAttributes (decidedAttributes attributes) path = lowerAttributes attributes path
  | [], _ => rfl
  | (key, declared) :: rest, path => by
      simp only [decidedAttributes, lowerAttributes, declared.lower_decided,
        lowerAttributes_decided rest]

end

/-! Blocks and bodies -/

mutual

def Body.mapAttributes (f : Attribute → Attribute) : Body → Body
  | ⟨description, attributes, blocks, anyAttribute⟩ =>
      ⟨description, OrderedMap.mapValues f attributes, blocksMapped f blocks, anyAttribute.map f⟩

def blocksMapped (f : Attribute → Attribute) : List (String × Block) → List (String × Block)
  | [] => []
  | (key, block) :: rest => (key, block.mapAttributes f) :: blocksMapped f rest

def Block.mapAttributes (f : Attribute → Attribute) : Block → Block
  | ⟨description, labels, blockType, minItems, maxItems, body, dependents⟩ =>
      ⟨description, labels, blockType, minItems, maxItems, ownMapped f body,
        dependentsMapped f dependents⟩

def ownMapped (f : Attribute → Attribute) : Option Body → Option Body
  | none => none
  | some body => some (body.mapAttributes f)

def dependentsMapped (f : Attribute → Attribute) : List DependentBody → List DependentBody
  | [] => []
  | ⟨keys, body⟩ :: rest => ⟨keys, body.mapAttributes f⟩ :: dependentsMapped f rest

end

def LowersAlike (f : Attribute → Attribute) : Prop :=
  ∀ (declared : Attribute) (path : Path), (f declared).lower path = declared.lower path

section

variable {f : Attribute → Attribute}

theorem Body.description_mapAttributes (f : Attribute → Attribute) (body : Body) :
    (body.mapAttributes f).description = body.description := by
  cases body
  rfl

theorem isEmpty_blocksMapped (f : Attribute → Attribute) (blocks : List (String × Block)) :
    (blocksMapped f blocks).isEmpty = blocks.isEmpty := by
  cases blocks <;> rfl

theorem lowerAttributes_mapValues (alike : LowersAlike f) (attributes : List (String × Attribute))
    (path : Path) :
    lowerAttributes (OrderedMap.mapValues f attributes) path = lowerAttributes attributes path := by
  induction attributes with
  | nil => rfl
  | cons entry rest ih =>
      obtain ⟨key, declared⟩ := entry
      rw [OrderedMap.mapValues, List.map_cons, ← OrderedMap.mapValues]
      simp only [lowerAttributes, alike declared, ih]

theorem lowerCatchAll_ownMapped (alike : LowersAlike f) (description : Option String)
    (body : Option Body) (path : Path) :
    lowerCatchAll description (ownMapped f body) path = lowerCatchAll description body path := by
  cases body with
  | none => rfl
  | some body =>
      obtain ⟨_, attributes, blocks, anyAttribute⟩ := body
      cases anyAttribute with
      | none => rfl
      | some declared =>
          have empty : (OrderedMap.mapValues f attributes).isEmpty = attributes.isEmpty := by
            cases attributes <;> rfl
          simp only [ownMapped, Body.mapAttributes, Option.map_some, lowerCatchAll, empty,
            isEmpty_blocksMapped, alike declared]

mutual

theorem Body.lower_mapAttributes (alike : LowersAlike f) : ∀ (body : Body) (path : Path),
    (body.mapAttributes f).lower path = body.lower path
  | ⟨_, attributes, blocks, _⟩, path => by
      simp only [Body.mapAttributes, Body.lower, lowerAttributes_mapValues alike,
        lowerBlocks_mapped alike blocks]

theorem lowerBlocks_mapped (alike : LowersAlike f) : ∀ (blocks : List (String × Block))
    (path : Path) (merged : Lowered Members),
    lowerBlocks (blocksMapped f blocks) path merged = lowerBlocks blocks path merged
  | [], _, _ => rfl
  | (key, block) :: rest, path, merged => by
      simp only [blocksMapped, lowerBlocks, block.lower_mapAttributes alike,
        lowerBlocks_mapped alike rest]

theorem Block.lower_mapAttributes (alike : LowersAlike f) : ∀ (block : Block) (path : Path),
    (block.mapAttributes f).lower path = block.lower path
  | ⟨description, labels, blockType, minItems, maxItems, body, dependents⟩, path => by
      simp only [Block.mapAttributes, Block.lower, lowerCatchAll_ownMapped alike,
        ownParts_mapped alike body, dependentParts_mapped alike dependents]

theorem ownParts_mapped (alike : LowersAlike f) : ∀ body : Option Body,
    ownParts (ownMapped f body) = ownParts body
  | none => rfl
  | some body => by
      simp only [ownMapped, ownParts, body.description_mapAttributes,
        body.lower_mapAttributes alike]

theorem dependentParts_mapped (alike : LowersAlike f) : ∀ dependents : List DependentBody,
    dependentParts (dependentsMapped f dependents) = dependentParts dependents
  | [] => rfl
  | ⟨keys, body⟩ :: rest => by
      simp only [dependentsMapped, dependentParts, body.description_mapAttributes,
        body.lower_mapAttributes alike, dependentParts_mapped alike rest]

end

theorem Contract.ofBodies_mapAttributes (alike : LowersAlike f) (bodies : List Body) :
    ofBodies (bodies.map (Body.mapAttributes f)) = ofBodies bodies := by
  have part (body : Body) : (body.mapAttributes f).part = body.part := by
    simp only [Body.part, body.description_mapAttributes, funext (body.lower_mapAttributes alike)]
  have lowers : Body.lowerAll (bodies.map (Body.mapAttributes f)) = Body.lowerAll bodies := by
    funext path
    simp only [Body.lowerAll, List.map_map, Function.comp_def, part]
  rw [ofBodies, ofBodies, lowers, List.length_map]

end

def Body.decided (body : Body) : Body := body.mapAttributes Attribute.decided

namespace Contract

/-- Bodies that agree on the forms that decide lower alike: to the same contract, or with the same
error, and with the same events. -/
theorem ofBodies_eq_of_decided (bodies others : List Body)
    (same : bodies.map Body.decided = others.map Body.decided) :
    ofBodies bodies = ofBodies others := by
  have lowers (bodies : List Body) : ofBodies (bodies.map Body.decided) = ofBodies bodies :=
    ofBodies_mapAttributes Attribute.lower_decided bodies
  rw [← lowers bodies, same, lowers]

def manyForms : List Body :=
  [{ attributes := [
       ("zone", .optional [.string,
         .object [("id", { isComputed := true, constraints := [.bool] })], .object []]),
       ("ports", .optional [.map [.number], .list [.keyword "any", .number, .string] 1 0,
         .set [.string] 0 0])]
     blocks := [("tags", {
       labels := [⟨"kind", none, true⟩]
       body := some { description := some "own" }
       dependents := [⟨[⟨0, "any"⟩], {
         blocks := [("rest", { body := some {
           anyAttribute := some (.optional [.reference, .string, .number]) } })] }⟩] })] }]

def oneForm : List Body :=
  [{ attributes := [
       ("zone", .optional [.object [("id", { isComputed := true, constraints := [.bool] })]]),
       ("ports", .optional [.list [.number] 1 0])]
     blocks := [("tags", {
       labels := [⟨"kind", none, true⟩]
       body := some { description := some "own" }
       dependents := [⟨[⟨0, "any"⟩], {
         blocks := [("rest", { body := some {
           anyAttribute := some (.optional [.string]) } })] }⟩] })] }]

theorem manyForms_lower_alike : ∃ contract,
    manyForms.map Body.decided = oneForm.map Body.decided ∧
    (manyForms.head?.map fun body => body.attributes.map fun entry =>
      entry.2.constraints.length) = some [3, 3] ∧
    (oneForm.head?.map fun body => body.attributes.map fun entry =>
      entry.2.constraints.length) = some [1, 1] ∧
    (ofBodies oneForm).result = .ok contract ∧
    contract.computedFields = [⟨true, ["zone", "id"]⟩] ∧
    OrderedMap.keys contract.schema = ["zone", "ports", "tags"] ∧
    (ofBodies manyForms).result = .ok contract := by
  have same : manyForms.map Body.decided = oneForm.map Body.decided := rfl
  exact ⟨_, same, rfl, rfl, rfl, rfl, rfl, by rw [ofBodies_eq_of_decided _ _ same]; rfl⟩

end Contract

end ConfigContract
