import ConfigContract.Proofs.Lowering.CatchAll
import ConfigContract.Proofs.Lowering.Supported

/-!
The shape of contracts, at every depth: which members may be required, which bounds a list has, and
where an object is open.
-/

namespace ConfigContract

/-- The types inside a type, each with its place. A member stands under its key, the content of a
dictionary under the segment for any label, and the element of a list where the list stands. -/
inductive ContractType.Inside : Path → ContractType → Path → ContractType → Prop
  | here {path : Path} {type : ContractType} : Inside path type path type
  | element {path place : Path} {min max : Option UInt64} {content inner : ContractType}
      (inside : Inside path content place inner) : Inside path (.list min max content) place inner
  | member {path place : Path} {isOpen : Bool} {content : Members} {key : String}
      {member : Member} {inner : ContractType} (listed : (key, member) ∈ content)
      (inside : Inside (path.child key) member.type place inner) :
      Inside path (.object isOpen content) place inner
  | content {path place : Path} {content inner : ContractType}
      (inside : Inside path.wildcard content place inner) :
      Inside path (.dictionary content) place inner

/-- A list is optional and not computed, and only an `id` that is no list is required. -/
structure Member.Proper (key : String) (member : Member) : Prop where
  list : member.type.isList = true → member.optional = true ∧ member.computed = false
  required : member.optional = false → key = "id" ∧ member.type.isList = false

def ContractType.Proper (place : Path) : ContractType → Prop
  | .list min max _ => min ≠ some 0 ∧ max ≠ some 0
  | .object isOpen content =>
      (isOpen = true → Policy.isOpenObject place = true) ∧
        ∀ entry ∈ content, entry.2.Proper entry.1
  | _ => True

def ContractType.Shaped (path : Path) (type : ContractType) : Prop :=
  ∀ place inner, Inside path type place inner → inner.Proper place

def Members.Shaped (path : Path) (content : Members) : Prop :=
  ∀ entry ∈ content, entry.2.Proper entry.1 ∧ entry.2.type.Shaped (path.child entry.1)

namespace ContractType

variable {path : Path} {content : ContractType}

theorem Shaped.bounded (shaped : content.Shaped path) (minItems maxItems : UInt64) :
    (bounded minItems maxItems content).Shaped path := by
  intro place inner inside
  cases inside with
  | here => exact ⟨by simp, by simp⟩
  | element inside => exact shaped place inner inside

theorem Shaped.dictionary (shaped : content.Shaped path.wildcard) :
    (dictionary content).Shaped path := by
  intro place inner inside
  cases inside with
  | here => trivial
  | content inside => exact shaped place inner inside

theorem shaped_object {isOpen : Bool} {members : Members}
    (allowed : isOpen = true → Policy.isOpenObject path = true) (shaped : members.Shaped path) :
    (object isOpen members).Shaped path := by
  intro place inner inside
  cases inside with
  | here => exact ⟨allowed, fun entry member => (shaped entry member).1⟩
  | member listed inside => exact (shaped _ listed).2 place inner inside

end ContractType

namespace Members

variable {path : Path} {content newer : Members}

theorem shaped_nil : Members.Shaped path [] := List.forall_mem_nil _

theorem Shaped.insert {key : String} {member : Member} (shaped : content.Shaped path)
    (proper : member.Proper key) (inside : member.type.Shaped (path.child key)) :
    Members.Shaped path (OrderedMap.insert key member content) := by
  intro entry listed
  rcases OrderedMap.mem_insert listed with rfl | earlier
  · exact ⟨proper, inside⟩
  · exact shaped entry earlier

theorem Shaped.insertAll (shaped : content.Shaped path) (others : newer.Shaped path) :
    Members.Shaped path (OrderedMap.insertAll content newer) := by
  induction newer generalizing content with
  | nil => exact shaped
  | cons entry rest ih =>
      obtain ⟨first, later⟩ := List.forall_mem_cons.mp others
      exact ih (shaped.insert first.1 first.2) later

end Members

/-! Attributes -/

theorem proper_memberOf (declared : Attribute) (path : Path) (key : String)
    (type : Yield ContractType) :
    (memberOf declared (path.child key) type).value.Proper key := by
  unfold memberOf
  split
  next => exact ⟨fun _ => ⟨rfl, rfl⟩, nofun⟩
  next single =>
    refine ⟨fun list => absurd list single, fun required => ⟨?_, by simpa using single⟩⟩
    -- the place ends in the key, and only the name `id` makes a member required
    simpa [classify] using required

theorem type_memberOf (declared : Attribute) (path : Path) (type : Yield ContractType) :
    (memberOf declared path type).value.type = type.value := by
  unfold memberOf
  split <;> rfl

def Reading.Shaped (reading : Reading) : Prop := ∀ path, (reading.lower path).value.Shaped path

theorem Reading.Shaped.orElse {first rest : Reading} (ofFirst : first.Shaped)
    (ofRest : rest.Shaped) : (first.orElse rest).Shaped := by
  unfold Reading.orElse
  split
  next => exact ofFirst
  next => exact ofRest

theorem Reading.shaped_literal (type : ValueType) : (Reading.literal type.lower).Shaped := by
  intro path place inner inside
  cases type <;> cases inside <;> trivial

theorem Reading.shaped_none : Reading.none.Shaped := Reading.shaped_literal .dynamic

mutual

theorem Attribute.shaped_lower : ∀ (declared : Attribute) (path : Path),
    (declared.lower path).value.type.Shaped path
  | ⟨_, _, _, _, _, constraints⟩, path => by
      rw [Attribute.lower, type_memberOf]
      exact shaped_deciding constraints path

theorem Constraint.shaped_reading : ∀ constraint : Constraint, constraint.reading.Shaped
  | .object attributes => fun path =>
      ContractType.shaped_object Bool.noConfusion (shaped_attributes attributes path)
  | .list element minItems maxItems => fun path =>
      (shaped_deciding element path).bounded minItems maxItems
  | .set element minItems maxItems => fun path =>
      (shaped_deciding element path).bounded minItems maxItems
  | .map _ => Reading.shaped_none
  | .tuple _ => Reading.shaped_none
  | .literalType type => Reading.shaped_literal type
  | .literalValue _ => Reading.shaped_none
  | .keyword _ => Reading.shaped_none
  | .reference => Reading.shaped_none

theorem shaped_deciding : ∀ constraints : List Constraint, (deciding constraints).Shaped
  | [] => Reading.shaped_none
  | constraint :: rest => constraint.shaped_reading.orElse (shaped_deciding rest)

theorem shaped_attributes : ∀ (attributes : List (String × Attribute)) (path : Path),
    Members.Shaped path (lowerAttributes attributes path).value
  | [], _ => Members.shaped_nil
  | (key, declared) :: rest, path => by
      refine List.forall_mem_cons.mpr ⟨⟨?_, declared.shaped_lower _⟩, shaped_attributes rest path⟩
      rw [Attribute.lower_eq]
      exact proper_memberOf declared path key _

end

/-! Blocks and bodies -/

structure Member.Container (place : Path) (member : Member) : Prop where
  optional : member.optional = true
  plain : member.computed = false
  shaped : member.type.Shaped place

theorem Member.Container.proper {place : Path} {member : Member}
    (container : member.Container place) (key : String) : member.Proper key :=
  ⟨fun _ => ⟨container.optional, container.plain⟩,
    fun required => absurd (container.optional.symm.trans required) Bool.noConfusion⟩

theorem container_of_type {place : Path} {type : ContractType} (description : String)
    (shaped : type.Shaped place) : (Member.container description type).Container place :=
  ⟨rfl, rfl, shaped⟩

def Part.Shaped (part : Part) : Prop := ∀ path lowered,
  (part.lower path).result = .ok lowered → Members.Shaped path lowered.value

def Block.Shaped (block : Block) : Prop := ∀ path lowered,
  (block.lower path).result = .ok lowered → lowered.value.Container path

theorem shaped_lowerBlocks {blocks : List (String × Block)} {path : Path}
    (parts : ∀ entry ∈ blocks, entry.2.Shaped) {merged lowered : Lowered Members}
    (before : Members.Shaped path merged.value)
    (succeeded : (lowerBlocks blocks path merged).result = .ok lowered) :
    Members.Shaped path lowered.value := by
  induction blocks generalizing merged with
  | nil =>
      cases succeeded
      exact before
  | cons entry rest ih =>
      obtain ⟨first, others⟩ := List.forall_mem_cons.mp parts
      rw [lowerBlocks, Logged.result_bind, bind_eq_ok] at succeeded
      obtain ⟨member, lowers, succeeded⟩ := succeeded
      have container := first _ _ lowers
      exact ih others (before.insert (container.proper _) container.shaped) succeeded

theorem Body.shaped_part {body : Body} (parts : ∀ entry ∈ body.blocks, entry.2.Shaped) :
    body.part.Shaped := by
  obtain ⟨description, attributes, blocks, anyAttribute⟩ := body
  intro path lowered succeeded
  exact shaped_lowerBlocks parts (shaped_attributes attributes path) succeeded

theorem shaped_mergeParts {parts : List Part} (shaped : ∀ part ∈ parts, part.Shaped)
    {path : Path} {merged lowered : Lowered Members} (before : Members.Shaped path merged.value)
    (succeeded : (mergeParts path parts merged).result = .ok lowered) :
    Members.Shaped path lowered.value := by
  induction parts generalizing merged with
  | nil =>
      cases succeeded
      exact before
  | cons part rest ih =>
      obtain ⟨first, others⟩ := List.forall_mem_cons.mp shaped
      rw [mergeParts, Logged.result_bind, bind_eq_ok] at succeeded
      obtain ⟨body, lowers, succeeded⟩ := succeeded
      exact ih others (before.insertAll (first path body lowers)) succeeded

namespace Frame

variable {frame : Frame}

theorem container_of_finish {parts : List Part} (shaped : ∀ part ∈ parts, part.Shaped)
    {path : Path} {leaf : Lowered Member}
    (succeeded : (frame.finish path parts).result = .ok leaf) : leaf.value.Container path := by
  obtain ⟨merged, lowers, finishes⟩ := finishes_of_finish succeeded
  have object : (ContractType.object (Policy.isOpenObject path) merged.value).Shaped path :=
    ContractType.shaped_object id (shaped_mergeParts shaped Members.shaped_nil lowers)
  cases finishes with
  | single => exact container_of_type _ object
  | listed => exact container_of_type _ (object.bounded frame.minItems frame.maxItems)

theorem shaped_forEachValue {lower : String → Part → Logged LowerError (Lowered Member)}
    {values : OrderedMap String Part} {path : Path}
    (containers : ∀ entry ∈ values, ∀ member,
      (lower entry.1 entry.2).result = .ok member → member.value.Container (path.child entry.1))
    {content : Lowered Members} (succeeded : (forEachValue lower values).result = .ok content) :
    Members.Shaped path content.value := by
  induction values generalizing content with
  | nil =>
      cases succeeded
      exact Members.shaped_nil
  | cons entry rest ih =>
      obtain ⟨first, others⟩ := List.forall_mem_cons.mp containers
      simp only [forEachValue, Logged.result_bind, bind_eq_ok] at succeeded
      obtain ⟨member, lowers, later, lowersOthers, built⟩ := succeeded
      cases built
      have container := first member lowers
      exact List.forall_mem_cons.mpr
        ⟨⟨container.proper entry.1, container.shaped⟩, ih others lowersOthers⟩

theorem container_of_expand {choices : List (LabelChoice Part)}
    (choicesShaped : ∀ choice ∈ choices, ∀ entry ∈ choice.values, entry.2.Shaped)
    {parts : List Part} (shaped : ∀ part ∈ parts, part.Shaped) {path : Path}
    {lowered : Lowered Member}
    (succeeded : (frame.expand choices parts path).result = .ok lowered) :
    lowered.value.Container path := by
  induction choices generalizing parts path lowered with
  | nil => exact container_of_finish shaped succeeded
  | cons choice rest ih =>
      obtain ⟨valuesShaped, restShaped⟩ := List.forall_mem_cons.mp choicesShaped
      cases choice with
      | anyValue =>
          simp only [expand, Logged.result_bind, bind_eq_ok] at succeeded
          obtain ⟨inner, lowers, built⟩ := succeeded
          cases built
          exact container_of_type _ (ih restShaped shaped lowers).shaped.dictionary
      | known values =>
          simp only [expand, Logged.result_bind, bind_eq_ok] at succeeded
          obtain ⟨content, lowers, built⟩ := succeeded
          cases built
          refine container_of_type _ (ContractType.shaped_object id ?_)
          refine shaped_forEachValue (fun entry member _ branch => ?_) lowers
          refine ih restShaped (List.forall_mem_append.mpr ⟨shaped, ?_⟩) branch
          exact List.forall_mem_singleton.mpr (valuesShaped entry member)

end Frame

namespace Block

/-- What holds of a block when it holds of the blocks inside its bodies holds of all blocks. -/
theorem nested_induction {motive : Block → Prop}
    (step : ∀ block, (∀ body ∈ block.bodies, ∀ entry ∈ body.blocks, motive entry.2) →
      motive block) (block : Block) : motive block :=
  step block fun _ _ entry _ => nested_induction step entry.2
termination_by sizeOf block
decreasing_by
  rename_i body member declares
  exact Nat.lt_trans (Body.sizeOf_block declares) (sizeOf_body (mem_bodies.mp member))

theorem container_of_catchAll {block : Block} {declared : Attribute}
    (catchAll : block.catchAll? = some declared) {path : Path} {lowered : Lowered Member}
    (succeeded : (block.lower path).result = .ok lowered) : lowered.value.Container path := by
  rw [lower_of_catchAll catchAll succeeded]
  exact container_of_type _ (declared.shaped_lower path.wildcard).dictionary

theorem shaped (block : Block) : block.Shaped := by
  induction block using nested_induction with
  | step block ih =>
      have parts (body : Body) (member : body ∈ block.bodies) : body.part.Shaped :=
        Body.shaped_part (ih body member)
      intro path lowered succeeded
      cases catchAll : block.catchAll? with
      | some declared => exact container_of_catchAll catchAll succeeded
      | none =>
          rw [lower_eq_expand block path catchAll] at succeeded
          refine Frame.container_of_expand (forall_choices parts 0 block.labels)
            (fun part member => ?_) succeeded
          obtain ⟨body, own, rfl⟩ := List.mem_map.mp member
          exact parts body (List.mem_append_left _ own)

end Block

/-! Contracts -/

theorem Body.shaped_lowerAll {bodies : List Body} {path : Path} {lowered : Lowered Members}
    (succeeded : (lowerAll bodies path).result = .ok lowered) :
    Members.Shaped path lowered.value := by
  refine shaped_mergeParts (fun part member => ?_) Members.shaped_nil succeeded
  obtain ⟨body, -, rfl⟩ := List.mem_map.mp member
  exact shaped_part fun entry _ => entry.2.shaped

theorem PathPattern.length_of_accepts {pattern : PathPattern} {segments : List String}
    (accepted : pattern.accepts segments = true) : segments.length = pattern.length := by
  induction pattern generalizing segments with
  | nil =>
      cases segments with
      | nil => rfl
      | cons segment rest => simp [accepts] at accepted
  | cons place places ih =>
      cases segments with
      | nil => simp [accepts] at accepted
      | cons segment rest =>
          simp only [accepts, Bool.and_eq_true] at accepted
          simp [ih accepted.2]

theorem Policy.length_of_isOpenObject {path : Path} (allowed : isOpenObject path = true) :
    path.length ≤ 2 := by
  have short : ∀ pattern ∈ openObjects, pattern.length ≤ 2 := by decide
  obtain ⟨pattern, listed, accepted⟩ := List.any_eq_true.mp allowed
  rw [Path.length, PathPattern.length_of_accepts accepted]
  exact short pattern listed

namespace Contract

def Holds (contract : Contract) (place : Path) (type : ContractType) : Prop :=
  ∃ entry ∈ contract.schema, ContractType.Inside (Path.root.child entry.1) entry.2.type place type

def Declares (contract : Contract) (key : String) (member : Member) : Prop :=
  (key, member) ∈ contract.schema ∨ ∃ place isOpen content,
    contract.Holds place (.object isOpen content) ∧ (key, member) ∈ content

structure WellShaped (contract : Contract) : Prop where
  list : ∀ key member, contract.Declares key member → member.type.isList = true →
    member.optional = true ∧ member.computed = false
  required : ∀ key member, contract.Declares key member → member.optional = false →
    key = "id" ∧ member.type.isList = false
  bounds : ∀ place min max content, contract.Holds place (.list min max content) →
    min ≠ some 0 ∧ max ≠ some 0
  opened : ∀ place content, contract.Holds place (.object true content) →
    Policy.isOpenObject place = true ∧ place.length ≤ 2

theorem ofBodies_wellShaped (bodies : List Body) (contract : Contract)
    (succeeded : (ofBodies bodies).result = .ok contract) : contract.WellShaped := by
  obtain ⟨lowered, lowers, rfl⟩ := ofBodies_ok succeeded
  have shaped := Body.shaped_lowerAll lowers
  have types (place : Path) (type : ContractType)
      (holds : Holds ⟨lowered.fields, lowered.value⟩ place type) : type.Proper place := by
    obtain ⟨entry, listed, inside⟩ := holds
    exact (shaped entry listed).2 place type inside
  have members (key : String) (member : Member)
      (declares : Declares ⟨lowered.fields, lowered.value⟩ key member) : member.Proper key := by
    rcases declares with listed | ⟨place, isOpen, content, holds, listed⟩
    · exact (shaped _ listed).1
    · exact (types place _ holds).2 _ listed
  constructor
  · exact fun key member declares => (members key member declares).list
  · exact fun key member declares => (members key member declares).required
  · exact fun place min max content holds => types place _ holds
  · intro place content holds
    have allowed : Policy.isOpenObject place = true := (types place _ holds).1 rfl
    exact ⟨allowed, Policy.length_of_isOpenObject allowed⟩

def layered : List Body :=
  [{ blocks := [("resource", {
       labels := [⟨"type", none, true⟩, ⟨"name", none, false⟩]
       blockType := .object
       dependents := [⟨[⟨0, "disk"⟩], {
         attributes := [("mounts", .optional [.list [.object [("id", .required [.string])]] 1 0])]
       }⟩] })] }]

theorem layered_wellShaped : ∃ contract members members' mount,
    (ofBodies layered).result = .ok contract ∧
    contract.Holds ⟨["resource"]⟩ (.object true members) ∧
    contract.Holds ⟨["resource", "disk", "_", "mounts"]⟩
      (.list (some 1) none (.object false members')) ∧
    contract.Declares "id" mount ∧ mount.optional = false ∧ contract.WellShaped := by
  have only {α : Type} (item : α) : item ∈ [item] := List.mem_singleton_self item
  refine ⟨_, _, _, _, rfl, ⟨_, only _, .here⟩,
    ⟨_, only _, .member (only _) (.content (.member (only _) .here))⟩,
    .inr ⟨_, _, _, ⟨_, only _, .member (only _) (.content (.member (only _) (.element .here)))⟩,
      only _⟩, rfl, ofBodies_wellShaped layered _ rfl⟩

end Contract

end ConfigContract
