import ConfigContract.Proofs.Lowering.Shape

/-!
Lowering away from the places that policies are about. Only the place relative to the start counts:
bodies lowered at another path yield the same members, with the start of every noted path replaced,
or the same fault, moved in the same way.
-/

namespace ConfigContract

/-! Places relative to a path -/

namespace Path

def Above (path : Path) (segments : List String) : Prop :=
  ∃ key rest, segments = path.segments ++ key :: rest

theorem above_append (path : Path) {relative : List String} (deep : 1 ≤ relative.length) :
    path.Above (path.segments ++ relative) := by
  cases relative with
  | nil => simp at deep
  | cons key rest => exact ⟨key, rest, rfl⟩

end Path

namespace ComputedField

def under (path : Path) (field : ComputedField) : ComputedField :=
  { field with path := path.segments ++ field.path }

def moved (path other : Path) (field : ComputedField) : ComputedField :=
  { field with path := other.segments ++ field.path.drop path.length }

theorem moved_under (path other : Path) (field : ComputedField) :
    (field.under path).moved path other = field.under other := by
  simp [under, moved, Path.length]

end ComputedField

namespace LowerError

def place : LowerError → Path
  | .catchAllNotAlone place => place
  | .unknownBlockType place _ => place

def withPlace (place : Path) : LowerError → LowerError
  | .catchAllNotAlone _ => .catchAllNotAlone place
  | .unknownBlockType _ blockType => .unknownBlockType place blockType

def under (path : Path) (error : LowerError) : LowerError :=
  error.withPlace (path.descend error.place.segments)

def moved (path other : Path) (error : LowerError) : LowerError :=
  error.withPlace (other.descend (error.place.segments.drop path.length))

theorem place_withPlace (place : Path) (error : LowerError) :
    (error.withPlace place).place = place := by
  cases error <;> rfl

theorem withPlace_withPlace (place between : Path) (error : LowerError) :
    (error.withPlace between).withPlace place = error.withPlace place := by
  cases error <;> rfl

theorem under_of_root {error : LowerError} (root : error.place = .root) (path : Path) :
    error.under path = error.withPlace path := by
  simp [under, root, Path.root]

theorem under_child (path : Path) (key : String) (error : LowerError) :
    error.under (path.child key) = (error.under ⟨[key]⟩).under path := by
  simp only [under, place_withPlace, withPlace_withPlace]
  simp [Path.descend]

theorem moved_under (path other : Path) (error : LowerError) :
    (error.under path).moved path other = error.under other := by
  simp only [under, moved, place_withPlace, withPlace_withPlace]
  simp [Path.descend, Path.length]

end LowerError

namespace Lowered

variable {α : Type}

def under (path : Path) (relative : Lowered α) : Lowered α :=
  ⟨relative.value, relative.fields.map (ComputedField.under path)⟩

theorem under_child (path : Path) (key : String) (relative : Lowered α) :
    relative.under (path.child key) = (relative.under ⟨[key]⟩).under path := by
  simp [under, ComputedField.under]

def Deep (below : Nat) (relative : Lowered α) : Prop :=
  ∀ field ∈ relative.fields, below ≤ field.path.length

theorem Deep.under {below : Nat} {relative : Lowered α} (deep : relative.Deep below)
    (key : String) : (relative.under ⟨[key]⟩).Deep (below + 1) := by
  intro field noted
  obtain ⟨inner, innerNoted, rfl⟩ := List.mem_map.mp noted
  have bound := deep inner innerNoted
  simp only [ComputedField.under, List.length_append, List.length_singleton]
  omega

def Settled (lower : Path → Lowered α) : Prop :=
  ∃ relative : Lowered α, relative.Deep 1 ∧ ∀ path, (lower path).value = relative.value ∧
    (lower path).fields = relative.fields.map (ComputedField.under path)

end Lowered

/-- At every path with enough segments the result is the same, relative to the path. -/
inductive Portable {α : Type} (depth below : Nat) (lower : Path → Except LowerError (Lowered α)) :
    Prop
  | ok (relative : Lowered α) (deep : relative.Deep below)
      (lowers : ∀ path, depth ≤ path.length → lower path = .ok (relative.under path))
  | error (error : LowerError) (deep : below ≤ error.place.length)
      (fails : ∀ path, depth ≤ path.length → lower path = .error (error.under path))

namespace Portable

variable {α β : Type} {depth below : Nat} {lower : Path → Except LowerError (Lowered α)}

theorem mono {deeper above : Nat} (portable : Portable depth below lower) (start : depth ≤ deeper)
    (least : above ≤ below) : Portable deeper above lower := by
  cases portable with
  | ok relative deep lowers =>
      exact .ok relative (fun field noted => Nat.le_trans least (deep field noted))
        fun path long => lowers path (Nat.le_trans start long)
  | error error deep fails =>
      exact .error error (Nat.le_trans least deep)
        fun path long => fails path (Nat.le_trans start long)

theorem child (portable : Portable (depth + 1) below lower) (key : String) :
    Portable depth (below + 1) fun path => lower (path.child key) := by
  have longer (path : Path) (long : depth ≤ path.length) :
      depth + 1 ≤ (path.child key).length := by
    simpa [Path.length] using long
  cases portable with
  | ok relative deep lowers =>
      refine .ok (relative.under ⟨[key]⟩) (deep.under key) fun path long => ?_
      rw [lowers _ (longer path long), Lowered.under_child]
  | error error deep fails =>
      refine .error (error.under ⟨[key]⟩) ?_ fun path long => ?_
      · rw [LowerError.under, LowerError.place_withPlace]
        simp only [Path.length, Path.descend, List.length_append, List.length_singleton] at deep ⊢
        omega
      · rw [fails _ (longer path long), LowerError.under_child]

theorem bind {next : Path → Lowered α → Except LowerError (Lowered β)}
    (portable : Portable depth below lower)
    (later : ∀ relative : Lowered α, relative.Deep below →
      Portable depth below fun path => next path (relative.under path)) :
    Portable depth below fun path => lower path >>= next path := by
  cases portable with
  | ok relative deep lowers =>
      cases later relative deep with
      | ok result resultDeep lowersNext =>
          refine .ok result resultDeep fun path long => ?_
          rw [lowers path long, ok_bind, lowersNext path long]
      | error error errorDeep failsNext =>
          refine .error error errorDeep fun path long => ?_
          rw [lowers path long, ok_bind, failsNext path long]
  | error error deep fails =>
      refine .error error deep fun path long => ?_
      rw [fails path long, error_bind]

theorem down (portable : Portable depth below lower) (key : String) :
    Portable depth below fun path => lower (path.child key) :=
  ((portable.mono (Nat.le_succ depth) (Nat.le_refl below)).child key).mono (Nat.le_refl depth)
    (Nat.le_succ below)

theorem congr {other : Path → Except LowerError (Lowered α)} (portable : Portable depth below other)
    (same : ∀ path, depth ≤ path.length → lower path = other path) :
    Portable depth below lower := by
  cases portable with
  | ok relative deep lowers =>
      exact .ok relative deep fun path long => (same path long).trans (lowers path long)
  | error error deep fails =>
      exact .error error deep fun path long => (same path long).trans (fails path long)

end Portable

/-! Attributes -/

/-- Of the place of an attribute, only the last segment tells how it counts. -/
theorem classify_child (path : Path) (key : String) (isOptional isRequired isComputed : Bool) :
    classify (path.child key) isOptional isRequired isComputed =
      classify ⟨[key]⟩ isOptional isRequired isComputed := by
  simp [classify, Path.last?]

def Reading.Settled (reading : Reading) : Prop :=
  Lowered.Settled fun path => (reading.lower path).toLowered

namespace Reading.Settled

theorem orElse {first rest : Reading} (ofFirst : first.Settled) (ofRest : rest.Settled) :
    (first.orElse rest).Settled := by
  unfold Reading.orElse
  split
  next => exact ofFirst
  next => exact ofRest

theorem literal (type : ContractType) : (Reading.literal type).Settled :=
  ⟨⟨type, []⟩, List.forall_mem_nil _, fun _ => ⟨rfl, rfl⟩⟩

theorem elements {element : Path → Yield ContractType} (minItems maxItems : UInt64)
    (settled : Lowered.Settled fun path => (element path).toLowered) :
    (Reading.elements minItems maxItems element).Settled := by
  obtain ⟨relative, -, lowers⟩ := settled
  refine ⟨⟨.bounded minItems maxItems relative.value, []⟩, List.forall_mem_nil _, fun path => ?_⟩
  exact ⟨congrArg (ContractType.bounded minItems maxItems) (lowers path).1, rfl⟩

theorem object {members : Path → Yield Members}
    (settled : Lowered.Settled fun path => (members path).toLowered) :
    (Reading.object members).Settled := by
  obtain ⟨relative, deep, lowers⟩ := settled
  refine ⟨⟨.object false relative.value, relative.fields⟩, deep, fun path => ?_⟩
  exact ⟨congrArg (ContractType.object false) (lowers path).1, (lowers path).2⟩

theorem member {reading : Reading} (settled : reading.Settled) (declared : Attribute)
    (key : String) : Lowered.Settled fun path =>
      (memberOf declared (path.child key) (reading.lower (path.child key))).toLowered := by
  obtain ⟨relative, deep, lowers⟩ := settled
  have inner (path : Path) : (reading.lower (path.child key)).fields =
      (relative.under ⟨[key]⟩).fields.map (ComputedField.under path) := by
    rw [(lowers (path.child key)).2]
    exact congrArg Lowered.fields (relative.under_child path key)
  have type (path : Path) : (reading.lower (path.child key)).value = relative.value :=
    (lowers (path.child key)).1
  have below : (relative.under ⟨[key]⟩).Deep 1 := fun field noted =>
    Nat.le_trans (by omega) (deep.under key field noted)
  cases list : relative.value.isList with
  | true =>
      refine ⟨⟨⟨declared.description.getD "", true, false, relative.value⟩,
        (relative.under ⟨[key]⟩).fields⟩, below, fun path => ?_⟩
      simp [memberOf, type path, list, inner path]
  | false =>
      let outcome := classify ⟨[key]⟩ declared.isOptional declared.isRequired declared.isComputed
      refine ⟨⟨⟨declared.description.getD "", outcome.optional, outcome.computed, relative.value⟩,
        (relative.under ⟨[key]⟩).fields ++ outcome.report.toList.map fun force => ⟨force, [key]⟩⟩,
        ?_, fun path => ?_⟩
      · refine List.forall_mem_append.mpr ⟨below, fun field own => ?_⟩
        obtain ⟨force, -, rfl⟩ := List.mem_map.mp own
        exact Nat.le_refl 1
      · simp [memberOf, type path, list, classify_child, outcome, inner path, ComputedField.under]

end Reading.Settled

mutual

theorem Attribute.settled_lower : ∀ (declared : Attribute) (key : String),
    Lowered.Settled fun path => (declared.lower (path.child key)).toLowered
  | ⟨_, _, _, _, _, constraints⟩, key => (settled_deciding constraints).member _ key

theorem Constraint.settled_reading : ∀ constraint : Constraint, constraint.reading.Settled
  | .object attributes => .object (settled_attributes attributes)
  | .list element minItems maxItems => .elements minItems maxItems (settled_deciding element)
  | .set element minItems maxItems => .elements minItems maxItems (settled_deciding element)
  | .map _ => .literal .dynamic
  | .tuple _ => .literal .dynamic
  | .literalType type => .literal type.lower
  | .literalValue _ => .literal .dynamic
  | .keyword _ => .literal .dynamic
  | .reference => .literal .dynamic

theorem settled_deciding : ∀ constraints : List Constraint, (deciding constraints).Settled
  | [] => .literal .dynamic
  | constraint :: rest => constraint.settled_reading.orElse (settled_deciding rest)

theorem settled_attributes : ∀ attributes : List (String × Attribute),
    Lowered.Settled fun path => (lowerAttributes attributes path).toLowered
  | [] => ⟨⟨[], []⟩, List.forall_mem_nil _, fun _ => ⟨rfl, rfl⟩⟩
  | (key, declared) :: rest => by
      obtain ⟨first, firstDeep, lowersFirst⟩ := declared.settled_lower key
      obtain ⟨others, othersDeep, lowersOthers⟩ := settled_attributes rest
      refine ⟨⟨(key, first.value) :: others.value, first.fields ++ others.fields⟩,
        List.forall_mem_append.mpr ⟨firstDeep, othersDeep⟩, fun path => ?_⟩
      obtain ⟨member, noted⟩ := lowersFirst path
      obtain ⟨members, notedLater⟩ := lowersOthers path
      simp only [lowerAttributes]
      rw [member, members, noted, notedLater, List.map_append]
      exact ⟨rfl, rfl⟩

end

/-! Blocks and bodies -/

/-- No policy is about a block in a body that starts after three segments. -/
def Block.Portable (block : Block) : Prop :=
  ConfigContract.Portable 4 0 fun path => (block.lower path).result

def Part.Portable (part : Part) : Prop :=
  ConfigContract.Portable 3 1 fun path => (part.lower path).result

theorem portable_lowerBlocks {blocks : List (String × Block)}
    (parts : ∀ entry ∈ blocks, entry.2.Portable) (merged : Lowered Members)
    (deep : merged.Deep 1) :
    Portable 3 1 fun path => (lowerBlocks blocks path (merged.under path)).result := by
  induction blocks generalizing merged with
  | nil => exact .ok merged deep fun _ _ => rfl
  | cons entry rest ih =>
      obtain ⟨key, block⟩ := entry
      obtain ⟨first, others⟩ := List.forall_mem_cons.mp parts
      simp only [lowerBlocks, Logged.result_bind]
      -- a block starts one segment below its body: past the policies, and its notes are below
      refine (first.child key).bind fun member memberDeep => ?_
      have later := ih others ⟨OrderedMap.insert key member.value merged.value,
        merged.fields ++ member.fields⟩ (List.forall_mem_append.mpr ⟨deep, memberDeep⟩)
      simpa only [Lowered.under, List.map_append] using later

theorem Body.portable_part {body : Body} (parts : ∀ entry ∈ body.blocks, entry.2.Portable) :
    body.part.Portable := by
  obtain ⟨description, attributes, blocks, anyAttribute⟩ := body
  obtain ⟨relative, deep, lowers⟩ := settled_attributes attributes
  refine (portable_lowerBlocks parts relative deep).congr fun path _ => ?_
  have declared : (lowerAttributes attributes path).toLowered = relative.under path := by
    rw [Lowered.under, ← (lowers path).1, ← (lowers path).2]
  rw [← declared]
  rfl

theorem portable_mergeParts {parts : List Part} (portable : ∀ part ∈ parts, part.Portable)
    (merged : Lowered Members) (deep : merged.Deep 1) :
    Portable 3 1 fun path => (mergeParts path parts (merged.under path)).result := by
  induction parts generalizing merged with
  | nil => exact .ok merged deep fun _ _ => rfl
  | cons part rest ih =>
      obtain ⟨first, others⟩ := List.forall_mem_cons.mp portable
      simp only [mergeParts, Logged.result_bind, Logged.result_tellAll, ok_bind]
      refine first.bind fun body bodyDeep => ?_
      have later := ih others ⟨OrderedMap.insertAll merged.value body.value,
        merged.fields ++ body.fields⟩ (List.forall_mem_append.mpr ⟨deep, bodyDeep⟩)
      simpa only [Lowered.under, List.map_append] using later

theorem Policy.not_isOpenObject {path : Path} (long : 4 ≤ path.length) :
    isOpenObject path = false := by
  refine Bool.eq_false_iff.mpr fun allowed => ?_
  have short := length_of_isOpenObject allowed
  omega

theorem Policy.not_forcesObject {path : Path} (long : 4 ≤ path.length) :
    forcesObject path = false := by
  have short : ∀ pattern ∈ forcedObjects, pattern.length ≤ 3 := by decide
  refine Bool.eq_false_iff.mpr fun forced => ?_
  obtain ⟨pattern, listed, accepted⟩ := List.any_eq_true.mp forced
  have bound := short pattern listed
  rw [← PathPattern.length_of_accepts accepted] at bound
  exact absurd (Nat.le_trans long bound) (by omega)

namespace Frame

variable {frame : Frame} {parts : List Part}

theorem exists_effectiveType (frame : Frame) :
    ∃ kind, ∀ path : Path, 4 ≤ path.length → frame.effectiveType path = kind := by
  let far : Path := ⟨["", "", "", ""]⟩
  have unforced : Policy.forcesObject far = false := Policy.not_forcesObject (Nat.le_refl 4)
  refine ⟨frame.effectiveType far, fun path long => ?_⟩
  simp only [effectiveType, effectiveBlockType, Policy.not_forcesObject long, unforced]

theorem portable_merged (portable : ∀ part ∈ parts, part.Portable) :
    Portable 4 0 fun path => (mergeParts path parts ⟨[], []⟩).result :=
  (portable_mergeParts portable ⟨[], []⟩ (List.forall_mem_nil _)).mono (by omega) (by omega)

theorem portable_single (frame : Frame) (portable : ∀ part ∈ parts, part.Portable) :
    Portable 4 0 fun path => (frame.single path parts).result := by
  simp only [single, Logged.result_bind, Logged.result_tell, ok_bind, Logged.result_pure]
  refine (portable_merged portable).bind fun lowered deep => ?_
  refine .ok ⟨.container (frame.finishedDescription parts) (.object false lowered.value),
    lowered.fields⟩ deep fun path long => ?_
  rw [Policy.not_isOpenObject long]
  rfl

theorem portable_listed (frame : Frame) (portable : ∀ part ∈ parts, part.Portable) :
    Portable 4 0 fun path => (frame.listed path parts).result := by
  simp only [listed, Logged.result_bind, Logged.result_tell, Logged.result_tellAll, ok_bind,
    Logged.result_pure]
  refine (portable_merged portable).bind fun lowered _ => ?_
  refine .ok ⟨.container (frame.finishedDescription parts)
    (.bounded frame.minItems frame.maxItems (.object false lowered.value)), []⟩
    (List.forall_mem_nil _) fun path long => ?_
  rw [Policy.not_isOpenObject long]
  rfl

theorem portable_finish (portable : ∀ part ∈ parts, part.Portable) :
    Portable 4 0 fun path => (frame.finish path parts).result := by
  obtain ⟨kind, kinds⟩ := frame.exists_effectiveType
  have single := frame.portable_single portable
  have listed := frame.portable_listed portable
  have failing (other : BlockType) : Portable 4 0 fun path =>
      (.error (.unknownBlockType path other) : Except LowerError (Lowered Member)) :=
    .error (.unknownBlockType .root other) (Nat.zero_le _) fun path _ => by
      rw [LowerError.under_of_root rfl]
      rfl
  cases kind with
  | object => exact single.congr fun path long => by rw [finish, kinds path long]
  | list => exact listed.congr fun path long => by rw [finish, kinds path long]
  | set => exact listed.congr fun path long => by rw [finish, kinds path long]
  | nil => exact (failing .nil).congr fun path long => by rw [finish, kinds path long]; rfl
  | map => exact (failing .map).congr fun path long => by rw [finish, kinds path long]; rfl

theorem portable_forEachValue (lower : String → Part → Path → Logged LowerError (Lowered Member))
    {values : OrderedMap String Part} (branches : ∀ entry ∈ values,
      Portable 4 0 fun path => (lower entry.1 entry.2 path).result) :
    Portable 4 0 fun path =>
      (forEachValue (fun value part => lower value part path) values).result := by
  induction values with
  | nil => exact .ok ⟨[], []⟩ (List.forall_mem_nil _) fun _ _ => rfl
  | cons entry rest ih =>
      obtain ⟨value, part⟩ := entry
      obtain ⟨first, others⟩ := List.forall_mem_cons.mp branches
      simp only [forEachValue, Logged.result_bind, Logged.result_pure]
      refine first.bind fun member memberDeep => (ih others).bind fun content contentDeep => ?_
      refine .ok ⟨(value, member.value) :: content.value, member.fields ++ content.fields⟩
        (List.forall_mem_append.mpr ⟨memberDeep, contentDeep⟩) fun path _ => ?_
      simp [Lowered.under]

/-- A label leads one segment further down, where no policy is either. -/
theorem portable_expand {choices : List (LabelChoice Part)}
    (choicesPortable : ∀ choice ∈ choices, ∀ entry ∈ choice.values, entry.2.Portable)
    (portable : ∀ part ∈ parts, part.Portable) :
    Portable 4 0 fun path => (frame.expand choices parts path).result := by
  induction choices generalizing parts with
  | nil => exact portable_finish portable
  | cons choice rest ih =>
      obtain ⟨ofChoice, ofRest⟩ := List.forall_mem_cons.mp choicesPortable
      cases choice with
      | anyValue =>
          simp only [expand, Logged.result_bind, Logged.result_pure]
          refine ((ih ofRest portable).down Path.anyLabel).bind fun inner deep => ?_
          exact .ok ⟨.container frame.expandedDescription (.dictionary inner.value.type),
            inner.fields⟩ deep fun _ _ => rfl
      | known values =>
          simp only [expand, Logged.result_bind, Logged.result_pure]
          have content : Portable 4 0 fun path => (forEachValue (fun value part =>
              frame.expand rest (parts ++ [part]) (path.child value)) values).result := by
            refine portable_forEachValue (fun value part path =>
              frame.expand rest (parts ++ [part]) (path.child value)) fun entry member => ?_
            have selected := List.forall_mem_singleton.mpr (ofChoice entry member)
            exact (ih ofRest (List.forall_mem_append.mpr ⟨portable, selected⟩)).down entry.1
          refine content.bind fun lowered deep => .ok ⟨.container frame.expandedDescription
            (.object false lowered.value), lowered.fields⟩ deep fun path long => ?_
          rw [Policy.not_isOpenObject long]
          rfl

end Frame

namespace Block

theorem portable_catchAll {block : Block} {declared : Attribute}
    (catchAll : block.catchAll? = some declared) : block.Portable := by
  obtain ⟨description, labels, blockType, minItems, maxItems, body, dependents⟩ := block
  obtain ⟨⟨_, attributes, blocks, anyAttribute⟩, rfl, rfl⟩ := Option.bind_eq_some_iff.mp catchAll
  simp only [Portable, Block.lower, lowerCatchAll]
  cases attributes.isEmpty && blocks.isEmpty with
  | true =>
      obtain ⟨relative, deep, lowers⟩ := declared.settled_lower Path.anyLabel
      refine .ok ⟨.container (description.getD "") (.dictionary relative.value.type),
        relative.fields⟩ (fun field noted => Nat.zero_le _) fun path _ => ?_
      obtain ⟨value, fields⟩ := lowers path
      rw [Lowered.under, ← value, ← fields]
      rfl
  | false =>
      refine .error (.catchAllNotAlone .root) (Nat.zero_le _) fun path _ => ?_
      rw [LowerError.under_of_root rfl]
      rfl

theorem portable (block : Block) : block.Portable := by
  induction block using nested_induction with
  | step block ih =>
      have parts (body : Body) (member : body ∈ block.bodies) : body.part.Portable :=
        Body.portable_part (ih body member)
      cases catchAll : block.catchAll? with
      | some declared => exact portable_catchAll catchAll
      | none =>
          have own : ∀ part ∈ block.body.toList.map Body.part, part.Portable := by
            intro part member
            obtain ⟨body, declared, rfl⟩ := List.mem_map.mp member
            exact parts body (List.mem_append_left _ declared)
          exact (Frame.portable_expand (forall_choices parts 0 block.labels) own).congr
            fun path _ => congrArg Logged.result (lower_eq_expand block path catchAll)

end Block

namespace Body

theorem portable_lowerAll (bodies : List Body) :
    Portable 3 1 fun path => (lowerAll bodies path).result := by
  refine portable_mergeParts (fun part member => ?_) ⟨[], []⟩ (List.forall_mem_nil _)
  obtain ⟨body, -, rfl⟩ := List.mem_map.mp member
  exact portable_part fun entry _ => entry.2.portable

/-- After three segments only the place relative to the path counts: bodies lower at one path
exactly when they do at another, to the same members, and what is noted or at fault lies further
down, in the same place relative to either path. -/
theorem location_independent (bodies : List Body) (path other : Path) (long : 3 ≤ path.length)
    (longToo : 3 ≤ other.length) :
    ((∃ lowered, (lowerAll bodies path).result = .ok lowered) ↔
      ∃ lowered, (lowerAll bodies other).result = .ok lowered) ∧
    (∀ lowered, (lowerAll bodies path).result = .ok lowered →
      (∀ field ∈ lowered.fields, path.Above field.path) ∧
      (lowerAll bodies other).result =
        .ok ⟨lowered.value, lowered.fields.map (ComputedField.moved path other)⟩) ∧
    ∀ error, (lowerAll bodies path).result = .error error →
      path.Above error.place.segments ∧
      (lowerAll bodies other).result = .error (error.moved path other) := by
  cases portable_lowerAll bodies with
  | ok relative deep lowers =>
      have here := lowers path long
      have there := lowers other longToo
      refine ⟨by simp [here, there], fun lowered succeeded => ?_, fun error failed => ?_⟩
      · cases here.symm.trans succeeded
        refine ⟨fun field noted => ?_, ?_⟩
        · obtain ⟨inner, innerNoted, rfl⟩ := List.mem_map.mp noted
          exact Path.above_append path (deep inner innerNoted)
        · rw [there]
          simp [Lowered.under, Function.comp_def, ComputedField.moved_under]
      · cases here.symm.trans failed
  | error error deep fails =>
      have here := fails path long
      have there := fails other longToo
      refine ⟨by simp [here, there], fun lowered succeeded => ?_, fun fault failed => ?_⟩
      · cases here.symm.trans succeeded
      · cases here.symm.trans failed
        refine ⟨?_, by rw [there, LowerError.moved_under]⟩
        rw [LowerError.under, LowerError.place_withPlace]
        exact Path.above_append path deep

def mounted : List Body :=
  [{ attributes := [("mounts", .optional [.list [.object [("at", { isComputed := true })]] 0 0])]
     blocks := [("disk", {
       labels := [⟨"kind", none, true⟩, ⟨"name", none, false⟩]
       blockType := .object
       dependents := [⟨[⟨0, "local"⟩], {
         attributes := [("id", { isOptional := true, isComputed := true })] }⟩] })] }]

def mapped : List Body :=
  [{ blocks := [("disk", {
       labels := [⟨"kind", none, true⟩]
       blockType := .map
       dependents := [⟨[⟨0, "local"⟩], {}⟩] })] }]

theorem mounted_location_independent : ∃ lowered error,
    (lowerAll mounted ⟨["terraform", "backend", "s3"]⟩).result = .ok lowered ∧
    lowered.fields = [⟨true, ["terraform", "backend", "s3", "disk", "local", "_", "id"]⟩] ∧
    (lowerAll mounted ⟨["resource", "host", "_", "node"]⟩).result =
      .ok ⟨lowered.value, [⟨true, ["resource", "host", "_", "node", "disk", "local", "_", "id"]⟩]⟩ ∧
    (lowerAll mapped ⟨["terraform", "backend", "s3"]⟩).result = .error error ∧
    (lowerAll mapped ⟨["resource", "host", "_", "node"]⟩).result =
      .error (.unknownBlockType ⟨["resource", "host", "_", "node", "disk", "local"]⟩ .map) := by
  have long : 3 ≤ (Path.mk ["terraform", "backend", "s3"]).length := by decide
  have longToo : 3 ≤ (Path.mk ["resource", "host", "_", "node"]).length := by decide
  obtain ⟨-, success, -⟩ := location_independent mounted _ _ long longToo
  obtain ⟨-, -, failure⟩ := location_independent mapped _ _ long longToo
  exact ⟨_, _, rfl, rfl, (success _ rfl).2, rfl, (failure _ rfl).2⟩

end Body

end ConfigContract
