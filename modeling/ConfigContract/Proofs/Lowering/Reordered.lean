import ConfigContract.Proofs.Contract.Alike
import ConfigContract.Proofs.Lowering.Shape
import ConfigContract.Proofs.Schema.Reordered

/-!
The order in which a schema lists its attributes, blocks, object members and dependent bodies
decides the order of a contract, and nothing else: neither whether there is one, nor what it holds.
-/

namespace ConfigContract

structure Lowered.Alike {α : Type} (related : α → α → Prop) (lowered other : Lowered α) : Prop where
  value : related lowered.value other.value
  fields : lowered.fields.Perm other.fields

/-! Attributes -/

structure Reading.Alike (reading other : Reading) : Prop where
  rank : reading.rank = other.rank
  lower : ∀ path, Lowered.Alike ContractType.Alike (reading.lower path).toLowered
    (other.lower path).toLowered

namespace Reading

theorem Alike.orElse {first other rest later : Reading} (alike : first.Alike other)
    (alikeLater : rest.Alike later) : (first.orElse rest).Alike (other.orElse later) := by
  unfold Reading.orElse
  rw [alike.rank, alikeLater.rank]
  split
  next => exact alike
  next => exact alikeLater

theorem alike_literal (type : ValueType) :
    (Reading.literal type.lower).Alike (Reading.literal type.lower) := by
  refine ⟨rfl, fun path => ⟨?_, .refl []⟩⟩
  cases type <;> rfl

theorem alike_none : Reading.none.Alike Reading.none := ⟨rfl, fun _ => ⟨rfl, .refl []⟩⟩

theorem Alike.elements {element other : Reading} (alike : element.Alike other)
    (minItems maxItems : UInt64) :
    (Reading.elements minItems maxItems element.lower).Alike
      (Reading.elements minItems maxItems other.lower) :=
  ⟨rfl, fun path => ⟨(alike.lower path).value.bounded minItems maxItems, .refl []⟩⟩

theorem alike_object {members others : Path → Yield Members}
    (alike : ∀ path, Lowered.Alike Members.Alike (members path).toLowered
      (others path).toLowered) : (Reading.object members).Alike (Reading.object others) :=
  ⟨rfl, fun path => ⟨ContractType.alike_object false (alike path).value, (alike path).fields⟩⟩

end Reading

def Attribute.LowersAlike (declared other : Attribute) : Prop := ∀ path,
  Lowered.Alike Member.Alike (declared.lower path).toLowered (other.lower path).toLowered

theorem alike_memberOf (declared : Attribute) (path : Path) {type other : Yield ContractType}
    (alike : Lowered.Alike ContractType.Alike type.toLowered other.toLowered) :
    Lowered.Alike Member.Alike (memberOf declared path type).toLowered
      (memberOf declared path other).toLowered := by
  unfold memberOf
  rw [alike.value.isList]
  split
  next => exact ⟨⟨_, rfl, alike.value⟩, alike.fields⟩
  next => exact ⟨⟨_, rfl, alike.value⟩, alike.fields.append_right _⟩

theorem alike_lowerAttributes {attributes others : OrderedMap String Attribute}
    (rearranged : OrderedMap.Rearranged (fun _ => Attribute.LowersAlike) attributes others)
    (path : Path) : Lowered.Alike Members.Alike (lowerAttributes attributes path).toLowered
      (lowerAttributes others path).toLowered := by
  constructor
  · rw [lowerAttributes_value, lowerAttributes_value]
    exact rearranged.map fun key _ _ alike => (alike (path.child key)).value
  · rw [lowerAttributes_fields, lowerAttributes_fields]
    exact rearranged.flatMap_perm fun key _ _ alike => (alike (path.child key)).fields

mutual

theorem Attribute.lowersAlike : ∀ declared : Attribute, ∀ other,
    declared.Reordered other → declared.LowersAlike other
  | ⟨_, _, _, _, _, constraints⟩ => by
      rintro other ⟨others, rfl, matched⟩ path
      exact alike_memberOf _ path ((alike_deciding constraints others matched).lower path)

theorem Constraint.alike_reading : ∀ constraint : Constraint, ∀ other,
    constraint.Reordered other → constraint.reading.Alike other.reading
  | .object attributes => by
      rintro other ⟨others, arranged, rfl, distinct, matched, perm⟩
      have pointwise := attributes_lowerAlike attributes arranged matched
      exact Reading.alike_object (alike_lowerAttributes ⟨distinct, arranged, pointwise, perm⟩)
  | .list element minItems maxItems => by
      rintro other ⟨others, rfl, matched⟩
      exact (alike_deciding element others matched).elements minItems maxItems
  | .set element minItems maxItems => by
      rintro other ⟨others, rfl, matched⟩
      exact (alike_deciding element others matched).elements minItems maxItems
  | .map _ => by
      rintro other ⟨others, rfl, -⟩
      exact Reading.alike_none
  | .tuple _ => by
      rintro other ⟨others, rfl, -⟩
      exact Reading.alike_none
  | .literalType type => by
      rintro other rfl
      exact Reading.alike_literal type
  | .literalValue _ => by
      rintro other rfl
      exact Reading.alike_none
  | .keyword _ => by
      rintro other rfl
      exact Reading.alike_none
  | .reference => by
      rintro other rfl
      exact Reading.alike_none

theorem alike_deciding : ∀ constraints : List Constraint, ∀ others,
    constraintsMatch constraints others → (deciding constraints).Alike (deciding others)
  | [] => by
      rintro others rfl
      exact Reading.alike_none
  | constraint :: rest => by
      rintro others ⟨other, later, rfl, reordered, matched⟩
      exact (constraint.alike_reading other reordered).orElse (alike_deciding rest later matched)

theorem attributes_lowerAlike : ∀ attributes : List (String × Attribute), ∀ others,
    attributesMatch attributes others →
      OrderedMap.Pointwise (fun _ => Attribute.LowersAlike) attributes others
  | [] => by
      rintro others rfl
      exact .nil
  | (_, declared) :: rest => by
      rintro others ⟨other, later, rfl, reordered, matched⟩
      exact .cons ⟨rfl, declared.lowersAlike other reordered⟩
        (attributes_lowerAlike rest later matched)

end

/-! Bodies -/

def Block.LowersAlike (block other : Block) : Prop := ∀ path,
  Agree (Lowered.Alike Member.Alike) (block.lower path).result (other.lower path).result

structure Part.Alike (part other : Part) : Prop where
  description : part.description = other.description
  lower : ∀ path, Agree (Lowered.Alike Members.Alike) (part.lower path).result
    (other.lower path).result

theorem Lowered.Alike.write {merged other : Lowered Members}
    (alike : Lowered.Alike Members.Alike merged other)
    {parts others : OrderedMap String (Lowered Member)}
    (rearranged : OrderedMap.Rearranged (fun _ => Lowered.Alike Member.Alike) parts others) :
    Lowered.Alike Members.Alike (merged.write parts) (other.write others) where
  value := alike.value.insertAll (rearranged.map fun _ _ _ both => both.value)
  fields := alike.fields.append (rearranged.flatMap_perm fun _ _ _ both => both.fields)

theorem Lowered.alike_nil : Lowered.Alike Members.Alike ⟨[], []⟩ ⟨[], []⟩ :=
  ⟨⟨OrderedMap.distinct_nil, [], .nil, .refl []⟩, .refl []⟩

theorem agree_lowerBlocks {blocks others : OrderedMap String Block}
    (rearranged : OrderedMap.Rearranged (fun _ => Block.LowersAlike) blocks others) (path : Path)
    {merged other : Lowered Members} (alike : Lowered.Alike Members.Alike merged other) :
    Agree (Lowered.Alike Members.Alike) (lowerBlocks blocks path merged).result
      (lowerBlocks others path other).result := by
  have declared : OrderedMap.Rearranged (fun _ first second =>
      ∀ path, Agree (Lowered.Alike Member.Alike) (Declaration.lower first path)
        (Declaration.lower second path))
      (OrderedMap.mapValues .block blocks) (OrderedMap.mapValues .block others) :=
    rearranged.map fun _ _ _ both => both
  rw [lowerBlocks_result, lowerBlocks_result]
  refine (declared.mapM fun key first second both => ?_).map fun _ _ => alike.write
  exact (both (path.child key)).bind fun _ _ member => .ok ⟨rfl, rfl, member⟩

theorem Body.alike_part {body other : Body} (reordered : body.Reordered other)
    (inside : ∀ entry ∈ body.blocks, ∀ other, entry.2.Reordered other →
      entry.2.LowersAlike other) : body.part.Alike other.part := by
  have attributes := reordered.attributes.imp fun _ declared other _ => declared.lowersAlike other
  have blocks := reordered.blocks.imp fun key block other member => inside (key, block) member other
  refine ⟨reordered.description, fun path => ?_⟩
  obtain ⟨description, _, _, anyAttribute⟩ := body
  obtain ⟨_, _, _, anyOther⟩ := other
  exact agree_lowerBlocks blocks path (alike_lowerAttributes attributes path)

theorem agree_mergeParts {parts others : List Part} (alike : List.Forall₂ Part.Alike parts others)
    (path : Path) {merged other : Lowered Members}
    (before : Lowered.Alike Members.Alike merged other) :
    Agree (Lowered.Alike Members.Alike) (mergeParts path parts merged).result
      (mergeParts path others other).result := by
  induction alike generalizing merged other with
  | nil => exact .ok before
  | cons first _ ih =>
      simp only [mergeParts, Logged.result_bind, Logged.result_tellAll, ok_bind]
      refine (first.lower path).bind fun body another both => ih ?_
      exact ⟨before.value.insertAll both.value, before.fields.append both.fields⟩

namespace Frame

theorem finishedDescription_eq (frame : Frame) {parts others : List Part}
    (alike : List.Forall₂ Part.Alike parts others) :
    frame.finishedDescription parts = frame.finishedDescription others := by
  have descriptions : parts.map Part.description = others.map Part.description := by
    induction alike with
    | nil => rfl
    | cons first _ ih => rw [List.map_cons, List.map_cons, first.description, ih]
  have last (parts : List Part) : parts.getLast?.bind Part.description =
      (parts.map Part.description).getLast?.join := by
    rw [List.getLast?_map]
    cases parts.getLast? <;> rfl
  rw [finishedDescription, finishedDescription, last, last, descriptions]

theorem agree_finish (frame : Frame) (path : Path) {parts others : List Part}
    (alike : List.Forall₂ Part.Alike parts others) :
    Agree (Lowered.Alike Member.Alike) (frame.finish path parts).result
      (frame.finish path others).result := by
  have merges := agree_mergeParts alike path Lowered.alike_nil
  have object {merged other : Lowered Members} (both : Lowered.Alike Members.Alike merged other) :=
    ContractType.alike_object (Policy.isOpenObject path) both.value
  unfold finish
  cases frame.effectiveType path with
  | object =>
      simp only [single, Logged.result_bind, Logged.result_tell, ok_bind]
      refine merges.bind fun merged other both => .ok ⟨?_, both.fields⟩
      rw [frame.finishedDescription_eq alike]
      exact (object both).container _
  | list | set =>
      simp only [listed, Logged.result_bind, Logged.result_tell, Logged.result_tellAll, ok_bind]
      refine merges.bind fun merged other both => .ok ⟨?_, .refl []⟩
      rw [frame.finishedDescription_eq alike]
      exact ((object both).bounded _ _).container _
  | nil | map => exact .error _ _

end Frame

/-! Labels -/

namespace LabelChoice

inductive Alike : LabelChoice Part → LabelChoice Part → Prop
  | anyValue : Alike .anyValue .anyValue
  | known {values others : OrderedMap String Part}
      (rearranged : OrderedMap.Rearranged (fun _ => Part.Alike) values others) :
      Alike (.known values) (.known others)

theorem any_isAnyValue_eq {choices others : List (LabelChoice Part)}
    (alike : List.Forall₂ Alike choices others) :
    choices.any isAnyValue = others.any isAnyValue := by
  induction alike with
  | nil => rfl
  | cons first _ ih =>
      rw [List.any_cons, List.any_cons, ih]
      cases first <;> rfl

theorem rearranged_collect {dependents arranged others : List (List LabelKey × Part)}
    (matched : OrderedMap.Pointwise (fun _ => Part.Alike) dependents arranged)
    (order : arranged = others ∨
      (dependents.map Prod.fst).Pairwise List.Disjoint ∧ arranged.Perm others)
    (index : Nat) : OrderedMap.Rearranged (fun _ => Part.Alike) (collect index dependents)
      (collect index others) := by
  have kept : OrderedMap.Rearranged (fun _ => Part.Alike) (collect index dependents)
      (collect index arranged) :=
    ⟨distinct_collect index _, _, pointwise_collect matched index, .refl _⟩
  refine .of_get? (distinct_collect index _) (distinct_collect index _) fun value => ?_
  rcases order with rfl | ⟨unshared, perm⟩
  · exact kept.get? value
  · have keys : dependents.map Prod.fst = arranged.map Prod.fst := matched.keys
    rw [← get?_collect_of_perm (keys ▸ unshared) perm index value]
    exact kept.get? value

theorem alike_ofLabels {dependents others : List (List LabelKey × Part)}
    (collected : ∀ index, OrderedMap.Rearranged (fun _ => Part.Alike) (collect index dependents)
      (collect index others)) (index : Nat) (labels : List Label) :
    List.Forall₂ Alike (ofLabels dependents index labels) (ofLabels others index labels) := by
  induction labels generalizing index with
  | nil => exact .nil
  | cons label rest ih =>
      refine .cons ?_ (ih (index + 1))
      split
      next => exact .known (collected index)
      next => exact .anyValue

end LabelChoice

namespace Frame

def gather (parts : OrderedMap String (Lowered Member)) : Lowered Members :=
  ⟨OrderedMap.mapValues Lowered.value parts, parts.flatMap fun part => part.2.fields⟩

theorem forEachValue_result (lower : String → Part → Logged LowerError (Lowered Member))
    (values : OrderedMap String Part) : (forEachValue lower values).result =
      gather <$> values.mapM fun entry =>
        (entry.1, ·) <$> (lower entry.1 entry.2).result := by
  induction values with
  | nil => rfl
  | cons entry rest ih =>
      obtain ⟨value, part⟩ := entry
      simp only [forEachValue, Logged.result_bind, ih, List.mapM_cons]
      cases (lower value part).result with
      | error error => rfl
      | ok member =>
          cases rest.mapM fun entry => (entry.1, ·) <$> (lower entry.1 entry.2).result with
          | error error => rfl
          | ok parts => rfl

theorem agree_forEachValue {lower lowerOther : String → Part → Logged LowerError (Lowered Member)}
    {values others : OrderedMap String Part}
    (rearranged : OrderedMap.Rearranged (fun _ => Part.Alike) values others)
    (each : ∀ value part other, part.Alike other →
      Agree (Lowered.Alike Member.Alike) (lower value part).result
        (lowerOther value other).result) :
    Agree (Lowered.Alike Members.Alike) (forEachValue lower values).result
      (forEachValue lowerOther others).result := by
  rw [forEachValue_result, forEachValue_result]
  have members : Agree (OrderedMap.Rearranged fun _ => Lowered.Alike Member.Alike)
      (values.mapM fun entry => (entry.1, ·) <$> (lower entry.1 entry.2).result)
      (others.mapM fun entry => (entry.1, ·) <$> (lowerOther entry.1 entry.2).result) :=
    rearranged.mapM fun value part other both =>
      (each value part other both).map fun _ _ member => ⟨rfl, rfl, member⟩
  refine members.map fun parts partsOther both => ⟨?_, ?_⟩
  · exact both.map fun _ _ _ member => member.value
  · exact both.flatMap_perm fun _ _ _ member => member.fields

theorem agree_expand (frame : Frame) {choices others : List (LabelChoice Part)}
    (alike : List.Forall₂ LabelChoice.Alike choices others) {parts another : List Part}
    (partsAlike : List.Forall₂ Part.Alike parts another) (path : Path) :
    Agree (Lowered.Alike Member.Alike) (frame.expand choices parts path).result
      (frame.expand others another path).result := by
  induction alike generalizing parts another path with
  | nil => exact frame.agree_finish path partsAlike
  | cons first _ ih =>
      cases first with
      | anyValue =>
          simp only [expand, Logged.result_bind]
          refine (ih partsAlike path.wildcard).bind fun inner other both => ?_
          exact .ok ⟨both.value.type.dictionary.container _, both.fields⟩
      | known rearranged =>
          simp only [expand, Logged.result_bind]
          refine (agree_forEachValue rearranged fun value part other both => ?_).bind
            fun content contentOther both => ?_
          · exact ih (List.rel_append partsAlike (.cons both .nil)) (path.child value)
          · exact .ok ⟨(ContractType.alike_object _ both.value).container _, both.fields⟩

end Frame

/-! Blocks -/

theorem agree_lowerCatchAll (description : Option String) {body own : Option Body}
    (matched : bodyMatch body own) (path : Path) :
    Option.Rel (fun outcome other =>
      Agree (Lowered.Alike Member.Alike) outcome.result other.result)
      (lowerCatchAll description body path) (lowerCatchAll description own path) := by
  cases body with
  | none =>
      cases matched
      exact .none
  | some body =>
      obtain ⟨own, rfl, reordered⟩ := matched
      have noAttributes := reordered.attributes.isEmpty
      have noBlocks := reordered.blocks.isEmpty
      have catchAll := reordered.anyAttribute
      obtain ⟨_, attributes, blocks, anyAttribute⟩ := body
      obtain ⟨_, attributesOther, blocksOther, anyOther⟩ := own
      cases catchAll with
      | none => exact .none
      | some accepts =>
          have inner := Attribute.lowersAlike _ _ accepts path.wildcard
          simp only [lowerCatchAll, ← noAttributes, ← noBlocks]
          split
          next => exact .some (.ok ⟨inner.value.type.dictionary.container _, inner.fields⟩)
          next => exact .some (.error _ _)

theorem alike_ownParts {body own : Option Body} (matched : bodyMatch body own)
    (alike : ∀ inner ∈ body, ∀ other, inner.Reordered other → inner.part.Alike other.part) :
    List.Forall₂ Part.Alike (ownParts body) (ownParts own) := by
  cases body with
  | none =>
      cases matched
      exact .nil
  | some body =>
      obtain ⟨own, rfl, reordered⟩ := matched
      exact .cons (alike body rfl own reordered) .nil

theorem rearranged_dependentParts {dependents arranged others : List DependentBody}
    (matched : dependentsMatch dependents arranged)
    (order : arranged = others ∨ Unshared dependents ∧ arranged.Perm others)
    (alike : ∀ dependent ∈ dependents, ∀ other, dependent.body.Reordered other →
      dependent.body.part.Alike other.part) (index : Nat) :
    OrderedMap.Rearranged (fun _ => Part.Alike)
      (LabelChoice.collect index (dependentParts dependents))
      (LabelChoice.collect index (dependentParts others)) := by
  have parts : OrderedMap.Pointwise (fun _ => Part.Alike) (dependentParts dependents)
      (dependentParts arranged) := by
    have listed := (List.forall₂_and_left _ _).mpr
      ⟨fun _ member => member, (dependentsMatch_iff dependents arranged).mp matched⟩
    rw [Block.dependentParts_eq, Block.dependentParts_eq]
    exact List.rel_map (fun _ _ both => ⟨both.2.1, alike _ both.1 _ both.2.2⟩) listed
  have keys : (dependentParts dependents).map Prod.fst = dependents.map DependentBody.keys := by
    simp [Block.dependentParts_eq]
  refine LabelChoice.rearranged_collect parts (order.imp (congrArg dependentParts) ?_) index
  rintro ⟨unshared, perm⟩
  rw [keys, Block.dependentParts_eq, Block.dependentParts_eq]
  exact ⟨unshared, perm.map _⟩

theorem Block.lowersAlike (block : Block) :
    ∀ other, block.Reordered other → block.LowersAlike other := by
  induction block using nested_induction with
  | step block ih =>
      have alike (body : Body) (member : body ∈ block.bodies) (other : Body)
          (reordered : body.Reordered other) : body.part.Alike other.part :=
        Body.alike_part reordered (ih body member)
      intro other reordered path
      obtain ⟨description, labels, blockType, minItems, maxItems, body, dependents⟩ := block
      obtain ⟨own, others, arranged, rfl, ownMatched, matched, order⟩ := reordered
      have catchAll := agree_lowerCatchAll description ownMatched path
      have ownParts := alike_ownParts ownMatched fun inner member =>
        alike inner (mem_bodies.mpr (.inl member))
      have collected := rearranged_dependentParts matched order fun dependent member =>
        alike dependent.body (mem_bodies.mpr (.inr ⟨dependent, member, rfl⟩))
      have choices := LabelChoice.alike_ofLabels collected 0 labels
      -- a catch-all attribute decides before the labels do
      simp only [Block.lower]
      generalize lowerCatchAll description body path = outcome at catchAll ⊢
      generalize lowerCatchAll description own path = outcomeOther at catchAll ⊢
      cases catchAll with
      | some agree => exact agree
      | none =>
          rw [LabelChoice.any_isAnyValue_eq choices]
          exact Frame.agree_expand _ choices ownParts path

namespace Contract

/-- Schemas that differ only in order lower alike: both fail, or both yield contracts that are equal
as nested maps and have the same computed attributes. -/
theorem order_independent (body other : Body) (reordered : body.Reordered other) :
    ((∃ contract, (ofBody body).result = .ok contract) ↔
      ∃ contract, (ofBody other).result = .ok contract) ∧
    ∀ contract another, (ofBody body).result = .ok contract →
      (ofBody other).result = .ok another →
      Members.Alike contract.schema another.schema ∧
        contract.computedFields.Perm another.computedFields := by
  have part : body.part.Alike other.part :=
    Body.alike_part reordered fun entry _ => entry.2.lowersAlike
  have merges := agree_mergeParts (.cons part .nil) .root Lowered.alike_nil
  have agree : Agree (fun contract another => Members.Alike contract.schema another.schema ∧
      contract.computedFields.Perm another.computedFields)
      (ofBody body).result (ofBody other).result := by
    rw [ofBody, ofBody, ofBodies_result, ofBodies_result]
    exact merges.bind fun _ _ both => .ok ⟨both.value, both.fields⟩
  exact ⟨agree.exists_ok_iff, fun _ _ => agree.of_ok⟩

def inOneOrder : Body :=
  { attributes := [
      ("limits", .optional [.object [("cpu", .optional [.number]), ("id", { isComputed := true })]]),
      ("name", .required [.string])]
    blocks := [
      ("locals", { body := some { anyAttribute := some (.optional [.dynamic]) } }),
      ("resource", {
        labels := [⟨"type", none, true⟩]
        blockType := .object
        dependents := [
          ⟨[⟨0, "disk"⟩], { attributes := [("address", { isComputed := true })] }⟩,
          ⟨[⟨0, "image"⟩], { attributes := [("size", { isComputed := true })] }⟩] })] }

def inAnotherOrder : Body :=
  { attributes := [
      ("name", .required [.string]),
      ("limits", .optional [.object [("id", { isComputed := true }), ("cpu", .optional [.number])]])]
    blocks := [
      ("resource", {
        labels := [⟨"type", none, true⟩]
        blockType := .object
        dependents := [
          ⟨[⟨0, "image"⟩], { attributes := [("size", { isComputed := true })] }⟩,
          ⟨[⟨0, "disk"⟩], { attributes := [("address", { isComputed := true })] }⟩] }),
      ("locals", { body := some { anyAttribute := some (.optional [.dynamic]) } })] }

theorem reordered_inAnotherOrder : inOneOrder.Reordered inAnotherOrder := by
  have distinct {α : Type} {entries : OrderedMap String α}
      (different : (OrderedMap.keys entries).Nodup) : OrderedMap.Distinct entries := different
  have plain (type : ValueType) : constraintsMatch [.literalType type] [.literalType type] :=
    ⟨_, _, rfl, rfl, rfl⟩
  have computed : Attribute.Reordered { isComputed := true } { isComputed := true } :=
    ⟨[], rfl, rfl⟩
  have limits : Constraint.Reordered
      (.object [("cpu", .optional [.number]), ("id", { isComputed := true })])
      (.object [("id", { isComputed := true }), ("cpu", .optional [.number])]) :=
    ⟨_, _, rfl, distinct (by decide), ⟨_, _, rfl, ⟨_, rfl, plain _⟩, _, _, rfl, computed, rfl⟩,
      .swap _ _ _⟩
  have selected (key : String) : Body.Reordered { attributes := [(key, { isComputed := true })] }
      { attributes := [(key, { isComputed := true })] } :=
    ⟨rfl, ⟨List.nodup_singleton _, _, .cons ⟨rfl, computed⟩ .nil, .refl _⟩,
      ⟨List.nodup_nil, [], rfl, .refl _⟩, .none⟩
  refine ⟨rfl, ⟨distinct (by decide), _, ?attributes, .swap _ _ _⟩,
    ⟨distinct (by decide), _, ?blocks, .swap _ _ _⟩, .none⟩
  case attributes =>
    exact .cons ⟨rfl, _, rfl, _, _, rfl, limits, rfl⟩ (.cons ⟨rfl, _, rfl, plain _⟩ .nil)
  case blocks =>
    refine ⟨_, _, rfl, ⟨_, _, _, rfl, ⟨_, rfl, ?locals⟩, rfl, .inl rfl⟩, _, _, rfl, ?resource, rfl⟩
    case locals =>
      exact ⟨rfl, ⟨List.nodup_nil, [], .nil, .refl _⟩, ⟨List.nodup_nil, [], rfl, .refl _⟩,
        .some ⟨_, rfl, plain _⟩⟩
    case resource =>
      exact ⟨none, _, _, rfl, rfl, ⟨_, _, rfl, selected _, _, _, rfl, selected _, rfl⟩,
        .inr ⟨by simp [Unshared], .swap _ _ _⟩⟩

/-- Both orders yield a contract, with the computed attributes in another order. -/
theorem inAnotherOrder_alike : ∃ contract another,
    inOneOrder.Reordered inAnotherOrder ∧
    (ofBody inOneOrder).result = .ok contract ∧ (ofBody inAnotherOrder).result = .ok another ∧
    contract.computedFields ≠ another.computedFields ∧
    Members.Alike contract.schema another.schema ∧
      contract.computedFields.Perm another.computedFields :=
  ⟨_, _, reordered_inAnotherOrder, rfl, rfl, by decide,
    (order_independent _ _ reordered_inAnotherOrder).2 _ _ rfl rfl⟩

end Contract

end ConfigContract
