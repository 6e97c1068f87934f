import ConfigContract.Proofs.Json.Records
import ConfigContract.Proofs.Json.Value
import ConfigContract.Schema.Decoding

/-!
Module schemas are read back from their printed JSON form if that is not too deep, and are refused
if it is.
-/

namespace ConfigContract

open Text Reader Encoding

/-! Value types -/

namespace ValueTypeReaders

theorem below_succ (depth : Nat) : below atDepth (depth + 1) = ofDepth depth := rfl

theorem reads_named {name : String} {type : ValueType}
    (known : OrderedMap.get? name primitives = some type) (depth : Nat) :
    Reads (ofDepth depth).type depth (.string name) type := by
  rw [ofDepth]
  refine .of_start fun _ _ rest _ => ?_
  refine .of_ok (Nat.zero_le depth) ?_
  have read := Token.string_writeString name rest
  simp only [ofChars_append, ofChars_cons, ofChars_nil, List.append_assoc, List.cons_append,
    List.nil_append] at read
  simp [Json.write, Json.writeString, bind_apply, ofToken, read, named, known, pure_apply]

theorem reads_pair {kind : String} {json : Json} {type : ValueType} {depth : Nat}
    (reads : ∀ inner, depth = inner + 1 → ∃ reader,
      (ofDepth inner).element kind = some reader ∧ Reads reader inner json type) :
    Reads (ofDepth depth).type depth (.array [.string kind, json]) type := by
  rw [ofDepth]
  refine .of_start fun {layout} plain level rest _ => ?_
  obtain ⟨close, spaces, written⟩ := Json.write_array plain level [.string kind, json]
  have depths : (Json.array [.string kind, json]).depth = 1 + json.depth := by
    simp [Json.depth, Json.itemsDepth]
  rw [written, depths, Json.itemsText, Json.writeItems_eq, Json.itemsText, Json.writeItems]
  simp only [ofChars_append, ofChars_cons, ofChars_nil, List.append_assoc, List.cons_append,
    List.nil_append]
  refine enter_guarded fun inner levelLeft => ?_
  subst levelLeft
  obtain ⟨reader, known, read⟩ := reads inner rfl
  have kindRead (rest : Text) (stops : Token.Stops rest) :
      (Reader.text.within (.index 0)) (ofChars ((Json.string kind).write layout (level + 1)) ++
        rest) = .ok (kind, rest) :=
    (((Reads.string "a string" inner kind).within (.index 0)).guarded plain (level + 1) .nil
      stops).1 (Nat.zero_le inner)
  have typeRead := (read.within (.index 1)).guarded plain (level + 1) .nil
    (Token.stops_items layout (level + 1) [] spaces rest)
  have nextType := nextItem_item false plain (level + 1) json
    (ofChars close ++ .char ']' :: rest)
  have stops : Token.Stops (ofChars (separator false) ++ (ofChars (layout.newline (level + 1)) ++
      (ofChars (json.write layout (level + 1)) ++ (ofChars close ++ .char ']' :: rest)))) :=
    ⟨rfl, by decide, by decide, by decide⟩
  have nothingLeft (step : Glyph) (steps : Text) :
      (items skip (step :: steps) 2 : Reader (List Unit)) (ofChars close ++ .char ']' :: rest) =
        .ok ([], .char ']' :: rest) := by
    simp [items, bind_apply, nextItem_end spaces, pure_apply]
  simp only [bind_apply, nextItem_item _ plain (level + 1) (Json.string kind), ok_bind,
    ↓reduceIte, kindRead _ stops, below_succ, known, nextType]
  refine (typeRead.bind (.of_ok trivial ?_)).congr (and_iff_left trivial)
  simp only [Json.writeItems, ofChars_nil, List.nil_append, stepsFor, discard_apply,
    nothingLeft, map_ok, ok_bind, closeArray_apply, pure_apply]

end ValueTypeReaders

open ValueTypeReaders in
mutual

theorem ValueType.reads : ∀ type : ValueType, type.WellFormed → ∀ depth,
    Reads (ofDepth depth).type depth type.toJson type
  | .dynamic, _, depth => reads_named rfl depth
  | .string, _, depth => reads_named rfl depth
  | .number, _, depth => reads_named rfl depth
  | .bool, _, depth => reads_named rfl depth
  | .list element, wellFormed, depth => reads_pair fun inner _ =>
      ⟨_, rfl, (element.reads wellFormed inner).fmap ValueType.list⟩
  | .set element, wellFormed, depth => reads_pair fun inner _ =>
      ⟨_, rfl, (element.reads wellFormed inner).fmap ValueType.set⟩
  | .map element, wellFormed, depth => reads_pair fun inner _ =>
      ⟨_, rfl, (element.reads wellFormed inner).fmap ValueType.map⟩
  | .object fields, wellFormed, depth => reads_pair fun inner _ => by
      refine ⟨_, rfl, Reads.fmap ValueType.object ?_⟩
      rw [ofDepth]
      refine .map wellFormed.1 ?_
      rintro innermost rfl
      exact fieldsRead fields wellFormed.2 innermost
  | .tuple elements, wellFormed, depth => reads_pair fun inner _ => by
      refine ⟨_, rfl, Reads.fmap ValueType.tuple ?_⟩
      rw [ofDepth]
      refine .list ?_
      rintro innermost rfl
      exact elementsRead elements wellFormed innermost

theorem fieldsRead : ∀ fields : List (String × ValueType), fieldsWellFormed fields → ∀ depth,
    List.Forall₂ (fun json pair => json.1 = pair.1 ∧
      Reads (ofDepth depth).type depth json.2 pair.2) (valueTypeFieldsToJson fields) fields
  | [], _, _ => .nil
  | (_, type) :: rest, wellFormed, depth =>
      .cons ⟨rfl, type.reads wellFormed.1 depth⟩ (fieldsRead rest wellFormed.2 depth)

theorem elementsRead : ∀ elements : List ValueType, elementsWellFormed elements → ∀ depth,
    List.Forall₂ (Reads (ofDepth depth).type depth) (valueTypesToJson elements) elements
  | [], _, _ => .nil
  | type :: rest, wellFormed, depth =>
      .cons (type.reads wellFormed.1 depth) (elementsRead rest wellFormed.2 depth)

end

/-! Attributes and constraints -/

namespace AttributeReaders

theorem valueTypes_ofDepth (depth : Nat) :
    (ofDepth depth).valueTypes = ValueTypeReaders.ofDepth depth :=
  congrArg (ValueTypeReaders.atDepth depth) (project_below valueTypes rfl (fun _ _ => rfl) depth)

theorem value_ofDepth (depth : Nat) : (ofDepth depth).value = Reader.json depth :=
  congrArg (anyValue depth) (project_below value rfl (fun _ _ => rfl) depth)

theorem reads_constraints {constraints : List Constraint}
    (reads : ∀ inner, List.Forall₂ (Reads (ofDepth inner).constraint inner)
      (constraintsToJson constraints) constraints) (depth : Nat) :
    Reads (ofDepth depth).constraints depth (.array (constraintsToJson constraints))
      constraints := by
  rw [ofDepth]
  refine .list ?_
  rintro inner rfl
  exact reads inner

theorem reads_only {β : Type} {reader : Nat → Reader β} {json : Json} {value : β}
    (reads : ∀ inner, Reads (reader inner) inner json value) (expected key : String) (initial : β)
    (depth : Nat) {inside : Reader β} (below : ∀ inner, depth = inner + 1 → inside = reader inner) :
    Reads (record expected depth [required key inside fun _ given => given] initial) depth
      (.object [(key, json)]) value := by
  refine Reads.record expected [some _] ?_ ?_
  · rintro inner rfl
    refine .present (List.find?_cons_of_pos (by simp [required])) (by simp) ?_ .done
    exact below inner rfl ▸ (reads inner).fmap _
  · simp [required]

theorem reads_objectForm {attributes : List (String × Attribute)}
    (distinct : OrderedMap.Distinct attributes)
    (reads : ∀ inner, List.Forall₂ (fun json pair => json.1 = pair.1 ∧
      Reads (ofDepth inner).declared inner json.2 pair.2) (attributesToJson attributes) attributes)
    (depth : Nat) :
    Reads (ofDepth depth).objectForm depth
      (.object [("attributes", .object (attributesToJson attributes))]) (.object attributes) := by
  have inside (inner : Nat) : Reads (ofDepth inner).attributes inner
      (.object (attributesToJson attributes)) attributes := by
    rw [ofDepth]
    refine .map distinct ?_
    rintro innermost rfl
    exact reads innermost
  rw [ofDepth]
  exact (reads_only inside _ _ _ depth fun inner same => by subst same; rfl).fmap Constraint.object

theorem reads_elements {element : List Constraint} (minItems maxItems : UInt64)
    (reads : ∀ inner, List.Forall₂ (Reads (ofDepth inner).constraint inner)
      (constraintsToJson element) element) (expected : String) (depth : Nat) :
    Reads (record expected depth (below atDepth depth).elementFields {}) depth
      (.object [("elem", .array (constraintsToJson element)), ("min_items", .unsigned minItems),
        ("max_items", .unsigned maxItems)]) (⟨element, minItems, maxItems⟩ : Elements) := by
  refine Reads.record expected [some _, some _, some _] ?_ ?_
  · rintro inner rfl
    refine .present rfl (by simp) ((reads_constraints reads inner).fmap _) ?_
    refine .present rfl (by simp) ((Reads.unsigned "u64" inner minItems).fmap _) ?_
    refine .present rfl (by simp) ((Reads.unsigned "u64" inner maxItems).fmap _) ?_
    exact .done
  · simp [elementFields, required, field]

theorem reads_listForm {element : List Constraint} (minItems maxItems : UInt64)
    (reads : ∀ inner, List.Forall₂ (Reads (ofDepth inner).constraint inner)
      (constraintsToJson element) element) (depth : Nat) :
    Reads (ofDepth depth).listForm depth
      (.object [("elem", .array (constraintsToJson element)), ("min_items", .unsigned minItems),
        ("max_items", .unsigned maxItems)]) (.list element minItems maxItems) := by
  rw [ofDepth]
  exact (reads_elements minItems maxItems reads _ depth).fmap
    fun e => Constraint.list e.element e.minItems e.maxItems

theorem reads_setForm {element : List Constraint} (minItems maxItems : UInt64)
    (reads : ∀ inner, List.Forall₂ (Reads (ofDepth inner).constraint inner)
      (constraintsToJson element) element) (depth : Nat) :
    Reads (ofDepth depth).setForm depth
      (.object [("elem", .array (constraintsToJson element)), ("min_items", .unsigned minItems),
        ("max_items", .unsigned maxItems)]) (.set element minItems maxItems) := by
  rw [ofDepth]
  exact (reads_elements minItems maxItems reads _ depth).fmap
    fun e => Constraint.set e.element e.minItems e.maxItems

theorem reads_mapForm {element : List Constraint}
    (reads : ∀ inner, List.Forall₂ (Reads (ofDepth inner).constraint inner)
      (constraintsToJson element) element) (depth : Nat) :
    Reads (ofDepth depth).mapForm depth (.object [("elem", .array (constraintsToJson element))])
      (.map element) := by
  rw [ofDepth]
  exact (reads_only (reads_constraints reads) _ _ _ depth
    fun inner same => by subst same; rfl).fmap Constraint.map

theorem reads_tupleForm {elements : List (List Constraint)}
    (reads : ∀ inner, List.Forall₂ (Reads (ofDepth inner).constraints inner)
      (alternativesToJson elements) elements) (depth : Nat) :
    Reads (ofDepth depth).tupleForm depth
      (.object [("elems", .array (alternativesToJson elements))]) (.tuple elements) := by
  have inside (inner : Nat) : Reads (ofDepth inner).alternatives inner
      (.array (alternativesToJson elements)) elements := by
    rw [ofDepth]
    refine .list ?_
    rintro innermost rfl
    exact reads innermost
  rw [ofDepth]
  exact (reads_only inside _ _ _ depth fun inner same => by subst same; rfl).fmap Constraint.tuple

theorem reads_tagged {name : String} {variant : AttributeReaders → Variant Constraint}
    {json : Json} {constraint : Constraint}
    (known : ∀ inner, (constraintVariants inner).find? (·.name == name) = some (variant inner))
    (reads : ∀ inner, Reads (variant (ofDepth inner)).loaded inner json constraint) (depth : Nat) :
    Reads (ofDepth depth).constraint depth (tagged name json) constraint := by
  rw [ofDepth]
  refine .taggedVariant (known _) ?_
  rintro inner rfl
  exact reads inner

end AttributeReaders

open AttributeReaders in
mutual

theorem Attribute.reads : ∀ declared : Attribute, declared.WellFormed Json.Integral → ∀ depth,
    Reads (ofDepth depth).declared depth declared.toJson declared
  | ⟨description, isOptional, isRequired, isComputed, isSensitive, constraints⟩, wellFormed,
      depth => by
      have constraintsRead := reads_constraints (constraintItems constraints wellFormed)
      rw [AttributeReaders.ofDepth]
      refine Reads.record _ _ ?_ ?_
      · rintro inner rfl
        refine .slot "description" rfl (by simp) (Fills.optionallyText description rfl) ?_
        refine .present rfl (by simp) ((Reads.bool inner isOptional).fmap _) ?_
        refine .present rfl (by simp) ((Reads.bool inner isRequired).fmap _) ?_
        refine .present rfl (by simp) ((Reads.bool inner isComputed).fmap _) ?_
        refine .present rfl (by simp) ((Reads.bool inner isSensitive).fmap _) ?_
        refine .present rfl (by simp) ((constraintsRead inner).fmap _) ?_
        exact .done
      · simp [attributeFields, field]

theorem Constraint.reads : ∀ constraint : Constraint, constraint.WellFormed Json.Integral →
    ∀ depth, Reads (ofDepth depth).constraint depth constraint.toJson constraint
  | .object attributes, wellFormed, depth => by
      refine reads_tagged (fun _ => rfl) (fun inner => ?_) depth
      have members := attributesRead attributes wellFormed.2
      exact (reads_objectForm wellFormed.1 members inner).fmap id
  | .list element minItems maxItems, wellFormed, depth => by
      refine reads_tagged (fun _ => rfl) (fun inner => ?_) depth
      exact (reads_listForm minItems maxItems (constraintItems element wellFormed) inner).fmap id
  | .set element minItems maxItems, wellFormed, depth => by
      refine reads_tagged (fun _ => rfl) (fun inner => ?_) depth
      exact (reads_setForm minItems maxItems (constraintItems element wellFormed) inner).fmap id
  | .map element, wellFormed, depth => by
      refine reads_tagged (fun _ => rfl) (fun inner => ?_) depth
      exact (reads_mapForm (constraintItems element wellFormed) inner).fmap id
  | .tuple elements, wellFormed, depth => by
      refine reads_tagged (fun _ => rfl) (fun inner => ?_) depth
      exact (reads_tupleForm (alternativeItems elements wellFormed) inner).fmap id
  | .literalType type, wellFormed, depth => by
      refine reads_tagged (fun _ => rfl) (fun inner => ?_) depth
      rw [valueTypes_ofDepth]
      exact (type.reads wellFormed inner).fmap Constraint.literalType
  | .literalValue value, wellFormed, depth => by
      refine reads_tagged (fun _ => rfl) (fun inner => ?_) depth
      rw [value_ofDepth]
      exact (Reads.json value wellFormed inner).fmap Constraint.literalValue
  | .keyword word, _, depth => by
      refine reads_tagged (fun _ => rfl) (fun inner => ?_) depth
      exact (Reads.string "a string" inner word).fmap Constraint.keyword
  | .reference, _, depth => by
      rw [AttributeReaders.ofDepth]
      exact .unitVariant rfl depth

theorem constraintItems : ∀ constraints : List Constraint,
    constraintsWellFormed Json.Integral constraints → ∀ depth,
      List.Forall₂ (Reads (ofDepth depth).constraint depth) (constraintsToJson constraints)
        constraints
  | [], _, _ => .nil
  | constraint :: rest, wellFormed, depth =>
      .cons (constraint.reads wellFormed.1 depth) (constraintItems rest wellFormed.2 depth)

theorem alternativeItems : ∀ alternatives : List (List Constraint),
    alternativesWellFormed Json.Integral alternatives → ∀ depth,
      List.Forall₂ (Reads (ofDepth depth).constraints depth) (alternativesToJson alternatives)
        alternatives
  | [], _, _ => .nil
  | constraints :: rest, wellFormed, depth =>
      .cons (reads_constraints (constraintItems constraints wellFormed.1) depth)
        (alternativeItems rest wellFormed.2 depth)

theorem attributesRead : ∀ attributes : List (String × Attribute),
    attributesWellFormed Json.Integral attributes → ∀ depth,
      List.Forall₂ (fun json pair => json.1 = pair.1 ∧
        Reads (ofDepth depth).declared depth json.2 pair.2) (attributesToJson attributes) attributes
  | [], _, _ => .nil
  | (_, declared) :: rest, wellFormed, depth =>
      .cons ⟨rfl, declared.reads wellFormed.1 depth⟩ (attributesRead rest wellFormed.2 depth)

end

/-! Labels -/

theorem BlockType.reads (blockType : BlockType) (depth : Nat) :
    Reads (reader depth) depth blockType.toJson blockType := by
  cases blockType <;> exact .unitVariant rfl depth

theorem Label.reads (label : Label) (depth : Nat) :
    Reads (reader depth) depth label.toJson label := by
  refine Reads.record _ _ ?_ ?_
  · rintro inner rfl
    refine .present rfl (by simp) ((Reads.string "a string" inner label.name).fmap _) ?_
    refine .slot "description" rfl (by simp) (Fills.optionallyText label.description rfl) ?_
    refine .present rfl (by simp) ((Reads.bool inner label.completable).fmap _) ?_
    exact .done
  · simp [labelFields, required, field]

theorem LabelKey.reads (key : LabelKey) (depth : Nat) :
    Reads (reader depth) depth key.toJson key := by
  refine Reads.record _ [some _, some _] ?_ ?_
  · rintro inner rfl
    refine .present rfl (by simp) ((Reads.unsigned "usize" inner key.index).fmap _) ?_
    refine .present rfl (by simp) ((Reads.string "a string" inner key.value).fmap _) ?_
    exact .done
  · simp [labelKeyFields, required]

theorem keysReader_reads (keys : List LabelKey) (depth : Nat) :
    Reads (keysReader depth) depth (.object [("labels", .array (keys.map LabelKey.toJson))])
      keys := by
  refine Reads.record _ [some _] ?_ ?_
  · rintro inner rfl
    have items : Reads (Reader.list inner (LabelKey.reader (inner - 1))) inner
        (.array (keys.map LabelKey.toJson)) keys := by
      refine .list ?_
      rintro innermost rfl
      exact List.forall₂_map_left_iff.mpr (List.forall₂_same.mpr fun key _ => key.reads innermost)
    exact .present rfl (by simp) (items.fmap _) .done
  · simp [field]

/-! Bodies and blocks -/

namespace BodyReaders

theorem attributes_ofDepth (depth : Nat) :
    (ofDepth depth).attributes = AttributeReaders.ofDepth depth :=
  congrArg (AttributeReaders.atDepth depth) (project_below attributes rfl (fun _ _ => rfl) depth)

theorem reads_attributes {attributes : List (String × Attribute)}
    (distinct : OrderedMap.Distinct attributes)
    (wellFormed : attributesWellFormed Json.Integral attributes) (depth : Nat) :
    Reads (ofDepth depth).attributes.attributes depth (.object (attributesToJson attributes))
      attributes := by
  rw [attributes_ofDepth, AttributeReaders.ofDepth]
  refine .map distinct ?_
  rintro inner rfl
  exact attributesRead attributes wellFormed inner

theorem reads_labels (labels : List Label) (depth : Nat) :
    Reads (ofDepth depth).labels depth (.array (labels.map Label.toJson)) labels := by
  rw [ofDepth]
  refine .list ?_
  rintro inner rfl
  exact List.forall₂_map_left_iff.mpr (List.forall₂_same.mpr fun given _ => given.reads inner)

theorem reads_blocks {blocks : List (String × Block)} (distinct : OrderedMap.Distinct blocks)
    (reads : ∀ inner, List.Forall₂ (fun json pair => json.1 = pair.1 ∧
      Reads (ofDepth inner).block inner json.2 pair.2) (blocksToJson blocks) blocks)
    (depth : Nat) :
    Reads (ofDepth depth).blocks depth (.object (blocksToJson blocks)) blocks := by
  rw [ofDepth]
  refine .map distinct ?_
  rintro inner rfl
  exact reads inner

theorem reads_dependents {dependents : List DependentBody}
    (reads : ∀ inner, List.Forall₂ (Reads (ofDepth inner).dependent inner)
      (dependentsToJson dependents) dependents) (depth : Nat) :
    Reads (ofDepth depth).dependents depth (.array (dependentsToJson dependents)) dependents := by
  rw [ofDepth]
  refine .list ?_
  rintro inner rfl
  exact reads inner

end BodyReaders

open BodyReaders in
mutual

theorem Body.reads : ∀ body : Body, body.WellFormed Json.Integral → ∀ depth,
    Reads (ofDepth depth).body depth body.toJson body
  | ⟨description, attributes, blocks, anyAttribute⟩, wellFormed, depth => by
      obtain ⟨distinctAttributes, attributesOk, distinctBlocks, blocksOk, catchAllOk⟩ := wellFormed
      have blocksRead := reads_blocks distinctBlocks (blockMembers blocks blocksOk)
      rw [BodyReaders.ofDepth]
      refine Reads.record _ _ ?_ ?_
      · rintro inner rfl
        refine .slot "description" rfl (by simp) (Fills.optionallyText description rfl) ?_
        refine .slot "attributes" rfl (by simp) (Fills.orDefault _ ?_
          (reads_attributes distinctAttributes attributesOk inner)) ?_
        · cases attributes <;> simp [attributesToJson]
        refine .slot "blocks" rfl (by simp) (Fills.orDefault _ ?_ (blocksRead inner)) ?_
        · cases blocks <;> simp [blocksToJson]
        refine .slot "any_attribute" rfl (by simp) (Fills.optionally anyAttribute rfl ?_) .done
        intro declared present
        constructor
        · have read := declared.reads (catchAllOk declared present) inner
          rwa [← attributes_ofDepth] at read
        · cases declared
          exact nofun
      · simp [bodyFields, field]

theorem Block.reads : ∀ block : Block, block.WellFormed Json.Integral → ∀ depth,
    Reads (ofDepth depth).block depth block.toJson block
  | ⟨description, labels, blockType, minItems, maxItems, body, dependents⟩, wellFormed, depth => by
      have bodyRead := optionalBody body wellFormed.1
      have dependentsRead := reads_dependents (dependentItems dependents wellFormed.2)
      have bodyMember : optionalBodyToJson body = body.map fun given => ("body", given.toJson) := by
        cases body <;> rfl
      rw [BodyReaders.ofDepth]
      refine Reads.record _ _ ?_ ?_
      · rintro inner rfl
        refine .slot "description" rfl (by simp) (Fills.optionallyText description rfl) ?_
        refine .slot "labels" rfl (by simp) (Fills.orDefault _ ?_ (reads_labels labels inner)) ?_
        · cases labels <;> simp
        refine .present rfl (by simp) ((blockType.reads inner).fmap _) ?_
        refine .present rfl (by simp) ((Reads.unsigned "u64" inner minItems).fmap _) ?_
        refine .present rfl (by simp) ((Reads.unsigned "u64" inner maxItems).fmap _) ?_
        rw [bodyMember]
        refine .slot "body" rfl (by simp) (Fills.optionally body rfl (bodyRead inner)) ?_
        refine .slot "dependent_body" rfl (by simp) (Fills.orDefault _ ?_ (dependentsRead inner))
          .done
        cases dependents <;> simp [dependentsToJson]
      · simp [blockFields, field]

theorem optionalBody : ∀ body : Option Body, bodyWellFormed Json.Integral body → ∀ depth given,
    body = some given →
      Reads (ofDepth depth).body depth given.toJson given ∧ given.toJson ≠ .null
  | some body, wellFormed, depth, _, rfl => by
      refine ⟨body.reads wellFormed depth, ?_⟩
      cases body
      exact nofun

theorem blockMembers : ∀ blocks : List (String × Block), blocksWellFormed Json.Integral blocks →
    ∀ depth, List.Forall₂ (fun json pair => json.1 = pair.1 ∧
      Reads (ofDepth depth).block depth json.2 pair.2) (blocksToJson blocks) blocks
  | [], _, _ => .nil
  | (_, block) :: rest, wellFormed, depth =>
      .cons ⟨rfl, block.reads wellFormed.1 depth⟩ (blockMembers rest wellFormed.2 depth)

theorem dependentItems : ∀ dependents : List DependentBody,
    dependentsWellFormed Json.Integral dependents → ∀ depth,
      List.Forall₂ (Reads (ofDepth depth).dependent depth) (dependentsToJson dependents) dependents
  | [], _, _ => .nil
  | ⟨keys, body⟩ :: rest, wellFormed, depth => by
      refine .cons ?_ (dependentItems rest wellFormed.2 depth)
      have bodyRead := body.reads wellFormed.1
      rw [BodyReaders.ofDepth]
      refine Reads.record _ [some _, some _] ?_ ?_
      · rintro inner rfl
        refine .present rfl (by simp) ((keysReader_reads keys inner).fmap _) ?_
        exact .present rfl (by simp) ((bodyRead inner).fmap _) .done
      · simp [dependentFields, required]

end

end ConfigContract
