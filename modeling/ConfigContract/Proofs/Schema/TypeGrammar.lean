import ConfigContract.Proofs.Json.Recognised
import ConfigContract.Proofs.Schema.RoundTrip

/-!
The JSON values that are read as value types: those that are the form of one, or become it when
every array at the place of a value type is cut down to its first two items.
-/

namespace ConfigContract

open Text

/-! JSON values at the place of a value type -/

mutual

def Json.DistinctKeys : Json → Prop
  | .array items => itemsDistinctKeys items
  | .object members => OrderedMap.Distinct members ∧ membersDistinctKeys members
  | _ => True

def itemsDistinctKeys : List Json → Prop
  | [] => True
  | item :: rest => item.DistinctKeys ∧ itemsDistinctKeys rest

def membersDistinctKeys : List (String × Json) → Prop
  | [] => True
  | (_, value) :: rest => value.DistinctKeys ∧ membersDistinctKeys rest

end

theorem itemsDistinctKeys_iff (items : List Json) :
    itemsDistinctKeys items ↔ ∀ item ∈ items, item.DistinctKeys := by
  induction items with
  | nil => simp [itemsDistinctKeys]
  | cons item rest ih => simp [itemsDistinctKeys, ih]

theorem membersDistinctKeys_iff (members : List (String × Json)) :
    membersDistinctKeys members ↔ ∀ member ∈ members, member.2.DistinctKeys := by
  induction members with
  | nil => simp [membersDistinctKeys]
  | cons member rest ih => simp [membersDistinctKeys, ih]

/-- Where value types stand in a JSON value. -/
inductive TypePlaces where
  | itself
  | members
  | items
  | nowhere

def TypePlaces.ofKind : String → TypePlaces
  | "list" | "set" | "map" => .itself
  | "object" => .members
  | "tuple" => .items
  | _ => .nowhere

mutual

/-- The value with every array at the place of a value type cut down to its first two items. -/
def TypePlaces.trim : TypePlaces → Json → Json
  | .itself, .array (.string kind :: payload :: _) =>
      .array [.string kind, (TypePlaces.ofKind kind).trim payload]
  | .itself, .array items => .array (items.take 2)
  | .members, .object members => .object (membersTrimmed members)
  | .items, .array items => .array (itemsTrimmed items)
  | _, json => json

def itemsTrimmed : List Json → List Json
  | [] => []
  | item :: rest => TypePlaces.itself.trim item :: itemsTrimmed rest

def membersTrimmed : List (String × Json) → List (String × Json)
  | [] => []
  | (key, value) :: rest => (key, TypePlaces.itself.trim value) :: membersTrimmed rest

end

def Json.trimmed (json : Json) : Json := TypePlaces.itself.trim json

theorem itemsTrimmed_eq_iff {items : List Json} {types : List ValueType} :
    itemsTrimmed items = valueTypesToJson types ↔
      List.Forall₂ (fun item type => item.trimmed = type.toJson) items types := by
  induction items generalizing types with
  | nil => cases types <;> simp [itemsTrimmed, valueTypesToJson]
  | cons item rest ih => cases types <;> simp [itemsTrimmed, valueTypesToJson, ih, Json.trimmed]

theorem membersTrimmed_eq_iff {members : List (String × Json)}
    {fields : List (String × ValueType)} :
    membersTrimmed members = valueTypeFieldsToJson fields ↔
      OrderedMap.Pointwise (fun _ value type => value.trimmed = type.toJson) members fields := by
  induction members generalizing fields with
  | nil => cases fields <;> simp [membersTrimmed, valueTypeFieldsToJson, OrderedMap.Pointwise]
  | cons member rest ih =>
      cases fields with
      | nil => simp [membersTrimmed, valueTypeFieldsToJson, OrderedMap.Pointwise]
      | cons field fields =>
          rw [membersTrimmed, valueTypeFieldsToJson, List.cons.injEq, Prod.mk.injEq, ih,
            OrderedMap.Pointwise, List.forall₂_cons]
          rfl

theorem trimmed_pair (kind : String) (payload : Json) (further : List Json) :
    (Json.array (.string kind :: payload :: further)).trimmed =
      .array [.string kind, (TypePlaces.ofKind kind).trim payload] := rfl

theorem trim_members_eq_iff {payload : Json} {fields : List (String × ValueType)} :
    TypePlaces.members.trim payload = .object (valueTypeFieldsToJson fields) ↔
      ∃ members, payload = .object members ∧
        OrderedMap.Pointwise (fun _ value type => value.trimmed = type.toJson) members fields := by
  cases payload <;> simp [TypePlaces.trim, membersTrimmed_eq_iff]

theorem trim_items_eq_iff {payload : Json} {types : List ValueType} :
    TypePlaces.items.trim payload = .array (valueTypesToJson types) ↔
      ∃ items, payload = .array items ∧
        List.Forall₂ (fun item type => item.trimmed = type.toJson) items types := by
  cases payload <;> simp [TypePlaces.trim, itemsTrimmed_eq_iff]

theorem exists_kind {first : Json} {later : List Json} {type : ValueType}
    (encodes : (Json.array (first :: later)).trimmed = type.toJson) :
    ∃ kind, first = .string kind := by
  cases first with
  | string kind => exact ⟨kind, rfl⟩
  | _ => cases type <;> simp [Json.trimmed, TypePlaces.trim, ValueType.toJson] at encodes

theorem exists_payload {first : Json} {later : List Json} {type : ValueType}
    (encodes : (Json.array (first :: later)).trimmed = type.toJson) :
    ∃ payload further, later = payload :: further := by
  cases later with
  | nil =>
      cases type <;> cases first <;>
        simp [Json.trimmed, TypePlaces.trim, ValueType.toJson] at encodes
  | cons payload further => exact ⟨payload, further, rfl⟩

/-! Reading value types -/

open Reader

namespace ValueTypeReaders

variable {depth : Nat}

def RecognisesTypes (depth : Nat) : Prop :=
  ∀ json : Json, json.DistinctKeys →
    Recognises (ofDepth depth).type depth json fun type => json.trimmed = type.toJson

theorem recognises_elements (below : ∀ inner, depth = inner + 1 → RecognisesTypes inner)
    {payload : Json} (distinct : payload.DistinctKeys) :
    Recognises (ofDepth depth).types depth payload fun types =>
      ∃ items, payload = .array items ∧
        List.Forall₂ (fun item type => item.trimmed = ValueType.toJson type) items types := by
  rw [ofDepth]
  refine .list fun inner within items same item listed => ?_
  subst within same
  exact below inner rfl item ((itemsDistinctKeys_iff items).mp distinct item listed)

theorem recognises_fields (below : ∀ inner, depth = inner + 1 → RecognisesTypes inner)
    {payload : Json} (distinct : payload.DistinctKeys) :
    Recognises (ofDepth depth).fields depth payload fun fields =>
      ∃ members, payload = .object members ∧
        OrderedMap.Pointwise (fun _ value type => value.trimmed = ValueType.toJson type)
          members fields := by
  rw [ofDepth]
  refine .map (fun members same => ?_) fun inner within members same member listed => ?_
  · subst same
    exact distinct.1
  · subst within same
    exact below inner rfl member.2 ((membersDistinctKeys_iff members).mp distinct.2 member listed)

/-- The second item of a pair is read by the reader for its kind. -/
theorem recognises_payload (types : RecognisesTypes depth)
    (below : ∀ inner, depth = inner + 1 → RecognisesTypes inner) {kind : String}
    {reader : Reader ValueType} (known : (ofDepth depth).element kind = some reader)
    {payload : Json} (distinct : payload.DistinctKeys) :
    Recognises reader depth payload fun type =>
      (Json.array [.string kind, payload]).trimmed = type.toJson := by
  unfold element at known
  rw [trimmed_pair]
  split at known
  case h_1 | h_2 | h_3 =>
    cases known
    refine ((types payload distinct).fmap _).congr fun type => ?_
    cases type <;> simp [ValueType.toJson, TypePlaces.ofKind, Json.trimmed]
  case h_4 =>
    cases known
    refine ((recognises_fields below distinct).fmap _).congr fun type => ?_
    cases type <;> simp [ValueType.toJson, TypePlaces.ofKind, trim_members_eq_iff]
  case h_5 =>
    cases known
    refine ((recognises_elements below distinct).fmap _).congr fun type => ?_
    cases type <;> simp [ValueType.toJson, TypePlaces.ofKind, trim_items_eq_iff]
  case h_6 => cases known

theorem exists_element (readers : ValueTypeReaders) {kind : String} {payload : Json}
    {further : List Json} {type : ValueType}
    (encodes : (Json.array (.string kind :: payload :: further)).trimmed = type.toJson) :
    ∃ reader, readers.element kind = some reader := by
  rw [trimmed_pair] at encodes
  cases type <;> simp only [ValueType.toJson, Json.array.injEq, List.cons.injEq, Json.string.injEq,
    reduceCtorEq] at encodes
  all_goals
    obtain ⟨rfl, -⟩ := encodes
    exact ⟨_, rfl⟩

variable {layout : Layout}

theorem exists_passed (plain : layout.Plain) (level : Nat) {close : List Char}
    (spaces : Spaces close) (rest : Text) {further : List Json} {steps : Text}
    (enough : further.length < steps.length) :
    ∃ passed, items skip steps 2 (ofChars (Json.itemsText layout level false further) ++
      (ofChars close ++ .char ']' :: rest)) = .ok (passed, .char ']' :: rest) := by
  have passed := items_exactly plain level spaces rest
    (fun json _ => Recognises.skip (Json.itemsDepth further) json) Nat.le.refl steps 2 enough
  have all : List.Forall₂ (fun _ _ => True) further (further.map fun _ => ()) :=
    List.forall₂_map_right_iff.mpr (List.forall₂_same.mpr fun _ _ => trivial)
  exact ⟨_, (passed _ _).mpr ⟨all, rfl⟩⟩

theorem payload_exactly (upTo : ∀ lesser ≤ depth, RecognisesTypes lesser) (plain : layout.Plain)
    (level : Nat) {close : List Char} (spaces : Spaces close) (rest : Text) {kind : String}
    {reader : Reader ValueType} (known : (ofDepth depth).element kind = some reader)
    {payload : Json} (distinct : payload.DistinctKeys) (fits : payload.depth ≤ depth)
    {further : List Json} {steps : Text} (enough : further.length < steps.length) :
    Exactly ((do
        let type ← within (.index 1) reader
        discard (items skip steps 2)
        closeArray
        return type : Reader ValueType) (ofChars (payload.write layout level) ++
      (ofChars (Json.itemsText layout level false further) ++
        (ofChars close ++ .char ']' :: rest))))
      (fun type => (Json.array (.string kind :: payload :: further)).trimmed = type.toJson)
      rest := by
  have read := ((recognises_payload (upTo depth Nat.le.refl)
    (fun inner within => upTo inner (by omega)) known distinct).within (.index 1)).exactly plain
      level .nil (Token.stops_items layout level further spaces rest) fits
  rw [ofChars_nil, List.nil_append, Json.writeItems_eq] at read
  obtain ⟨units, passed⟩ := exists_passed plain level spaces rest enough
  have closed (type : ValueType) : Exactly
      ((discard (items skip steps 2) >>= fun _ => closeArray >>= fun _ => pure type :
        Reader ValueType) (ofChars (Json.itemsText layout level false further) ++
          (ofChars close ++ .char ']' :: rest))) (fun given => given = type) rest :=
    .of_ok (by simp only [bind_apply, discard_apply, passed, map_ok, ok_bind, closeArray_apply,
      pure_apply])
  refine (read.bind fun type _ => closed type).congr fun type => ?_
  rw [trimmed_pair, trimmed_pair]
  simp

theorem pair_exactly (smaller : ∀ inner < depth, RecognisesTypes inner)
    (plain : layout.Plain) (level : Nat) {close : List Char} (spaces : Spaces close) (rest : Text)
    {jsons : List Json} (distinct : (Json.array jsons).DistinctKeys)
    (fits : (Json.array jsons).depth ≤ depth) :
    Exactly (pair depth (below atDepth depth)
      (ofChars (Json.itemsText layout level true jsons) ++ (ofChars close ++ .char ']' :: rest)))
      (fun type => (Json.array jsons).trimmed = ValueType.toJson type) rest := by
  rw [Json.depth] at fits
  obtain ⟨inner, rfl⟩ : ∃ inner, depth = inner + 1 := ⟨depth - 1, by omega⟩
  cases jsons with
  | nil =>
      have failed : pair (inner + 1) (below atDepth (inner + 1)) (ofChars close ++ .char ']' :: rest) =
          .error (.here (.invalidLength 0 expected)) := by
        simp [pair, enter, bind_apply, nextItem_end spaces, fail]
      refine (Exactly.of_error failed).congr fun type => ?_
      cases type <;> simp [Json.trimmed, TypePlaces.trim, ValueType.toJson]
  | cons first later =>
      have length := Json.length_itemsText layout level true (first :: later)
      rw [Json.itemsDepth, Nat.add_comm, Nat.add_le_add_iff_right, Nat.max_le] at fits
      have kindRead := ((Recognises.string "a string" inner first).within (.index 0)).exactly plain
        level .nil (Token.stops_items layout level later spaces rest) fits.1
      rw [ofChars_nil, List.nil_append, Json.writeItems_eq] at kindRead
      have opened := nextItem_item true plain level first
        (ofChars (Json.itemsText layout level false later) ++ (ofChars close ++ .char ']' :: rest))
      rw [pair]
      generalize whole : ofChars (Json.itemsText layout level true (first :: later)) ++
        (ofChars close ++ .char ']' :: rest) = text
      have bound := congrArg List.length whole
      rw [Json.itemsText, Json.writeItems_eq] at whole
      simp only [ofChars_append, List.append_assoc] at whole
      rw [whole] at opened
      simp only [bind_apply, enter, opened, ok_bind, ↓reduceIte, Nat.add_one_ne_zero]
      refine kindRead.andThen (fun type => exists_kind) ?_
      rintro kind rfl
      cases known : (ofDepth inner).element kind with
      | none =>
          simp only [below_succ, known]
          refine (Exactly.of_error rfl).congr fun type => iff_of_false id fun encodes => ?_
          obtain ⟨payload, further, rfl⟩ := exists_payload encodes
          obtain ⟨reader, found⟩ := exists_element (ofDepth inner) encodes
          rw [known] at found
          cases found
      | some reader =>
          simp only [below_succ, known, bind_apply (nextItem false)]
          cases later with
          | nil =>
              rw [Json.itemsText, ofChars_nil, List.nil_append, nextItem_end spaces, ok_bind]
              refine (Exactly.of_error rfl).congr fun type => iff_of_false id fun encodes => ?_
              obtain ⟨payload, further, same⟩ := exists_payload encodes
              cases same
          | cons payload further =>
              rw [Json.itemsDepth, Nat.max_le] at fits
              have enough : further.length < (stepsFor text).length := by
                rw [stepsFor, List.length_cons, ← bound]
                simp only [List.length_cons] at length
                simp only [List.length_append, length_ofChars]
                omega
              have next := nextItem_item false plain level payload
                (ofChars (Json.itemsText layout level false further) ++
                  (ofChars close ++ .char ']' :: rest))
              rw [Json.itemsText, Json.writeItems_eq]
              simp only [ofChars_append, List.append_assoc, next, ok_bind, ↓reduceIte]
              exact payload_exactly (fun lesser small => smaller lesser (by omega)) plain level
                spaces rest known distinct.2.1 fits.2.1 enough

theorem get?_primitives {name : String} {type : ValueType} :
    OrderedMap.get? name primitives = some type ↔ (Json.string name).trimmed = type.toJson := by
  constructor
  · intro known
    have listed := OrderedMap.mem_of_get? known
    simp only [primitives, List.mem_cons, Prod.mk.injEq, List.not_mem_nil, or_false] at listed
    rcases listed with ⟨rfl, rfl⟩ | ⟨rfl, rfl⟩ | ⟨rfl, rfl⟩ | ⟨rfl, rfl⟩ <;> rfl
  · intro encodes
    cases type <;> simp only [Json.trimmed, TypePlaces.trim, ValueType.toJson, Json.string.injEq,
      reduceCtorEq] at encodes
    all_goals
      subst encodes
      rfl

theorem named_exactly (name : String) (rest : Text) :
    Exactly (named name rest) (fun type => (Json.string name).trimmed = type.toJson) rest := by
  cases known : OrderedMap.get? name primitives with
  | none =>
      have failed : named name rest =
          .error (.here (.unknownVariant name (OrderedMap.keys primitives))) := by
        simp [named, known, fail]
      refine (Exactly.of_error failed).congr fun type => ?_
      rw [← get?_primitives, known]
      simp
  | some primitive =>
      have read : named name rest = .ok (primitive, rest) := by simp [named, known, pure_apply]
      refine (Exactly.of_ok read).congr fun type => ?_
      rw [← get?_primitives, known, Option.some.injEq, eq_comm]

theorem recognises_type (depth : Nat) : RecognisesTypes depth := by
  induction depth using Nat.strongRecOn with
  | ind depth smaller =>
      intro json distinct
      rw [ofDepth]
      cases json with
      | string name =>
          refine .of_start fun _ _ rest _ _ => ?_
          have read := Token.string_writeString name rest
          simp only [ofChars_append, ofChars_cons, ofChars_nil, List.append_assoc, List.cons_append,
            List.nil_append] at read
          have named := named_exactly name rest
          simpa [Json.write, Json.writeString, bind_apply, ofToken, read] using named
      | array items =>
          refine .of_start fun {layout} plain level rest _ fits => ?_
          obtain ⟨close, spaces, written⟩ := Json.write_array plain level items
          rw [written]
          simp only [ofChars_append, ofChars_cons, ofChars_nil, List.append_assoc, List.cons_append,
            List.nil_append]
          exact pair_exactly smaller plain (level + 1) spaces rest distinct fits
      | object members =>
          refine .of_refused (fun type => ?_) fun c opens rest => ?_
          · cases type <;> simp [Json.trimmed, TypePlaces.trim, ValueType.toJson]
          · cases opens
            cases depth <;> exact ⟨_, rfl⟩
      | _ =>
          refine .of_refused (fun type => ?_) fun c opens rest => ?_
          · cases type <;> simp [Json.trimmed, TypePlaces.trim, ValueType.toJson]
          · have notQuote : c ≠ '"' := by
              rintro rfl
              obtain ⟨s, same⟩ := opens.of_quote
              cases same
            have notBracket : c ≠ '[' := by
              rintro rfl
              obtain ⟨items, same⟩ := opens.of_bracket
              cases same
            have notBrace : c ≠ '{' := by
              rintro rfl
              obtain ⟨members, same⟩ := opens.of_brace
              cases same
            simp [notQuote, notBracket, notBrace, unexpected]

end ValueTypeReaders

/-! The form of a value type -/

mutual

theorem ValueType.trimmed_toJson : ∀ type : ValueType, type.toJson.trimmed = type.toJson
  | .dynamic | .string | .number | .bool => rfl
  | .list element | .set element | .map element => by
      have inner := element.trimmed_toJson
      rw [Json.trimmed] at inner
      simp [ValueType.toJson, trimmed_pair, TypePlaces.ofKind, inner]
  | .object fields => by
      simp [ValueType.toJson, trimmed_pair, TypePlaces.ofKind, TypePlaces.trim,
        fieldsTrimmed fields]
  | .tuple elements => by
      simp [ValueType.toJson, trimmed_pair, TypePlaces.ofKind, TypePlaces.trim,
        elementsTrimmed elements]

theorem fieldsTrimmed : ∀ fields : List (String × ValueType),
    membersTrimmed (valueTypeFieldsToJson fields) = valueTypeFieldsToJson fields
  | [] => rfl
  | (key, type) :: rest => by
      have first := type.trimmed_toJson
      rw [valueTypeFieldsToJson, membersTrimmed, fieldsTrimmed rest]
      exact congrArg (fun json => (key, json) :: _) first

theorem elementsTrimmed : ∀ elements : List ValueType,
    itemsTrimmed (valueTypesToJson elements) = valueTypesToJson elements
  | [] => rfl
  | type :: rest => by
      have first := type.trimmed_toJson
      rw [valueTypesToJson, itemsTrimmed, elementsTrimmed rest]
      exact congrArg (· :: _) first

end

theorem keys_valueTypeFieldsToJson (fields : List (String × ValueType)) :
    OrderedMap.keys (valueTypeFieldsToJson fields) = OrderedMap.keys fields := by
  induction fields with
  | nil => rfl
  | cons field rest ih =>
      obtain ⟨key, type⟩ := field
      rw [valueTypeFieldsToJson, OrderedMap.keys_cons, OrderedMap.keys_cons, ih]

mutual

theorem ValueType.WellFormed.distinctKeys :
    ∀ {type : ValueType}, type.WellFormed → type.toJson.DistinctKeys
  | .dynamic, _ | .string, _ | .number, _ | .bool, _ => trivial
  | .list _, wellFormed | .set _, wellFormed | .map _, wellFormed =>
      ⟨trivial, ValueType.WellFormed.distinctKeys wellFormed, trivial⟩
  | .object fields, wellFormed =>
      ⟨trivial, ⟨wellFormed.1.of_keys (keys_valueTypeFieldsToJson fields),
        fieldsDistinctKeys fields wellFormed.2⟩, trivial⟩
  | .tuple elements, wellFormed =>
      ⟨trivial, elementsDistinctKeys elements wellFormed, trivial⟩

theorem fieldsDistinctKeys : ∀ fields : List (String × ValueType), fieldsWellFormed fields →
    membersDistinctKeys (valueTypeFieldsToJson fields)
  | [], _ => trivial
  | (_, _) :: rest, wellFormed =>
      ⟨wellFormed.1.distinctKeys, fieldsDistinctKeys rest wellFormed.2⟩

theorem elementsDistinctKeys : ∀ elements : List ValueType, elementsWellFormed elements →
    itemsDistinctKeys (valueTypesToJson elements)
  | [], _ => trivial
  | _ :: rest, wellFormed => ⟨wellFormed.1.distinctKeys, elementsDistinctKeys rest wellFormed.2⟩

end

namespace Schema

theorem readValueType_iff {layout : Layout} (plain : layout.Plain) {json : Json}
    (distinct : json.DistinctKeys) (fits : json.depth ≤ greatestDepth) (type : ValueType) :
    readValueType (Text.ofString (json.render layout)) = .ok type ↔
      json.trimmed = type.toJson := by
  have nothing : Token.Stops [] := trivial
  have exactly := (ValueTypeReaders.recognises_type greatestDepth json distinct).exactly plain 0
    .nil nothing fits
  have text : Text.ofString (json.render layout) = ofChars (json.write layout 0) := by
    simp [Json.render, Text.ofString, ofChars]
  rw [ofChars_nil, List.nil_append, List.append_nil, ← text] at exactly
  rw [readValueType, run, map_eq_ok]
  constructor
  · rintro ⟨⟨given, left⟩, read, rfl⟩
    exact ((exactly given left).mp read).1
  · intro encodes
    exact ⟨(type, []), (exactly type []).mpr ⟨encodes, rfl⟩, rfl⟩

/-- A printed JSON value (of objects that name each key once) that is not too deep is read as a
value type exactly when, its arrays at the places of value types cut down to two items, it is the
form of that type. So the form of a type is read as the type, and a type that was read has the form
it was read from, but for such items. -/
theorem value_types_read_exactly (layout : Layout) (plain : layout.Plain) :
    (∀ json : Json, json.DistinctKeys → json.depth ≤ greatestDepth → ∀ type : ValueType,
      readValueType (Text.ofString (json.render layout)) = .ok type ↔
        json.trimmed = type.toJson) ∧
    ∀ type : ValueType, type.WellFormed → type.toJson.depth ≤ greatestDepth →
      readValueType (Text.ofString (type.toJson.render layout)) = .ok type := by
  refine ⟨fun json distinct fits => readValueType_iff plain distinct fits,
    fun type wellFormed fits => ?_⟩
  exact (readValueType_iff plain wellFormed.distinctKeys fits type).mpr type.trimmed_toJson

def looseObject : Json :=
  .array [.string "object",
    .object [("a", .array [.string "list", .string "string", .number (.float ⟨false, 3, -1⟩)]),
      ("b", .string "bool")],
    .array [.string "b"]]

theorem looseObject_read :
    readValueType (Text.ofString (looseObject.render .compact)) =
      .ok (.object [("a", .list .string), ("b", .bool)]) ∧
    (∀ type, readValueType (Text.ofString ((Json.array [.string "list"]).render .pretty)) ≠
      .ok type) ∧
    readValueType (Text.ofString ((ValueType.tuple [.dynamic, .set .number]).toJson.render
      .pretty)) = .ok (.tuple [.dynamic, .set .number]) := by
  have compact := value_types_read_exactly .compact Layout.plain_compact
  have pretty := value_types_read_exactly .pretty Layout.plain_pretty
  have distinct : looseObject.DistinctKeys := by
    simp [looseObject, Json.DistinctKeys, itemsDistinctKeys, membersDistinctKeys,
      OrderedMap.Distinct, OrderedMap.keys]
  refine ⟨(compact.1 looseObject distinct (by decide) _).mpr rfl, fun type => ?_,
    pretty.2 _ ⟨trivial, trivial, trivial⟩ (by decide)⟩
  have short := pretty.1 (Json.array [.string "list"]) ⟨trivial, trivial⟩ (by decide) type
  rw [ne_eq, short]
  cases type <;> simp [Json.trimmed, TypePlaces.trim, ValueType.toJson]

end Schema

end ConfigContract
