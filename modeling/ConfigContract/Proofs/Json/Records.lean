import ConfigContract.Proofs.Json.Containers
import ConfigContract.Schema.Encoding

/-!
Readers of printed records and of printed alternatives.
-/

namespace ConfigContract

open Text

namespace Reader

variable {α β : Type}

/-! Records -/

/-- Members that the fields of a record read one after another, from one record to another. `seen`
holds the keys before them. -/
inductive Fills (fields : List (RecordField α)) (depth : Nat) :
    List String → List (Option (String × Json)) → α → α → Prop
  | done {seen : List String} {record : α} : Fills fields depth seen [] record record
  | absent {seen : List String} {rest : List (Option (String × Json))} {record final : α}
      (others : Fills fields depth seen rest record final) :
      Fills fields depth seen (none :: rest) record final
  | present {seen : List String} {key : String} {json : Json}
      {rest : List (Option (String × Json))} {field : RecordField α} {record next final : α}
      (known : fields.find? (·.name == key) = some field) (fresh : key ∉ seen)
      (reads : Reads (field.read record) depth json next)
      (others : Fills fields depth (key :: seen) rest next final) :
      Fills fields depth seen (some (key, json) :: rest) record final

theorem Fills.weaken {fields : List (RecordField α)} {depth : Nat} {seen fewer : List String}
    {members : List (Option (String × Json))} {record final : α}
    (fills : Fills fields depth seen members record final) (subset : fewer ⊆ seen) :
    Fills fields depth fewer members record final := by
  induction fills generalizing fewer with
  | done => exact .done
  | absent _ ih => exact .absent (ih subset)
  | present known fresh reads _ ih =>
      exact .present known (fun member => fresh (subset member)) reads
        (ih (List.cons_subset_cons _ subset))

theorem Fills.slot {fields : List (RecordField α)} {depth : Nat} {seen : List String}
    {member : Option (String × Json)} {rest : List (Option (String × Json))}
    {field : RecordField α} {record next final : α} (key : String)
    (known : fields.find? (·.name == key) = some field) (fresh : key ∉ seen)
    (either : (member = none ∧ next = record) ∨
      ∃ json, member = some (key, json) ∧ Reads (field.read record) depth json next)
    (others : Fills fields depth (key :: seen) rest next final) :
    Fills fields depth seen (member :: rest) record final := by
  rcases either with ⟨rfl, rfl⟩ | ⟨json, rfl, reads⟩
  · exact .absent (others.weaken (List.subset_cons_self _ _))
  · exact .present known fresh reads others

theorem members_guarded {fields : List (RecordField α)} {depth : Nat} {seen : List String}
    {slots : List (Option (String × Json))} {record final : α}
    (fills : Fills fields depth seen slots record final) {layout : Layout} (plain : layout.Plain)
    (level : Nat) {close : List Char} (spaces : Spaces close) (rest : Text) (steps : Text)
    (first : Bool) (enough : (slots.filterMap id).length < steps.length) :
    Guarded (Json.membersDepth (slots.filterMap id) ≤ depth)
      (members fields steps first seen record
        (ofChars (Json.membersText layout level first (slots.filterMap id)) ++
          (ofChars close ++ .char '}' :: rest)))
      (((OrderedMap.keys (slots.filterMap id)).reverse ++ seen, final), .char '}' :: rest) := by
  induction fills generalizing steps first with
  | done =>
      obtain ⟨step, steps, rfl⟩ := List.exists_cons_of_length_pos enough
      refine .of_ok (Nat.zero_le depth) ?_
      simp [members, Json.membersText, bind_apply, nextKey_end spaces, pure_apply]
  | absent _ ih => exact ih steps first enough
  | @present seen key json slots field record next final known fresh here others ih =>
      obtain ⟨step, steps, rfl⟩ := List.exists_cons_of_length_pos (Nat.zero_lt_of_lt enough)
      obtain ⟨gap, colon, gapSpaces⟩ := plain.colon
      have later := ih steps false (by simpa using enough)
      have read := (here.within (.key key)).guarded plain level gapSpaces
        (Token.stops_members layout level (slots.filterMap id) spaces rest)
      rw [Json.writeMembers_eq] at read
      have kept :
          (some (key, json) :: slots).filterMap id = (key, json) :: slots.filterMap id := rfl
      have seenKeys : (OrderedMap.keys ((key, json) :: slots.filterMap id)).reverse ++ seen =
          (OrderedMap.keys (slots.filterMap id)).reverse ++ key :: seen := by simp
      rw [kept, seenKeys, Json.membersText, colon, Json.writeMembers_eq]
      simp only [ofChars_append, List.append_assoc, members, bind_apply,
        nextKey_key (plain.newline level), colon_apply, ok_bind, known, fresh, ↓reduceIte]
      refine (read.bind later).congr ?_
      rw [Json.membersDepth, Nat.max_le]

theorem Reads.record (expected : String) (slots : List (Option (String × Json)))
    {fields : List (RecordField α)} {depth : Nat} {initial final : α}
    (fills : ∀ inner, depth = inner + 1 → Fills fields inner [] slots initial final)
    (complete : ∀ field ∈ fields, field.required = true →
      field.name ∈ OrderedMap.keys (slots.filterMap id)) :
    Reads (record expected depth fields initial) depth (.record slots) final :=
  .of_start fun {layout} plain level rest _ => by
    obtain ⟨close, spaces, written⟩ := Json.write_object plain level (slots.filterMap id)
    rw [Json.record, written]
    simp only [ofChars_append, ofChars_cons, ofChars_nil, List.append_assoc, List.cons_append,
      List.nil_append]
    rw [Json.depth]
    refine enter_guarded fun inner levelLeft => ?_
    have enough : (slots.filterMap id).length < (stepsFor
        (ofChars (Json.membersText layout (level + 1) true (slots.filterMap id)) ++
          (ofChars close ++ .char '}' :: rest))).length := by
      have bound := Json.length_membersText layout (level + 1) true (slots.filterMap id)
      simp only [stepsFor, List.length_cons, List.length_append, length_ofChars]
      omega
    have noneMissing : fields.find? (fun field => field.required &&
        !((OrderedMap.keys (slots.filterMap id)).reverse ++ []).contains field.name) = none := by
      rw [List.find?_eq_none]
      intro field member missing
      simp only [Bool.and_eq_true, Bool.not_eq_true', List.append_nil, List.contains_eq_mem,
        List.mem_reverse, decide_eq_false_iff_not] at missing
      exact missing.2 (complete field member missing.1)
    have inside := members_guarded (fills inner levelLeft) plain (level + 1) spaces rest _ true
      enough
    refine (inside.bind (.of_ok trivial ?_)).congr (and_iff_left trivial)
    simp only [noneMissing, bind_apply, closeObject_apply, ok_bind, pure_apply]

/-! Members that may be left out -/

namespace Fills

variable {depth : Nat} {record : α}

/-- A member that is left out where the value is the one that the record has anyway. -/
theorem orDefault {reader : Reader β} {set : α → β → α} {value : β} {json : Json}
    {key name : String} (isDefault : Bool) (absent : isDefault = true → set record value = record)
    (reads : Reads reader depth json value) :
    ((if isDefault then none else some (key, json)) = none ∧ set record value = record) ∨
      ∃ given, (if isDefault then none else some (key, json)) = some (key, given) ∧
        Reads ((field name reader set).read record) depth given (set record value) := by
  cases isDefault with
  | true => exact .inl ⟨rfl, absent rfl⟩
  | false => exact .inr ⟨json, rfl, reads.fmap (set record)⟩

theorem optionally {reader : Reader β} {set : α → Option β → α} {key name : String}
    {toJson : β → Json} (value : Option β) (absent : set record none = record)
    (reads : ∀ given, value = some given →
      Reads reader depth (toJson given) given ∧ toJson given ≠ .null) :
    (value.map (fun given => (key, toJson given)) = none ∧ set record value = record) ∨
      ∃ json, value.map (fun given => (key, toJson given)) = some (key, json) ∧
        Reads ((field name (optional reader) set).read record) depth json (set record value) := by
  cases value with
  | none => exact .inl ⟨rfl, absent⟩
  | some given =>
      obtain ⟨read, present⟩ := reads given rfl
      exact .inr ⟨toJson given, rfl, (read.optional present).fmap (set record)⟩

theorem optionallyText {set : α → Option String → α} {key name : String} (value : Option String)
    (absent : set record none = record) :
    (Encoding.optionalString key value = none ∧ set record value = record) ∨
      ∃ json, Encoding.optionalString key value = some (key, json) ∧
        Reads ((field name (optional text) set).read record) depth json (set record value) :=
  optionally value absent fun given _ => ⟨.string _ depth given, nofun⟩

end Fills

/-! Alternatives -/

theorem Reads.unitVariant {alternatives : List (Variant α)} {name : String} {value : α}
    (known : alternatives.find? (·.name == name) = some (.unit name value)) (depth : Nat) :
    Reads (variants depth alternatives) depth (.string name) value :=
  .of_start fun _ _ rest _ => by
    refine .of_ok (Nat.zero_le depth) ?_
    have read := Token.string_writeString name rest
    simp only [ofChars_append, ofChars_cons, ofChars_nil, List.append_assoc, List.cons_append,
      List.nil_append] at read
    simp [Json.write, Json.writeString, bind_apply, ofToken, read, findVariant, known,
      Reader.within, Variant.bare, Variant.unit, pure_apply]

theorem Reads.taggedVariant {alternatives : List (Variant α)} {name : String}
    {variant : Variant α} {depth : Nat} {json : Json} {value : α}
    (known : alternatives.find? (·.name == name) = some variant)
    (reads : ∀ inner, depth = inner + 1 → Reads variant.loaded inner json value) :
    Reads (variants depth alternatives) depth (Encoding.tagged name json) value :=
  .of_start fun {layout} plain level rest _ => by
    obtain ⟨close, spaces, written⟩ := Json.write_object plain level [(name, json)]
    obtain ⟨gap, colon, gapSpaces⟩ := plain.colon
    rw [Encoding.tagged, written, Json.membersText, Json.writeMembers, colon]
    have depths : (Json.object [(name, json)]).depth = 1 + json.depth := by
      simp [Json.depth, Json.membersDepth]
    simp only [ofChars_append, ofChars_cons, ofChars_nil, List.append_assoc, List.cons_append,
      List.nil_append]
    rw [depths]
    refine enter_guarded fun inner levelLeft => ?_
    have read := Token.string_writeString name
    have inside := ((reads inner levelLeft).within (.key name)).guarded plain (level + 1) gapSpaces
      (Token.stops_members layout (level + 1) [] spaces rest)
    simp only [ofChars_append, ofChars_cons, ofChars_nil, List.append_assoc, List.cons_append,
      List.nil_append, Json.writeMembers] at read inside
    have brace : Token.isSpace (.char '}') = false := rfl
    have closes : (variants.close : Reader Unit) (ofChars close ++ .char '}' :: rest) =
        .ok ((), rest) := by
      simp [variants.close, Token.skipSpace_spaces spaces, Token.skipSpace_of_visible brace]
    have quote : Token.isSpace (.char '"') = false := rfl
    have key (after : Text) : variantKey (ofChars (layout.newline (level + 1)) ++
        (ofChars (Json.writeString name) ++ after)) = .ok (name, after) := by
      simp [variantKey, Token.skipSpace_spaces (plain.newline (level + 1)), Json.writeString,
        Token.skipSpace_of_visible quote, ofToken, read]
    have passed (after : Text) : Reader.colon (.char ':' :: (ofChars gap ++ after)) =
        .ok ((), ofChars gap ++ after) := colon_apply after
    simp only [separator, ↓reduceIte, ofChars_nil, List.nil_append, bind_apply, key, passed,
      ok_bind, findVariant, known, pure_apply]
    refine (inside.bind (.of_ok trivial ?_)).congr (and_iff_left trivial)
    simp only [closes, ok_bind]

end Reader

end ConfigContract
