import ConfigContract.Proofs.Json.Reads
import ConfigContract.Proofs.OrderedMap
import Mathlib.Data.List.Forall2

/-!
Readers of printed arrays and objects: they take one level of the depth, and read what a container
holds one by one.
-/

namespace ConfigContract

open Text

/-! The inside of printed containers -/

def separator (first : Bool) : List Char := if first then [] else [',']

namespace Json

def itemsText (layout : Layout) (level : Nat) (first : Bool) : List Json → List Char
  | [] => []
  | item :: rest =>
      separator first ++ (layout.newline level ++ (write layout level item ++
        writeItems layout level rest))

def membersText (layout : Layout) (level : Nat) (first : Bool) : List (String × Json) → List Char
  | [] => []
  | (key, value) :: rest =>
      separator first ++ (layout.newline level ++ (writeString key ++ (layout.colon ++
        (write layout level value ++ writeMembers layout level rest))))

theorem writeItems_eq (layout : Layout) (level : Nat) (items : List Json) :
    writeItems layout level items = itemsText layout level false items := by
  cases items <;> rfl

theorem writeMembers_eq (layout : Layout) (level : Nat) (members : List (String × Json)) :
    writeMembers layout level members = membersText layout level false members := by
  cases members with
  | nil => rfl
  | cons member rest => rfl

theorem write_array {layout : Layout} (plain : layout.Plain) (level : Nat) (items : List Json) :
    ∃ close, Spaces close ∧ write layout level (.array items) =
      '[' :: (itemsText layout (level + 1) true items ++ (close ++ [']'])) := by
  cases items with
  | nil => exact ⟨[], .nil, rfl⟩
  | cons item rest =>
      exact ⟨layout.newline level, plain.newline level,
        by simp [write, itemsText, separator]⟩

theorem write_object {layout : Layout} (plain : layout.Plain) (level : Nat)
    (members : List (String × Json)) :
    ∃ close, Spaces close ∧ write layout level (.object members) =
      '{' :: (membersText layout (level + 1) true members ++ (close ++ ['}'])) := by
  cases members with
  | nil => exact ⟨[], .nil, rfl⟩
  | cons member rest =>
      exact ⟨layout.newline level, plain.newline level,
        by simp [write, membersText, separator]⟩

theorem length_itemsText (layout : Layout) (level : Nat) (first : Bool) (items : List Json) :
    items.length ≤ (itemsText layout level first items).length := by
  induction items generalizing first with
  | nil => simp
  | cons item rest ih =>
      have others := ih false
      obtain ⟨c, tail, written, -⟩ := item.fronted layout level
      rw [itemsText, writeItems_eq, written]
      simp only [List.length_append, List.length_cons]
      omega

theorem length_membersText (layout : Layout) (level : Nat) (first : Bool)
    (members : List (String × Json)) :
    members.length ≤ (membersText layout level first members).length := by
  induction members generalizing first with
  | nil => simp
  | cons member rest ih =>
      have others := ih false
      rw [membersText, writeMembers_eq, writeString]
      simp only [List.length_append, List.length_cons]
      omega

end Json

namespace Token

theorem stops_items (layout : Layout) (level : Nat) (items : List Json) {close : List Char}
    (spaces : Spaces close) (rest : Text) :
    Stops (ofChars (Json.writeItems layout level items) ++
      (ofChars close ++ .char ']' :: rest)) := by
  cases items with
  | nil => exact stops_spaces spaces ⟨rfl, by decide, by decide, by decide⟩
  | cons item rest => exact ⟨rfl, by decide, by decide, by decide⟩

theorem stops_members (layout : Layout) (level : Nat) (members : List (String × Json))
    {close : List Char} (spaces : Spaces close) (rest : Text) :
    Stops (ofChars (Json.writeMembers layout level members) ++
      (ofChars close ++ .char '}' :: rest)) := by
  cases members with
  | nil => exact stops_spaces spaces ⟨rfl, by decide, by decide, by decide⟩
  | cons member rest => exact ⟨rfl, by decide, by decide, by decide⟩

end Token

namespace Reader

variable {α β : Type}

theorem enter_guarded {depth inside : Nat} {next : Reader α} {text : Text} {result : α × Text}
    (guarded : ∀ inner, depth = inner + 1 → Guarded (inside ≤ inner) (next text) result) :
    Guarded (1 + inside ≤ depth) ((enter depth >>= fun _ => next) text) result := by
  cases depth with
  | zero => exact ⟨fun deep => by omega, fun _ => ⟨.here .recursionLimit, by rfl⟩⟩
  | succ inner =>
      refine (guarded inner rfl).congr ?_
      omega

/-! Arrays -/

theorem nextItem_item (first : Bool) {layout : Layout} (plain : layout.Plain) (level : Nat)
    (json : Json) (rest : Text) :
    nextItem first (ofChars (separator first) ++ (ofChars (layout.newline level) ++
      (ofChars (json.write layout level) ++ rest))) =
      .ok (true, ofChars (json.write layout level) ++ rest) := by
  obtain ⟨c, tail, written, visible, notComma, notBracket, -⟩ := json.fronted layout level
  have spaces := plain.newline level
  rw [written]
  cases first with
  | true =>
      simp [separator, nextItem, Token.skipSpace_spaces spaces,
        Token.skipSpace_of_visible visible, notComma, notBracket]
  | false =>
      have comma : Token.isSpace (.char ',') = false := rfl
      simp [separator, nextItem, Token.skipSpace_spaces spaces,
        Token.skipSpace_of_visible visible, Token.skipSpace_of_visible comma, notBracket]

theorem nextItem_end {first : Bool} {close : List Char} (spaces : Spaces close) (rest : Text) :
    nextItem first (ofChars close ++ .char ']' :: rest) = .ok (false, .char ']' :: rest) := by
  have bracket : Token.isSpace (.char ']') = false := rfl
  simp [nextItem, Token.skipSpace_spaces spaces, Token.skipSpace_of_visible bracket]

theorem items_guarded {item : Reader α} {depth : Nat} {jsons : List Json} {values : List α}
    (reads : List.Forall₂ (Reads item depth) jsons values) {layout : Layout}
    (plain : layout.Plain) (level : Nat) {close : List Char} (spaces : Spaces close) (rest : Text)
    (steps : Text) (position : Nat) (enough : jsons.length < steps.length) :
    Guarded (Json.itemsDepth jsons ≤ depth)
      (items item steps position
        (ofChars (Json.itemsText layout level (position == 0) jsons) ++
          (ofChars close ++ .char ']' :: rest)))
      (values, .char ']' :: rest) := by
  induction reads generalizing steps position with
  | nil =>
      obtain ⟨step, steps, rfl⟩ := List.exists_cons_of_length_pos enough
      refine .of_ok (Nat.zero_le depth) ?_
      simp [items, Json.itemsText, bind_apply, nextItem_end spaces, pure_apply]
  | @cons json value jsons values first others ih =>
      obtain ⟨step, steps, rfl⟩ := List.exists_cons_of_length_pos (Nat.zero_lt_of_lt enough)
      have later := ih steps (position + 1) (by simpa using enough)
      have here := (first.within (.index position)).guarded plain level .nil
        (Token.stops_items layout level jsons spaces rest)
      rw [ofChars_nil, List.nil_append, Json.writeItems_eq] at here
      rw [Json.itemsText, Json.writeItems_eq]
      simp only [ofChars_append, List.append_assoc, items, bind_apply,
        nextItem_item _ plain level json, ok_bind, ↓reduceIte, pure_apply]
      refine (here.bind (later.map fun result => (value :: result.1, result.2))).congr ?_
      rw [Json.itemsDepth, Nat.max_le]

theorem closeArray_apply (rest : Text) : closeArray (.char ']' :: rest) = .ok ((), rest) := by
  have bracket : Token.isSpace (.char ']') = false := rfl
  simp [closeArray, Token.skipSpace_of_visible bracket]

theorem insideArray_guarded {item : Reader α} {depth : Nat} {jsons : List Json} {values : List α}
    (reads : ∀ inner, depth = inner + 1 → List.Forall₂ (Reads item inner) jsons values)
    {layout : Layout} (plain : layout.Plain) (level : Nat) {close : List Char}
    (spaces : Spaces close) (rest : Text) :
    Guarded ((Json.array jsons).depth ≤ depth)
      (insideArray depth item
        (ofChars (Json.itemsText layout level true jsons) ++ (ofChars close ++ .char ']' :: rest)))
      (values, rest) := by
  rw [Json.depth]
  refine enter_guarded fun inner levelLeft => ?_
  have enough : jsons.length < (stepsFor (ofChars (Json.itemsText layout level true jsons) ++
      (ofChars close ++ .char ']' :: rest))).length := by
    have bound := Json.length_itemsText layout level true jsons
    simp only [stepsFor, List.length_cons, List.length_append, length_ofChars]
    omega
  have inside := items_guarded (reads inner levelLeft) plain level spaces rest _ 0 enough
  refine (inside.bind (.of_ok trivial ?_)).congr (and_iff_left trivial)
  simp [bind_apply, closeArray_apply, pure_apply]

theorem Reads.list {item : Reader α} {depth : Nat} {jsons : List Json} {values : List α}
    (reads : ∀ inner, depth = inner + 1 → List.Forall₂ (Reads item inner) jsons values) :
    Reads (list depth item) depth (.array jsons) values :=
  .of_start fun {layout} plain level rest _ => by
    obtain ⟨close, spaces, written⟩ := Json.write_array plain level jsons
    rw [written]
    simp only [ofChars_append, ofChars_cons, ofChars_nil, List.append_assoc, List.cons_append,
      List.nil_append]
    exact insideArray_guarded reads plain (level + 1) spaces rest

/-! Objects -/

theorem nextKey_key {first : Bool} {lead : List Char} (spaces : Spaces lead) (key : String)
    (rest : Text) :
    nextKey first (ofChars (separator first) ++ (ofChars lead ++
      (ofChars (Json.writeString key) ++ rest))) = .ok (some key, rest) := by
  have quote : Token.isSpace (.char '"') = false := rfl
  have read := Token.string_writeString key rest
  simp only [ofChars_append, ofChars_cons, ofChars_nil, List.append_assoc, List.cons_append,
    List.nil_append] at read
  cases first with
  | true =>
      simp [separator, nextKey, within, Json.writeString, Token.skipSpace_spaces spaces,
        Token.skipSpace_of_visible quote, nextKey.key, map_apply, ofToken, read]
  | false =>
      have comma : Token.isSpace (.char ',') = false := rfl
      simp [separator, nextKey, within, Json.writeString, Token.skipSpace_spaces spaces,
        Token.skipSpace_of_visible quote, Token.skipSpace_of_visible comma, nextKey.key, map_apply,
        ofToken, read]

theorem nextKey_end {first : Bool} {close : List Char} (spaces : Spaces close) (rest : Text) :
    nextKey first (ofChars close ++ .char '}' :: rest) = .ok (none, .char '}' :: rest) := by
  have brace : Token.isSpace (.char '}') = false := rfl
  simp [nextKey, within, Token.skipSpace_spaces spaces, Token.skipSpace_of_visible brace]

theorem colon_apply {gap : List Char} (rest : Text) :
    colon (ofChars (':' :: gap) ++ rest) = .ok ((), ofChars gap ++ rest) := by
  have visible : Token.isSpace (.char ':') = false := rfl
  simp [colon, Token.skipSpace_of_visible visible]

theorem closeObject_apply (rest : Text) : closeObject (.char '}' :: rest) = .ok ((), rest) := by
  have brace : Token.isSpace (.char '}') = false := rfl
  simp [closeObject, Token.skipSpace_of_visible brace]

theorem entries_guarded {value : Reader α} {depth : Nat} {jsons : List (String × Json)}
    {pairs : OrderedMap String α}
    (reads : List.Forall₂ (fun json pair => json.1 = pair.1 ∧ Reads value depth json.2 pair.2)
      jsons pairs) {layout : Layout} (plain : layout.Plain) (level : Nat) {close : List Char}
    (spaces : Spaces close) (rest : Text) (steps : Text) (first : Bool)
    (known : OrderedMap String α) (enough : jsons.length < steps.length) :
    Guarded (Json.membersDepth jsons ≤ depth)
      (entries value steps first known
        (ofChars (Json.membersText layout level first jsons) ++
          (ofChars close ++ .char '}' :: rest)))
      (OrderedMap.insertAll known pairs, .char '}' :: rest) := by
  induction reads generalizing steps first known with
  | nil =>
      obtain ⟨step, steps, rfl⟩ := List.exists_cons_of_length_pos enough
      refine .of_ok (Nat.zero_le depth) ?_
      simp [entries, Json.membersText, bind_apply, nextKey_end spaces, pure_apply]
  | @cons json pair jsons pairs here others ih =>
      obtain ⟨key, json⟩ := json
      obtain ⟨name, item⟩ := pair
      obtain ⟨rfl, here⟩ := here
      obtain ⟨step, steps, rfl⟩ := List.exists_cons_of_length_pos (Nat.zero_lt_of_lt enough)
      obtain ⟨gap, colon, gapSpaces⟩ := plain.colon
      have later := ih steps false (OrderedMap.insert key item known) (by simpa using enough)
      have read := (here.within (.key key)).guarded plain level gapSpaces
        (Token.stops_members layout level jsons spaces rest)
      rw [Json.writeMembers_eq] at read
      rw [Json.membersText, colon, Json.writeMembers_eq]
      simp only [ofChars_append, List.append_assoc, entries, bind_apply,
        nextKey_key (plain.newline level), colon_apply, ok_bind]
      refine (read.bind later).congr ?_
      rw [Json.membersDepth, Nat.max_le]

theorem insideObject_guarded {value : Reader α} {depth : Nat} {jsons : List (String × Json)}
    {pairs : OrderedMap String α} (distinct : OrderedMap.Distinct pairs)
    (reads : ∀ inner, depth = inner + 1 → List.Forall₂ (fun json pair =>
      json.1 = pair.1 ∧ Reads value inner json.2 pair.2) jsons pairs)
    {layout : Layout} (plain : layout.Plain) (level : Nat) {close : List Char}
    (spaces : Spaces close) (rest : Text) :
    Guarded ((Json.object jsons).depth ≤ depth)
      (insideObject depth value
        (ofChars (Json.membersText layout level true jsons) ++
          (ofChars close ++ .char '}' :: rest)))
      (pairs, rest) := by
  rw [Json.depth]
  refine enter_guarded fun inner levelLeft => ?_
  have enough : jsons.length < (stepsFor (ofChars (Json.membersText layout level true jsons) ++
      (ofChars close ++ .char '}' :: rest))).length := by
    have bound := Json.length_membersText layout level true jsons
    simp only [stepsFor, List.length_cons, List.length_append, length_ofChars]
    omega
  have inside := entries_guarded (reads inner levelLeft) plain level spaces rest _ true [] enough
  rw [OrderedMap.insertAll_of_distinct [] pairs distinct, List.nil_append] at inside
  refine (inside.bind (.of_ok trivial ?_)).congr (and_iff_left trivial)
  simp [bind_apply, closeObject_apply, pure_apply]

theorem Reads.map {value : Reader α} {depth : Nat} {jsons : List (String × Json)}
    {pairs : OrderedMap String α} (distinct : OrderedMap.Distinct pairs)
    (reads : ∀ inner, depth = inner + 1 → List.Forall₂ (fun json pair =>
      json.1 = pair.1 ∧ Reads value inner json.2 pair.2) jsons pairs) :
    Reads (map depth value) depth (.object jsons) pairs :=
  .of_start fun {layout} plain level rest _ => by
    obtain ⟨close, spaces, written⟩ := Json.write_object plain level jsons
    rw [written]
    simp only [ofChars_append, ofChars_cons, ofChars_nil, List.append_assoc, List.cons_append,
      List.nil_append]
    exact insideObject_guarded distinct reads plain (level + 1) spaces rest

end Reader

end ConfigContract
