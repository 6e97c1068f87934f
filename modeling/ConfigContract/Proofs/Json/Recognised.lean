import ConfigContract.Proofs.Json.Skipped
import ConfigContract.Proofs.Pointwise

/-!
Readers that take some printed JSON values and refuse the others. What a reader makes of a value is
said by a relation: it yields exactly the results that the relation allows, and none where there is
none.
-/

namespace ConfigContract

open Text

/-! Exact results -/

def Exactly {α : Type} (result : Except Fault (α × Text)) (means : α → Prop) (rest : Text) : Prop :=
  ∀ value left, result = .ok (value, left) ↔ means value ∧ left = rest

namespace Exactly

variable {α β : Type} {result : Except Fault (α × Text)} {means other : α → Prop}
  {rest between : Text}

theorem of_ok {value : α} (succeeded : result = .ok (value, rest)) :
    Exactly result (fun given => given = value) rest := by
  intro given left
  rw [succeeded, Except.ok.injEq, Prod.mk.injEq, eq_comm, @eq_comm _ rest]

theorem of_error {fault : Fault} (failed : result = .error fault) :
    Exactly result (fun _ => False) rest := by
  intro value left
  simp [failed]

theorem congr (exact : Exactly result means rest) (same : ∀ value, means value ↔ other value) :
    Exactly result other rest := by
  intro value left
  rw [exact value left, same]

theorem bind {next : α × Text → Except Fault (β × Text)} {final : α → β → Prop}
    (first : Exactly result means between)
    (second : ∀ value, means value → Exactly (next (value, between)) (final value) rest) :
    Exactly (result >>= next) (fun value => ∃ given, means given ∧ final given value) rest := by
  intro value left
  rw [bind_eq_ok]
  constructor
  · rintro ⟨⟨given, middle⟩, read, readOn⟩
    obtain ⟨meant, rfl⟩ := (first given middle).mp read
    obtain ⟨last, same⟩ := (second given meant value left).mp readOn
    exact ⟨⟨given, meant, last⟩, same⟩
  · rintro ⟨⟨given, meant, last⟩, same⟩
    exact ⟨(given, between), (first given between).mpr ⟨meant, rfl⟩,
      (second given meant value left).mpr ⟨last, same⟩⟩

/-- What is read first only decides how the rest is read. -/
theorem andThen {next : α × Text → Except Fault (β × Text)} {last : β → Prop}
    (first : Exactly result means between) (needed : ∀ value, last value → ∃ given, means given)
    (second : ∀ given, means given → Exactly (next (given, between)) last rest) :
    Exactly (result >>= next) last rest :=
  (first.bind second).congr fun value =>
    ⟨fun ⟨_, _, final⟩ => final, fun final =>
      (needed value final).imp fun _ meant => ⟨meant, final⟩⟩

theorem map (f : α → β) (exact : Exactly result means rest) :
    Exactly ((fun pair => (f pair.1, pair.2)) <$> result)
      (fun value => ∃ given, means given ∧ f given = value) rest := by
  intro value left
  rw [map_eq_ok]
  constructor
  · rintro ⟨⟨given, middle⟩, read, same⟩
    cases same
    obtain ⟨meant, rfl⟩ := (exact given middle).mp read
    exact ⟨⟨given, meant, rfl⟩, rfl⟩
  · rintro ⟨⟨given, meant, rfl⟩, rfl⟩
    exact ⟨(given, left), (exact given left).mpr ⟨meant, rfl⟩, rfl⟩

end Exactly

namespace Reader

variable {α β : Type}

/-- A reader that takes the printed text of a JSON value, wherever the text stands, for the values
that are meant, if the JSON value is of the given depth at most. -/
structure Recognises (reader : Reader α) (depth : Nat) (json : Json) (means : α → Prop) : Prop where
  exactly : ∀ {layout : Layout}, layout.Plain → ∀ (level : Nat) {lead : List Char}, Spaces lead →
    ∀ {rest : Text}, Token.Stops rest → json.depth ≤ depth →
      Exactly (reader (ofChars lead ++ (ofChars (json.write layout level) ++ rest))) means rest

theorem Reads.recognises {reader : Reader α} {depth : Nat} {json : Json} {value : α}
    (reads : Reads reader depth json value) :
    Recognises reader depth json fun given => given = value where
  exactly plain level _ spaces _ stops fits :=
    .of_ok ((reads.guarded plain level spaces stops).1 fits)

namespace Recognises

variable {reader : Reader α} {depth : Nat} {json : Json} {means other : α → Prop}

theorem congr (recognises : Recognises reader depth json means)
    (same : ∀ value, means value ↔ other value) : Recognises reader depth json other where
  exactly plain level _ spaces _ stops fits :=
    (recognises.exactly plain level spaces stops fits).congr same

theorem fmap (f : α → β) (recognises : Recognises reader depth json means) :
    Recognises (f <$> reader) depth json fun value => ∃ given, means given ∧ f given = value where
  exactly plain level _ spaces _ stops fits := by
    rw [map_apply]
    exact (recognises.exactly plain level spaces stops fits).map f

theorem within (step : Step) (recognises : Recognises reader depth json means) :
    Recognises (reader.within step) depth json means where
  exactly plain level _ spaces _ stops fits value left := by
    rw [← recognises.exactly plain level spaces stops fits value left, Reader.within]
    split
    next result read => rw [read]
    next fault failed => simp [failed]

theorem of_start {next : Reader α}
    (recognises : ∀ {layout : Layout}, layout.Plain → ∀ (level : Nat) {rest : Text},
      Token.Stops rest → json.depth ≤ depth →
        Exactly (next (ofChars (json.write layout level) ++ rest)) means rest) :
    Recognises (start >>= fun _ => next) depth json means where
  exactly {layout} plain level lead spaces rest stops fits := by
    have inner := recognises plain level stops fits
    obtain ⟨c, tail, written, visible, -⟩ := json.fronted layout level
    rw [written, ofChars_cons, List.cons_append] at inner ⊢
    rw [bind_apply, start_apply spaces visible]
    exact inner

theorem of_refused {next : Reader α} (nothing : ∀ value, ¬ means value)
    (refuses : ∀ c, json.Opens c → ∀ rest, ∃ fault, next (.char c :: rest) = .error fault) :
    Recognises (start >>= fun _ => next) depth json means :=
  .of_start fun {layout} _ level rest _ _ => by
    obtain ⟨c, tail, written, opens⟩ := json.write_opens layout level
    obtain ⟨fault, failed⟩ := refuses c opens (ofChars tail ++ rest)
    rw [written, ofChars_cons, List.cons_append]
    exact (Exactly.of_error failed).congr fun value => iff_of_false id (nothing value)

theorem skip (depth : Nat) (json : Json) : Recognises Reader.skip depth json fun _ => True where
  exactly plain level _ spaces _ stops _ :=
    (Exactly.of_ok (skip_apply plain json level spaces stops)).congr fun _ => by simp

theorem string (expected : String) (depth : Nat) (json : Json) :
    Recognises (Reader.string expected) depth json fun s => json = .string s := by
  by_cases isString : ∃ s, json = .string s
  · obtain ⟨s, rfl⟩ := isString
    refine (Reads.string expected depth s).recognises.congr fun given => ?_
    rw [Json.string.injEq, eq_comm]
  · refine of_refused (fun s same => isString ⟨s, same⟩) fun c opens rest => ?_
    have notQuote : c ≠ '"' := by
      rintro rfl
      exact isString opens.of_quote
    simp [notQuote, unexpected]

end Recognises

/-! Arrays -/

theorem items_exactly {item : Reader α} {depth : Nat} {means : Json → α → Prop}
    {layout : Layout} (plain : layout.Plain) (level : Nat) {close : List Char}
    (spaces : Spaces close) (rest : Text) {jsons : List Json}
    (recognises : ∀ json ∈ jsons, Recognises item depth json (means json))
    (fits : Json.itemsDepth jsons ≤ depth) (steps : Text) (position : Nat)
    (enough : jsons.length < steps.length) :
    Exactly (items item steps position
      (ofChars (Json.itemsText layout level (position == 0) jsons) ++
        (ofChars close ++ .char ']' :: rest)))
      (List.Forall₂ means jsons) (.char ']' :: rest) := by
  induction jsons generalizing steps position with
  | nil =>
      obtain ⟨step, steps, rfl⟩ := List.exists_cons_of_length_pos enough
      have ended : items item (step :: steps) position (ofChars close ++ .char ']' :: rest) =
          .ok ([], .char ']' :: rest) := by
        simp [items, bind_apply, nextItem_end spaces, pure_apply]
      refine (Exactly.of_ok ended).congr fun values => ?_
      rw [List.forall₂_nil_left_iff]
  | cons json jsons ih =>
      obtain ⟨step, steps, rfl⟩ := List.exists_cons_of_length_pos (Nat.zero_lt_of_lt enough)
      rw [Json.itemsDepth, Nat.max_le] at fits
      have here := ((recognises json List.mem_cons_self).within (.index position)).exactly plain
        level .nil (Token.stops_items layout level jsons spaces rest) fits.1
      have later := ih (fun other member => recognises other (List.mem_cons_of_mem _ member)) fits.2
        steps (position + 1) (by simpa using enough)
      rw [ofChars_nil, List.nil_append, Json.writeItems_eq] at here
      rw [Json.itemsText, Json.writeItems_eq]
      simp only [ofChars_append, List.append_assoc, items, bind_apply,
        nextItem_item _ plain level json, ok_bind, ↓reduceIte, pure_apply]
      refine (here.bind fun value _ => later.map (value :: ·)).congr fun values => ?_
      rw [List.forall₂_cons_left_iff]
      constructor
      · rintro ⟨value, meant, others, meantOthers, rfl⟩
        exact ⟨value, others, meant, meantOthers, rfl⟩
      · rintro ⟨value, others, meant, meantOthers, rfl⟩
        exact ⟨value, meant, others, meantOthers, rfl⟩

theorem insideArray_exactly {item : Reader α} {depth : Nat} {means : Json → α → Prop}
    {layout : Layout} (plain : layout.Plain) (level : Nat) {close : List Char}
    (spaces : Spaces close) (rest : Text) {jsons : List Json}
    (recognises : ∀ inner, depth = inner + 1 →
      ∀ json ∈ jsons, Recognises item inner json (means json))
    (fits : (Json.array jsons).depth ≤ depth) :
    Exactly (insideArray depth item
      (ofChars (Json.itemsText layout level true jsons) ++ (ofChars close ++ .char ']' :: rest)))
      (List.Forall₂ means jsons) rest := by
  rw [Json.depth] at fits
  obtain ⟨inner, rfl⟩ : ∃ inner, depth = inner + 1 := ⟨depth - 1, by omega⟩
  have enough : jsons.length < (stepsFor (ofChars (Json.itemsText layout level true jsons) ++
      (ofChars close ++ .char ']' :: rest))).length := by
    have bound := Json.length_itemsText layout level true jsons
    simp only [stepsFor, List.length_cons, List.length_append, length_ofChars]
    omega
  have inside := items_exactly plain level spaces rest (recognises inner rfl) (by omega) _ 0 enough
  have closed (values : List α) : Exactly
      ((closeArray >>= fun _ => (pure values : Reader (List α))) (.char ']' :: rest))
      (fun given => given = values) rest :=
    .of_ok (by simp [bind_apply, closeArray_apply, pure_apply])
  exact (inside.bind fun values _ => closed values).congr fun values => by simp

namespace Recognises

theorem list {item : Reader α} {depth : Nat} {means : Json → α → Prop} {json : Json}
    (recognises : ∀ inner, depth = inner + 1 → ∀ items, json = .array items →
      ∀ given ∈ items, Recognises item inner given (means given)) :
    Recognises (list depth item) depth json fun values =>
      ∃ items, json = .array items ∧ List.Forall₂ means items values := by
  by_cases isArray : ∃ items, json = .array items
  · obtain ⟨items, rfl⟩ := isArray
    refine .of_start fun {layout} plain level rest _ fits => ?_
    obtain ⟨close, spaces, written⟩ := Json.write_array plain level items
    rw [written]
    simp only [ofChars_append, ofChars_cons, ofChars_nil, List.append_assoc, List.cons_append,
      List.nil_append]
    refine (insideArray_exactly plain (level + 1) spaces rest
      (fun inner below => recognises inner below items rfl) fits).congr fun values => ?_
    simp
  · refine of_refused (fun values ⟨items, same, _⟩ => isArray ⟨items, same⟩)
      fun c opens rest => ?_
    have notBracket : c ≠ '[' := by
      rintro rfl
      exact isArray opens.of_bracket
    simp [notBracket, unexpected]

end Recognises

/-! Objects -/

theorem entries_exactly {value : Reader α} {depth : Nat} {means : Json → α → Prop}
    {layout : Layout} (plain : layout.Plain) (level : Nat) {close : List Char}
    (spaces : Spaces close) (rest : Text) {members : List (String × Json)}
    (recognises : ∀ member ∈ members, Recognises value depth member.2 (means member.2))
    (fits : Json.membersDepth members ≤ depth) (steps : Text) (first : Bool)
    (known : OrderedMap String α) (enough : members.length < steps.length) :
    Exactly (entries value steps first known
      (ofChars (Json.membersText layout level first members) ++
        (ofChars close ++ .char '}' :: rest)))
      (fun result => ∃ pairs, OrderedMap.Pointwise (fun _ => means) members pairs ∧
        OrderedMap.insertAll known pairs = result) (.char '}' :: rest) := by
  induction members generalizing steps first known with
  | nil =>
      obtain ⟨step, steps, rfl⟩ := List.exists_cons_of_length_pos enough
      have ended : entries value (step :: steps) first known (ofChars close ++ .char '}' :: rest) =
          .ok (known, .char '}' :: rest) := by
        simp [entries, bind_apply, nextKey_end spaces, pure_apply]
      refine (Exactly.of_ok ended).congr fun result => ?_
      simp [OrderedMap.Pointwise.nil_iff, eq_comm]
  | cons member members ih =>
      obtain ⟨key, json⟩ := member
      obtain ⟨step, steps, rfl⟩ := List.exists_cons_of_length_pos (Nat.zero_lt_of_lt enough)
      obtain ⟨gap, colon, gapSpaces⟩ := plain.colon
      rw [Json.membersDepth, Nat.max_le] at fits
      have here := ((recognises _ List.mem_cons_self).within (.key key)).exactly plain level
        gapSpaces (Token.stops_members layout level members spaces rest) fits.1
      have later (item : α) := ih
        (fun other listed => recognises other (List.mem_cons_of_mem _ listed)) fits.2 steps false
        (OrderedMap.insert key item known) (by simpa using enough)
      rw [Json.writeMembers_eq] at here
      rw [Json.membersText, colon, Json.writeMembers_eq]
      simp only [ofChars_append, List.append_assoc, entries, bind_apply,
        nextKey_key (plain.newline level), colon_apply, ok_bind]
      refine (here.bind fun item _ => later item).congr fun result => ?_
      constructor
      · rintro ⟨item, meant, pairs, meantPairs, rfl⟩
        exact ⟨(key, item) :: pairs, .cons ⟨rfl, meant⟩ meantPairs, rfl⟩
      · rintro ⟨pairs, meantPairs, rfl⟩
        obtain ⟨item, later, rfl, meant, meantLater⟩ :=
          OrderedMap.Pointwise.cons_iff.mp meantPairs
        exact ⟨item, meant, later, meantLater, rfl⟩

theorem insideObject_exactly {value : Reader α} {depth : Nat} {means : Json → α → Prop}
    {layout : Layout} (plain : layout.Plain) (level : Nat) {close : List Char}
    (spaces : Spaces close) (rest : Text) {members : List (String × Json)}
    (distinct : OrderedMap.Distinct members)
    (recognises : ∀ inner, depth = inner + 1 →
      ∀ member ∈ members, Recognises value inner member.2 (means member.2))
    (fits : (Json.object members).depth ≤ depth) :
    Exactly (insideObject depth value
      (ofChars (Json.membersText layout level true members) ++
        (ofChars close ++ .char '}' :: rest)))
      (OrderedMap.Pointwise (fun _ => means) members) rest := by
  rw [Json.depth] at fits
  obtain ⟨inner, rfl⟩ : ∃ inner, depth = inner + 1 := ⟨depth - 1, by omega⟩
  have enough : members.length < (stepsFor (ofChars (Json.membersText layout level true members) ++
      (ofChars close ++ .char '}' :: rest))).length := by
    have bound := Json.length_membersText layout level true members
    simp only [stepsFor, List.length_cons, List.length_append, length_ofChars]
    omega
  have inside := entries_exactly plain level spaces rest (recognises inner rfl) (by omega) _ true []
    enough
  have closed (result : OrderedMap String α) : Exactly
      ((closeObject >>= fun _ => (pure result : Reader (OrderedMap String α))) (.char '}' :: rest))
      (fun given => given = result) rest :=
    .of_ok (by simp [bind_apply, closeObject_apply, pure_apply])
  have kept {pairs : OrderedMap String α}
      (meant : OrderedMap.Pointwise (fun _ => means) members pairs) :
      OrderedMap.insertAll [] pairs = pairs :=
    OrderedMap.insertAll_of_distinct [] pairs (distinct.of_keys meant.keys.symm)
  refine (inside.bind fun result _ => closed result).congr fun result => ?_
  constructor
  · rintro ⟨_, ⟨pairs, meant, rfl⟩, rfl⟩
    rwa [kept meant]
  · intro meant
    exact ⟨result, ⟨result, meant, kept meant⟩, rfl⟩

namespace Recognises

theorem map {value : Reader α} {depth : Nat} {means : Json → α → Prop} {json : Json}
    (distinct : ∀ members, json = .object members → OrderedMap.Distinct members)
    (recognises : ∀ inner, depth = inner + 1 → ∀ members, json = .object members →
      ∀ member ∈ members, Recognises value inner member.2 (means member.2)) :
    Recognises (map depth value) depth json fun entries =>
      ∃ members, json = .object members ∧
        OrderedMap.Pointwise (fun _ => means) members entries := by
  by_cases isObject : ∃ members, json = .object members
  · obtain ⟨members, rfl⟩ := isObject
    refine .of_start fun {layout} plain level rest _ fits => ?_
    obtain ⟨close, spaces, written⟩ := Json.write_object plain level members
    rw [written]
    simp only [ofChars_append, ofChars_cons, ofChars_nil, List.append_assoc, List.cons_append,
      List.nil_append]
    refine (insideObject_exactly plain (level + 1) spaces rest (distinct members rfl)
      (fun inner below => recognises inner below members rfl) fits).congr fun entries => ?_
    simp
  · refine of_refused (fun entries ⟨members, same, _⟩ => isObject ⟨members, same⟩)
      fun c opens rest => ?_
    have notBrace : c ≠ '{' := by
      rintro rfl
      exact isObject opens.of_brace
    simp [notBrace, unexpected]

end Recognises

end Reader

end ConfigContract
