import ConfigContract.Json.Reader
import ConfigContract.Proofs.Json.NumberText

/-!
Readers of printed JSON values. A reader reads a JSON value as some value when it takes the printed
text for it wherever that stands, and fails when the JSON value is deeper than the depth it is for.
-/

namespace ConfigContract

open Text

/-! Results that depend on whether something fits -/

def Guarded {α : Type} (fits : Prop) (result : Except Fault α) (expected : α) : Prop :=
  (fits → result = .ok expected) ∧ (¬ fits → ∃ fault, result = .error fault)

namespace Guarded

variable {α β : Type} {fits other : Prop} {result : Except Fault α} {value : α}

theorem of_ok (always : fits) (succeeded : result = .ok value) : Guarded fits result value :=
  ⟨fun _ => succeeded, fun never => absurd always never⟩

theorem congr (guarded : Guarded fits result value) (same : fits ↔ other) :
    Guarded other result value := ⟨guarded.1 ∘ same.mpr, guarded.2 ∘ mt same.mp⟩

theorem bind {next : α → Except Fault β} {final : β} (first : Guarded fits result value)
    (second : Guarded other (next value) final) :
    Guarded (fits ∧ other) (result >>= next) final := by
  constructor
  · rintro ⟨fit, otherFit⟩
    rw [first.1 fit]
    exact second.1 otherFit
  · intro misfit
    by_cases fit : fits
    · rw [first.1 fit]
      exact second.2 fun otherFit => misfit ⟨fit, otherFit⟩
    · obtain ⟨fault, failed⟩ := first.2 fit
      exact ⟨fault, by rw [failed]; rfl⟩

theorem map (f : α → β) (guarded : Guarded fits result value) :
    Guarded fits (f <$> result) (f value) := by
  constructor
  · intro fit
    rw [guarded.1 fit]
    rfl
  · intro misfit
    obtain ⟨fault, failed⟩ := guarded.2 misfit
    exact ⟨fault, by rw [failed]; rfl⟩

end Guarded

/-! Layouts and the first character of a printed value -/

structure Layout.Plain (layout : Layout) : Prop where
  newline : ∀ depth, Spaces (layout.newline depth)
  colon : ∃ gap, layout.colon = ':' :: gap ∧ Spaces gap

theorem Layout.plain_compact : Layout.compact.Plain where
  newline _ := .nil
  colon := ⟨[], rfl, .nil⟩

theorem Layout.plain_pretty : Layout.pretty.Plain where
  newline depth c member := by
    rcases List.mem_cons.mp member with rfl | space
    · rfl
    · rw [List.eq_of_mem_replicate space]
      rfl
  colon := ⟨[' '], rfl, fun c member => by rw [List.mem_singleton.mp member]; rfl⟩

/-- What a printed value may start with, so that it stands out from what may be around it. -/
def Front (json : Json) (c : Char) : Prop :=
  Token.isSpace (.char c) = false ∧ c ≠ ',' ∧ c ≠ ']' ∧ c ≠ '}' ∧ (c = 'n' → json = .null)

def Json.Fronted (json : Json) : Prop :=
  ∀ layout level, ∃ c rest, json.write layout level = c :: rest ∧ Front json c

namespace Json

theorem front_digit {json : Json} {c : Char} (digit : c.isDigit = true) : Front json c :=
  ⟨Token.isSpace_of_isDigit digit, Token.ne_of_isDigit digit rfl, Token.ne_of_isDigit digit rfl,
    Token.ne_of_isDigit digit rfl, fun same => absurd same (Token.ne_of_isDigit digit rfl)⟩

theorem exists_digit (n : Nat) :
    ∃ c rest, Nat.toDigits 10 n = c :: rest ∧ c.isDigit = true := by
  obtain ⟨c, rest, written⟩ := List.exists_cons_of_ne_nil (Nat.toDigits_ne_nil (n := n) (b := 10))
  exact ⟨c, rest, written,
    Nat.isDigit_of_mem_toDigits (by decide) (by decide) (written ▸ List.mem_cons_self)⟩

theorem write_natural (layout : Layout) (level n : Nat) :
    (natural n).write layout level = Nat.toDigits 10 n := by
  have nonnegative : ¬ (n : Int) < 0 := Int.not_lt.mpr (Int.natCast_nonneg n)
  simp [natural, write, writeNumber, writeInteger, nonnegative]

def Opens : Json → Char → Prop
  | .null, c => c = 'n'
  | .bool true, c => c = 't'
  | .bool false, c => c = 'f'
  | .number _, c => c = '-' ∨ c.isDigit = true
  | .string _, c => c = '"'
  | .array _, c => c = '['
  | .object _, c => c = '{'

theorem writeNumber_opens (n : JsonNumber) :
    ∃ c rest, writeNumber n = c :: rest ∧ (c = '-' ∨ c.isDigit = true) := by
  obtain ⟨sign, text, written, signed, unsigned⟩ := exists_writeNumber n
  rcases signed with rfl | rfl
  · obtain ⟨c, rest, rfl, digit⟩ := unsigned.first
    exact ⟨c, rest, written, .inr digit⟩
  · exact ⟨'-', text, written, .inl rfl⟩

theorem write_opens (json : Json) (layout : Layout) (level : Nat) :
    ∃ c rest, json.write layout level = c :: rest ∧ json.Opens c := by
  cases json with
  | null => exact ⟨_, _, rfl, rfl⟩
  | bool value => cases value <;> exact ⟨_, _, rfl, rfl⟩
  | number n => exact writeNumber_opens n
  | string s => exact ⟨_, _, rfl, rfl⟩
  | array items => cases items <;> exact ⟨_, _, rfl, rfl⟩
  | object members => cases members <;> exact ⟨_, _, rfl, rfl⟩

theorem Opens.front {json : Json} {c : Char} (opens : json.Opens c) : Front json c := by
  cases json with
  | null =>
      cases opens
      exact ⟨rfl, by decide, by decide, by decide, fun _ => rfl⟩
  | bool value =>
      cases value <;> cases opens <;> exact ⟨rfl, by decide, by decide, by decide, nofun⟩
  | number n =>
      rcases opens with rfl | digit
      · exact ⟨rfl, by decide, by decide, by decide, nofun⟩
      · exact front_digit digit
  | _ =>
      cases opens
      exact ⟨rfl, by decide, by decide, by decide, nofun⟩

theorem fronted (json : Json) : json.Fronted := fun layout level => by
  obtain ⟨c, rest, written, opens⟩ := json.write_opens layout level
  exact ⟨c, rest, written, opens.front⟩

namespace Opens

variable {json : Json} {c : Char}

theorem of_quote (opens : json.Opens '"') : ∃ s, json = .string s := by
  cases json with
  | string s => exact ⟨s, rfl⟩
  | bool value => cases value <;> cases opens
  | number n => rcases opens with same | digit <;> contradiction
  | _ => cases opens

theorem of_bracket (opens : json.Opens '[') : ∃ items, json = .array items := by
  cases json with
  | array items => exact ⟨items, rfl⟩
  | bool value => cases value <;> cases opens
  | number n => rcases opens with same | digit <;> contradiction
  | _ => cases opens

theorem of_brace (opens : json.Opens '{') : ∃ members, json = .object members := by
  cases json with
  | object members => exact ⟨members, rfl⟩
  | bool value => cases value <;> cases opens
  | number n => rcases opens with same | digit <;> contradiction
  | _ => cases opens

end Opens

end Json

namespace Token

theorem stops_spaces {chars : List Char} (spaces : Spaces chars) {rest : Text}
    (stops : Stops rest) : Stops (ofChars chars ++ rest) := by
  cases chars with
  | nil => exact stops
  | cons c chars =>
      have space : isSpace (.char c) = true := spaces c (by simp)
      simp only [isSpace, Bool.or_eq_true, beq_iff_eq] at space
      rcases space with ((rfl | rfl) | rfl) | rfl <;> exact ⟨rfl, by decide, by decide, by decide⟩

end Token

namespace Reader

variable {α β : Type}

theorem bind_apply (reader : Reader α) (next : α → Reader β) (text : Text) :
    (reader >>= next) text = reader text >>= fun result => next result.1 result.2 := rfl

theorem pure_apply (value : α) (text : Text) :
    (pure value : Reader α) text = .ok (value, text) := rfl

theorem map_apply (f : α → β) (reader : Reader α) (text : Text) :
    (f <$> reader) text = (fun result => (f result.1, result.2)) <$> reader text := by
  cases read : reader text <;> simp [Functor.map, StateT.map, read, Except.map]

theorem discard_apply (reader : Reader α) (text : Text) :
    (discard reader) text = (fun result => (PUnit.unit, result.2)) <$> reader text :=
  map_apply (fun _ => PUnit.unit) reader text

theorem start_apply {lead : List Char} (spaces : Spaces lead) {c : Char}
    (visible : Token.isSpace (.char c) = false) (rest : Text) :
    start (ofChars lead ++ .char c :: rest) = .ok ((), .char c :: rest) := by
  simp [start, Token.skipSpace_spaces spaces, Token.skipSpace_of_visible visible]

/-- A reader that takes the printed text of a JSON value for some value, wherever the text stands,
if the JSON value is of the given depth at most, and that fails otherwise. -/
structure Reads (reader : Reader α) (depth : Nat) (json : Json) (value : α) : Prop where
  fronted : json.Fronted
  guarded : ∀ {layout : Layout}, layout.Plain → ∀ (level : Nat) {lead : List Char}, Spaces lead →
    ∀ {rest : Text}, Token.Stops rest → Guarded (json.depth ≤ depth)
      (reader (ofChars lead ++ (ofChars (json.write layout level) ++ rest))) (value, rest)

namespace Reads

variable {reader : Reader α} {depth : Nat} {json : Json} {value : α}

theorem fmap (f : α → β) (reads : Reads reader depth json value) :
    Reads (f <$> reader) depth json (f value) where
  fronted := reads.fronted
  guarded plain level _ spaces _ stops := by
    rw [map_apply]
    exact (reads.guarded plain level spaces stops).map fun result => (f result.1, result.2)

theorem within (step : Step) (reads : Reads reader depth json value) :
    Reads (reader.within step) depth json value where
  fronted := reads.fronted
  guarded plain level _ spaces _ stops := by
    obtain ⟨fits, misfits⟩ := reads.guarded plain level spaces stops
    refine ⟨fun fit => by simp [Reader.within, fits fit], fun misfit => ?_⟩
    obtain ⟨fault, failed⟩ := misfits misfit
    exact ⟨fault.within step, by simp [Reader.within, failed]⟩

theorem of_start {next : Reader α}
    (guarded : ∀ {layout : Layout}, layout.Plain → ∀ (level : Nat) {rest : Text},
      Token.Stops rest → Guarded (json.depth ≤ depth)
        (next (ofChars (json.write layout level) ++ rest)) (value, rest)) :
    Reads (start >>= fun _ => next) depth json value where
  fronted := json.fronted
  guarded {layout} plain level lead spaces rest stops := by
    have inner := guarded plain level stops
    obtain ⟨c, tail, written, visible, -⟩ := json.fronted layout level
    rw [written, ofChars_cons, List.cons_append] at inner ⊢
    rw [bind_apply, start_apply spaces visible]
    exact inner

theorem optional (reads : Reads reader depth json value) (present : json ≠ .null) :
    Reads (optional reader) depth json (some value) where
  fronted := reads.fronted
  guarded {layout} plain level lead spaces rest stops := by
    have inner := (reads.fmap some).guarded plain level .nil stops
    obtain ⟨c, tail, written, visible, -, -, -, notNull⟩ := json.fronted layout level
    have other : c ≠ 'n' := fun same => present (notNull same)
    rw [ofChars_nil, List.nil_append] at inner
    rw [written, ofChars_cons, List.cons_append] at inner ⊢
    rw [Reader.optional, Token.skipSpace_spaces spaces, Token.skipSpace_of_visible visible]
    split
    next same =>
      simp only [List.cons.injEq, Glyph.char.injEq] at same
      exact absurd same.1 other
    next => exact inner

/-! Values without parts -/

theorem string (expected : String) (depth : Nat) (s : String) :
    Reads (Reader.string expected) depth (.string s) s :=
  of_start fun _ _ rest _ => by
    refine .of_ok (Nat.zero_le depth) ?_
    have read := Token.string_writeString s rest
    simp [Json.write, Json.writeString, ofToken] at read ⊢
    rw [read]

theorem bool (depth : Nat) (value : Bool) : Reads Reader.bool depth (.bool value) value :=
  of_start fun _ _ rest _ => by
    refine .of_ok (Nat.zero_le depth) ?_
    cases value
    · have read := Token.word_ofChars "alse".toList rest
      simp [Json.write, ofToken] at read ⊢
      simp [read, Except.map]
    · have read := Token.word_ofChars "rue".toList rest
      simp [Json.write, ofToken] at read ⊢
      simp [read, Except.map]

theorem unsigned (expected : String) (depth : Nat) (n : UInt64) :
    Reads (Reader.unsigned expected) depth (.unsigned n) n :=
  of_start fun {layout} _ level rest stops => by
    refine .of_ok (Nat.zero_le depth) ?_
    have fits : n.toNat ≤ Token.greatestUnsigned := Nat.le_sub_one_of_lt n.toNat_lt
    have read := Token.number_toDigits false fits stops
    obtain ⟨c, tail, written, digit⟩ := Json.exists_digit n.toNat
    have notMinus : c ≠ '-' := by
      rintro rfl
      simp at digit
    rw [written, ofChars_cons, List.cons_append] at read
    rw [Json.unsigned, Json.write_natural, written, ofChars_cons, List.cons_append]
    have nonnegative : ¬ (n.toNat : Int) < 0 := Int.not_lt.mpr (Int.natCast_nonneg n.toNat)
    simp [digit, bind_apply, ofToken, read, Token.wholeNumber, unsigned.ofNumber, nonnegative,
      pure_apply]

end Reads

end Reader

end ConfigContract
