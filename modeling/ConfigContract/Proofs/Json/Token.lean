import ConfigContract.Json.Printer
import ConfigContract.Json.Token

/-!
Printed tokens are read back: strings with their escapes, and integers of at most 64 bits.
-/

namespace ConfigContract

namespace Text

def ofChars (chars : List Char) : Text := chars.map .char

@[simp] theorem ofChars_nil : ofChars [] = [] := rfl

@[simp] theorem ofChars_cons (c : Char) (chars : List Char) :
    ofChars (c :: chars) = .char c :: ofChars chars := rfl

@[simp] theorem ofChars_append (first second : List Char) :
    ofChars (first ++ second) = ofChars first ++ ofChars second := List.map_append

@[simp] theorem length_ofChars (chars : List Char) : (ofChars chars).length = chars.length :=
  List.length_map _

end Text

open Text

/-! White space -/

def Spaces (chars : List Char) : Prop := ∀ c ∈ chars, Token.isSpace (.char c) = true

theorem Spaces.nil : Spaces [] := fun _ member => nomatch member

namespace Token

@[simp] theorem skipSpace_spaces {lead : List Char} (spaces : Spaces lead) (text : Text) :
    skipSpace (ofChars lead ++ text) = skipSpace text := by
  induction lead with
  | nil => rfl
  | cons c rest ih =>
      have first : isSpace (.char c) = true := spaces c (by simp)
      rw [ofChars_cons, List.cons_append, skipSpace, List.dropWhile_cons_of_pos first]
      exact ih fun other member => spaces other (by simp [member])

theorem skipSpace_of_visible {c : Char} (visible : isSpace (.char c) = false) (rest : Text) :
    skipSpace (.char c :: rest) = .char c :: rest := by
  simp [skipSpace, visible]

/-! Words -/

theorem word_ofChars (letters : List Char) (rest : Text) :
    word letters (ofChars letters ++ rest) = .ok rest := by
  induction letters with
  | nil => rfl
  | cons c letters ih => simpa [word] using ih

/-! Strings -/

theorem hexDigit?_digitChar {n : Nat} (small : n < 16) : hexDigit? (Nat.digitChar n) = some n := by
  have all : ∀ n < 16, hexDigit? (Nat.digitChar n) = some n := by decide
  exact all n small

theorem content_escapeByNumber {c : Char} (control : c.toNat < 32) (rest : Text) :
    content (ofChars (Json.escapeByNumber c) ++ rest) = content.keep (.char c) (content rest) := by
  have high := hexDigit?_digitChar (n := c.toNat / 16) (by omega)
  have low := hexDigit?_digitChar (n := c.toNat % 16) (by omega)
  have zero : hexDigit? '0' = some 0 := rfl
  have quad : hexQuad? (.char '0') (.char '0') (.char (Nat.digitChar (c.toNat / 16)))
      (.char (Nat.digitChar (c.toNat % 16))) = some c.toNat := by
    simp only [hexQuad?, zero, high, low, Option.bind_eq_bind, Option.bind_some, Option.pure_def,
      Option.some.injEq]
    omega
  have notTrailing : isTrailing c.toNat = false := by
    simp only [isTrailing, Bool.and_eq_false_iff, decide_eq_false_iff_not]
    omega
  have notLeading : isLeading c.toNat = false := by
    simp only [isLeading, Bool.and_eq_false_iff, decide_eq_false_iff_not]
    omega
  simp [Json.escapeByNumber, content, quad, notTrailing, notLeading, Char.ofNat_toNat]

theorem content_quote (rest : Text) : content (.char '"' :: rest) = .ok ([], rest) := by
  rw [content.eq_def]
  simp

theorem content_simpleEscape {kind c : Char} (simple : simpleEscape? kind = some c)
    (notNumber : kind ≠ 'u') (rest : Text) :
    content (.char '\\' :: .char kind :: rest) = content.keep (.char c) (content rest) := by
  rw [content.eq_def]
  simp [simple, notNumber]

theorem content_plain {c : Char} (notQuote : c ≠ '"') (notSlash : c ≠ '\\') (visible : ¬ c < ' ')
    (rest : Text) : content (.char c :: rest) = content.keep (.char c) (content rest) := by
  rw [content.eq_def]
  simp [notQuote, notSlash, visible]

theorem content_escape (c : Char) (rest : Text) :
    content (ofChars (Json.escape c) ++ rest) = content.keep (.char c) (content rest) := by
  have named {n : Nat} (same : c.toNat = n) : c = Char.ofNat n := by
    rw [← same, Char.ofNat_toNat]
  unfold Json.escape
  split
  next quote =>
    subst quote
    exact content_simpleEscape rfl (by decide) rest
  next notQuote =>
    split
    next slash =>
      subst slash
      exact content_simpleEscape rfl (by decide) rest
    next notSlash =>
      split
      next same => exact named same ▸ content_simpleEscape rfl (by decide) rest
      split
      next same => exact named same ▸ content_simpleEscape rfl (by decide) rest
      split
      next same => exact named same ▸ content_simpleEscape rfl (by decide) rest
      split
      next same => exact named same ▸ content_simpleEscape rfl (by decide) rest
      split
      next same => exact named same ▸ content_simpleEscape rfl (by decide) rest
      split
      next control => exact content_escapeByNumber control rest
      next printable =>
        have notControl : ¬ c < ' ' := by
          rw [Char.lt_def, UInt32.lt_iff_toNat_lt]
          exact printable
        exact content_plain notQuote notSlash notControl rest

theorem content_flatMap_escape (chars : List Char) (rest : Text) :
    content (ofChars (chars.flatMap Json.escape) ++ .char '"' :: rest) =
      .ok (ofChars chars, rest) := by
  induction chars with
  | nil => exact content_quote rest
  | cons c chars ih =>
      rw [List.flatMap_cons, ofChars_append, List.append_assoc, content_escape, ih]
      rfl

theorem string_writeString (s : String) (rest : Text) :
    string (ofChars (s.toList.flatMap Json.escape ++ ['"']) ++ rest) = .ok (s, rest) := by
  have read := content_flatMap_escape s.toList rest
  have characters : (ofChars s.toList).toString? = some s := toString?_ofString s
  simp [string, read, characters]

/-! Integers -/

def EndsDigits : Text → Prop
  | .char c :: _ => c.isDigit = false
  | _ => True

def Stops : Text → Prop
  | .char c :: _ => c.isDigit = false ∧ c ≠ '.' ∧ c ≠ 'e' ∧ c ≠ 'E'
  | _ => True

theorem Stops.endsDigits : ∀ {rest : Text}, Stops rest → EndsDigits rest
  | [], _ => trivial
  | .stray _ :: _, _ => trivial
  | .char _ :: _, stops => stops.1

theorem ne_of_isDigit {c other : Char} (digit : c.isDigit = true)
    (different : other.isDigit = false) : c ≠ other := by
  rintro rfl
  exact Bool.false_ne_true (different.symm.trans digit)

theorem isSpace_of_isDigit {c : Char} (digit : c.isDigit = true) : isSpace (.char c) = false := by
  simp [isSpace, ne_of_isDigit digit (show ' '.isDigit = false from rfl),
    ne_of_isDigit digit (show '\n'.isDigit = false from rfl),
    ne_of_isDigit digit (show '\t'.isDigit = false from rfl),
    ne_of_isDigit digit (show '\r'.isDigit = false from rfl)]

theorem digit?_char (c : Char) :
    digit? (.char c) = if c.isDigit then some (c.toNat - 48) else none := by
  have same : ('0' ≤ c ∧ c ≤ '9') ↔ c.isDigit = true := by
    rw [Char.isDigit_iff_toNat, Char.le_def, Char.le_def, UInt32.le_iff_toNat_le,
      UInt32.le_iff_toNat_le]
    rfl
  simp only [digit?, same]

theorem digits_ofChars {chars : List Char} (all : ∀ c ∈ chars, c.isDigit = true) {rest : Text}
    (ends : EndsDigits rest) :
    digits (ofChars chars ++ rest) = (chars.map fun c => c.toNat - 48, rest) := by
  induction chars with
  | nil =>
      match rest with
      | [] => rfl
      | .stray byte :: rest => rfl
      | .char c :: rest =>
          have notDigit : c.isDigit = false := ends
          simp [digits, digit?_char, notDigit]
  | cons c chars ih =>
      have others := ih fun other member => all other (by simp [member])
      simp [digits, digit?_char, all c (by simp), others]

theorem accumulate_of_le {chars : List Char} {significand : Nat}
    (small : Nat.ofDigitChars 10 chars significand ≤ greatestUnsigned) :
    accumulate significand (chars.map fun c => c.toNat - 48) =
      (Nat.ofDigitChars 10 chars significand, 0) := by
  induction chars generalizing significand with
  | nil => simp [accumulate]
  | cons c chars ih =>
      rw [Nat.ofDigitChars_cons] at small ⊢
      have grows : 10 * significand + (c.toNat - '0'.toNat) ≤
          Nat.ofDigitChars 10 chars (10 * significand + (c.toNat - '0'.toNat)) := by
        rw [Nat.ofDigitChars_eq_ofDigitChars_zero]
        exact Nat.le_add_right_of_le (Nat.le_mul_of_pos_left _ (Nat.pow_pos (by decide)))
      have next : significand * 10 + (c.toNat - 48) = 10 * significand + (c.toNat - '0'.toNat) := by
        rw [Nat.mul_comm]
        rfl
      rw [List.map_cons, accumulate, next, if_pos (Nat.le_trans grows small), ih small]

theorem head_toDigits {n : Nat} (positive : 0 < n) {c : Char} {chars : List Char}
    (written : Nat.toDigits 10 n = c :: chars) : c ≠ '0' := by
  induction n using Nat.strongRecOn generalizing chars with
  | ind n ih =>
      by_cases small : n < 10
      · rw [Nat.toDigits_of_lt_base small, List.cons.injEq] at written
        rw [← written.1, ne_eq, Nat.digitChar_eq_zero]
        omega
      · rw [Nat.toDigits_of_base_le (by decide) (by omega)] at written
        obtain ⟨first, rest, before⟩ :=
          List.exists_cons_of_ne_nil (Nat.toDigits_ne_nil (n := n / 10) (b := 10))
        rw [before, List.cons_append, List.cons.injEq] at written
        exact ih (n / 10) (by omega) (by omega) (written.1 ▸ before)

theorem number_toDigits (negative : Bool) {n : Nat} (fits : n ≤ greatestUnsigned) {rest : Text}
    (stops : Stops rest) :
    number negative (ofChars (Nat.toDigits 10 n) ++ rest) = .ok (wholeNumber negative n, rest) := by
  have all : ∀ c ∈ Nat.toDigits 10 n, c.isDigit = true := fun c member =>
    Nat.isDigit_of_mem_toDigits (by decide) (by decide) member
  have value : accumulate 0 ((Nat.toDigits 10 n).map fun c => c.toNat - 48) = (n, 0) := by
    rw [accumulate_of_le] <;> simp [fits]
  have after : afterWhole negative n 0 rest = .ok (wholeNumber negative n, rest) := by
    match rest with
    | [] => rfl
    | .stray byte :: rest => rfl
    | .char c :: rest =>
        obtain ⟨-, notPoint, notSmall, notLarge⟩ := stops
        simp [afterWhole, startsWithE, notPoint, notSmall, notLarge]
  rw [number, digits_ofChars all stops.endsDigits]
  by_cases zero : n = 0
  · subst zero
    simpa [accumulate] using after
  · obtain ⟨c, chars, written⟩ :=
      List.exists_cons_of_ne_nil (Nat.toDigits_ne_nil (n := n) (b := 10))
    have digit := Char.isDigit_iff_toNat.mp (all c (by simp [written]))
    have notZero : c.toNat ≠ '0'.toNat := fun same =>
      head_toDigits (Nat.pos_of_ne_zero zero) written (Char.toNat_inj.mp same)
    have first : '0'.toNat = 48 := rfl
    obtain ⟨d, positive⟩ : ∃ d, c.toNat - 48 = d + 1 := ⟨c.toNat - 49, by omega⟩
    rw [written, List.map_cons, positive] at value
    simp only [written, List.map_cons, positive, value, after]

end Token

end ConfigContract
