import ConfigContract.Proofs.Except
import ConfigContract.Proofs.Json.Token
import Mathlib.Data.List.DropRight

/-!
The texts of numbers. What is written for a number, integer or not, has the form that JSON gives to
numbers, and such a text is passed over to its end.
-/

namespace ConfigContract

open Text

/-! Leading digits of the shortest decimals -/

namespace Shortest

open Binary64 (twoTo tenTo)

theorem tenTo_pos (power : Nat) : 0 < tenTo power := Nat.pow_pos (by decide)

theorem tenTo_mono {power more : Nat} (fewer : power ≤ more) : tenTo power ≤ tenTo more :=
  Nat.pow_le_pow_right (by decide) fewer

theorem lt_tenTo_length (n : Nat) : n < tenTo (Nat.toDigits 10 n).length :=
  (Nat.length_toDigits_le_iff (by decide) Nat.length_toDigits_pos).mp Nat.le.refl

theorem tenTo_length_le {n : Nat} (positive : 0 < n) :
    tenTo ((Nat.toDigits 10 n).length - 1) ≤ n := by
  by_cases single : (Nat.toDigits 10 n).length - 1 = 0
  · rw [single]
    exact positive
  · by_contra small
    have shorter := (Nat.length_toDigits_le_iff (by decide) (Nat.pos_of_ne_zero single)).mpr
      (Nat.not_le.mp small)
    omega

theorem quotient_pos {x : Binary64} (nonzero : x.mantissa ≠ 0) :
    0 < x.quotient.1 ∧ 0 < x.quotient.2 :=
  ⟨Nat.mul_pos (Nat.pos_of_ne_zero nonzero) (Nat.pow_pos (by decide)), Nat.pow_pos (by decide)⟩

/-- The power of ten of the first digit, or a smaller one, is not above the number. -/
theorem tenTo_le_of_le_leadingPower {x : Binary64} (nonzero : x.mantissa ≠ 0) {k : Int}
    (small : k ≤ leadingPower x) :
    tenTo k.toNat * x.quotient.2 ≤ x.quotient.1 * tenTo (-k).toNat := by
  obtain ⟨numPos, denPos⟩ := quotient_pos nonzero
  have grows : x.quotient.1 ≤ x.quotient.1 * tenTo (-k).toNat :=
    Nat.le_mul_of_pos_right _ (tenTo_pos _)
  simp only [leadingPower] at small
  split at small
  next atLeastOne =>
    -- the whole part has a digit at the power
    have whole : 0 < x.quotient.1 / x.quotient.2 := Nat.div_pos atLeastOne denPos
    have power : k.toNat ≤ (Nat.toDigits 10 (x.quotient.1 / x.quotient.2)).length - 1 := by
      omega
    calc tenTo k.toNat * x.quotient.2
        ≤ x.quotient.1 / x.quotient.2 * x.quotient.2 :=
          Nat.mul_le_mul_right _ ((tenTo_mono power).trans (tenTo_length_le whole))
      _ ≤ x.quotient.1 := Nat.div_mul_le_self _ _
      _ ≤ x.quotient.1 * tenTo (-k).toNat := grows
  next below =>
    -- the inverse, rounded down, is below the power
    have inverse := lt_tenTo_length ((x.quotient.2 - 1) / x.quotient.1)
    rw [Nat.div_lt_iff_lt_mul numPos] at inverse
    have negative : k.toNat = 0 := by omega
    have power : (Nat.toDigits 10 ((x.quotient.2 - 1) / x.quotient.1)).length ≤ (-k).toNat := by
      omega
    calc tenTo k.toNat * x.quotient.2
        = x.quotient.2 := by rw [negative]; exact Nat.one_mul _
      _ ≤ tenTo (Nat.toDigits 10 ((x.quotient.2 - 1) / x.quotient.1)).length * x.quotient.1 := by
          omega
      _ ≤ tenTo (-k).toNat * x.quotient.1 := Nat.mul_le_mul_right _ (tenTo_mono power)
      _ = x.quotient.1 * tenTo (-k).toNat := Nat.mul_comm _ _

theorem neighbours_pos {x : Binary64} (nonzero : x.mantissa ≠ 0) {count : Nat}
    (atLeastOne : 1 ≤ count) {near : Decimal} (member : near ∈ neighbours x count) :
    0 < near.digits := by
  have small : leadingPower x + 1 - count ≤ leadingPower x := by omega
  have scaled := tenTo_le_of_le_leadingPower nonzero small
  have floor : 0 < x.mantissa * twoTo x.exponent.toNat *
      tenTo (-(leadingPower x + 1 - count)).toNat /
        (tenTo (leadingPower x + 1 - count).toNat * twoTo (-x.exponent).toNat) :=
    Nat.div_pos scaled (Nat.mul_pos (tenTo_pos _) (Nat.pow_pos (by decide)))
  simp only [neighbours] at member
  split at member
  · rcases List.mem_pair.mp member with rfl | rfl
    · exact floor
    · exact Nat.succ_pos _
  · rcases List.mem_pair.mp member with rfl | rfl
    · exact Nat.succ_pos _
    · exact floor
  · split at member <;> rcases List.mem_pair.mp member with rfl | rfl
    · exact floor
    · exact Nat.succ_pos _
    · exact Nat.succ_pos _
    · exact floor

theorem exists_neighbour (x : Binary64) (count : Nat) :
    ∃ near ∈ neighbours x count, (neighbours x count).head? = some near := by
  simp only [neighbours]
  split
  · exact ⟨_, List.mem_cons_self, rfl⟩
  · exact ⟨_, List.mem_cons_self, rfl⟩
  · split <;> exact ⟨_, List.mem_cons_self, rfl⟩

theorem search_pos {x : Binary64} (nonzero : x.mantissa ≠ 0) (steps : Nat) {count : Nat}
    (atLeastOne : 1 ≤ count) : 0 < (search x steps count).digits := by
  induction steps generalizing count with
  | zero =>
      obtain ⟨near, member, first⟩ := exists_neighbour x count
      rw [search, first]
      exact neighbours_pos nonzero atLeastOne member
  | succ steps ih =>
      rw [search]
      split
      next found => exact neighbours_pos nonzero atLeastOne (List.mem_of_find?_eq_some found)
      next => exact ih (Nat.le_add_left 1 count)

theorem decimal_pos {x : Binary64} (nonzero : x.mantissa ≠ 0) : 0 < (decimal x).digits :=
  search_pos nonzero 17 Nat.le.refl

end Shortest

/-! The form of numbers -/

namespace Token

structure Digits (chars : List Char) : Prop where
  nonempty : chars ≠ []
  decimal : ∀ c ∈ chars, c.isDigit = true

/-- A whole part: a zero at the front stands alone. -/
structure Whole (chars : List Char) : Prop extends Digits chars where
  leading : chars.head? = some '0' → chars = ['0']

inductive Exponential : List Char → Prop
  | absent : Exponential []
  | present {sign : Char} {digits : List Char} (signed : sign = '+' ∨ sign = '-')
      (power : Digits digits) : Exponential ('e' :: sign :: digits)

inductive Unsigned : List Char → Prop
  | integral {whole exponent : List Char} (isWhole : Whole whole)
      (scale : Exponential exponent) : Unsigned (whole ++ exponent)
  | fractional {whole fraction exponent : List Char} (isWhole : Whole whole)
      (digits : Digits fraction) (scale : Exponential exponent) :
      Unsigned (whole ++ '.' :: (fraction ++ exponent))

theorem Digits.append {first second : List Char} (digits : Digits first)
    (others : ∀ c ∈ second, c.isDigit = true) : Digits (first ++ second) where
  nonempty := by simp [digits.nonempty]
  decimal c member := (List.mem_append.mp member).elim (digits.decimal c) (others c)

theorem digits_toDigits (n : Nat) : Digits (Nat.toDigits 10 n) where
  nonempty := Nat.toDigits_ne_nil
  decimal _ member := Nat.isDigit_of_mem_toDigits (by decide) (by decide) member

theorem whole_zero : Whole ['0'] where
  nonempty := by decide
  decimal _ member := by
    rw [List.mem_singleton.mp member]
    rfl
  leading _ := rfl

theorem Digits.whole {chars : List Char} (digits : Digits chars)
    (leading : chars.head? ≠ some '0') : Whole chars :=
  { digits with leading := fun zero => absurd zero leading }

theorem head?_toDigits {n : Nat} (positive : 0 < n) : (Nat.toDigits 10 n).head? ≠ some '0' := by
  intro zero
  obtain ⟨rest, written⟩ := List.head?_eq_some_iff.mp zero
  exact head_toDigits positive written rfl

theorem whole_toDigits (n : Nat) : Whole (Nat.toDigits 10 n) := by
  by_cases zero : n = 0
  · subst zero
    exact whole_zero
  · exact (digits_toDigits n).whole (head?_toDigits (Nat.pos_of_ne_zero zero))

theorem Unsigned.first {chars : List Char} (written : Unsigned chars) :
    ∃ c rest, chars = c :: rest ∧ c.isDigit = true := by
  have opens {whole : List Char} (isWhole : Whole whole) :
      ∃ c rest, whole = c :: rest ∧ c.isDigit = true := by
    obtain ⟨c, others, rfl⟩ := List.exists_cons_of_ne_nil isWhole.nonempty
    exact ⟨c, others, rfl, isWhole.decimal c List.mem_cons_self⟩
  cases written with
  | integral isWhole scale =>
      obtain ⟨c, others, rfl, digit⟩ := opens isWhole
      exact ⟨c, _, rfl, digit⟩
  | fractional isWhole digits scale =>
      obtain ⟨c, others, rfl, digit⟩ := opens isWhole
      exact ⟨c, _, rfl, digit⟩

/-! Passing over numbers -/

theorem skipDigits_digits {chars : List Char} (isDigits : Digits chars) {rest : Text}
    (ends : EndsDigits rest) : skipDigits (ofChars chars ++ rest) = .ok rest := by
  rw [skipDigits, digits_ofChars isDigits.decimal ends]
  obtain ⟨c, others, rfl⟩ := List.exists_cons_of_ne_nil isDigits.nonempty
  rfl

theorem skipExponent_exponential {exponent : List Char} (scale : Exponential exponent) {rest : Text}
    (stops : Stops rest) : skipExponent (ofChars exponent ++ rest) = .ok rest := by
  cases scale with
  | absent =>
      match rest with
      | [] => rfl
      | .stray byte :: rest => rfl
      | .char c :: rest =>
          obtain ⟨-, -, notSmall, notLarge⟩ := stops
          simp [skipExponent, startsWithE, notSmall, notLarge]
  | present signed power =>
      have passed := skipDigits_digits power stops.endsDigits
      rcases signed with rfl | rfl <;> simpa [skipExponent, startsWithE] using passed

theorem Exponential.endsDigits {exponent : List Char} (scale : Exponential exponent) {rest : Text}
    (stops : Stops rest) : EndsDigits (ofChars exponent ++ rest) := by
  cases scale with
  | absent => exact stops.endsDigits
  | present => rfl

/-- Where a whole part begins with a zero, no digit follows. -/
theorem Whole.read {whole : List Char} (isWhole : Whole whole) {rest : Text}
    (ends : EndsDigits rest) : ∃ d more, digits (ofChars whole ++ rest) = (d :: more, rest) ∧
      (d = 0 → more = []) := by
  obtain ⟨c, others, rfl⟩ := List.exists_cons_of_ne_nil isWhole.nonempty
  have read := digits_ofChars isWhole.decimal ends
  rw [List.map_cons] at read
  refine ⟨_, _, read, fun zero => ?_⟩
  have digit := Char.isDigit_iff_toNat.mp (isWhole.decimal c List.mem_cons_self)
  have first : '0'.toNat = 48 := rfl
  have same : c = '0' := Char.toNat_inj.mp (by omega)
  have alone := isWhole.leading (by rw [same]; rfl)
  rw [List.cons.injEq] at alone
  rw [alone.2]
  rfl

theorem skipNumber_unsigned {chars : List Char} (written : Unsigned chars) {rest : Text}
    (stops : Stops rest) : skipNumber (ofChars chars ++ rest) = .ok rest := by
  cases written with
  | @integral whole exponent isWhole scale =>
      have passed := skipExponent_exponential scale stops
      obtain ⟨d, more, read, alone⟩ := isWhole.read (scale.endsDigits stops)
      rw [ofChars_append, List.append_assoc, skipNumber, read]
      split
      next same => cases same
      next same =>
        cases same
        cases alone rfl
      next same =>
        -- neither an exponent nor what stands after the number begins with a point
        obtain ⟨-, point⟩ := Prod.mk.inj same
        cases scale with
        | absent =>
            rw [ofChars_nil, List.nil_append] at point
            subst point
            exact absurd rfl stops.2.1
        | present => simp at point
      next same =>
        obtain ⟨-, rfl⟩ := Prod.mk.inj same
        exact passed
  | @fractional whole fraction exponent isWhole isDigits scale =>
      have passed := skipExponent_exponential scale stops
      have passedDigits := skipDigits_digits isDigits (scale.endsDigits stops)
      have point : EndsDigits (.char '.' :: (ofChars fraction ++ (ofChars exponent ++ rest))) := rfl
      obtain ⟨d, more, read, alone⟩ := isWhole.read point
      simp only [ofChars_append, ofChars_cons, List.append_assoc, List.cons_append, skipNumber,
        read]
      split
      next same => cases same
      next same =>
        cases same
        cases alone rfl
      next same =>
        cases same
        rw [passedDigits, ok_bind, passed]
      next notPoint same =>
        obtain ⟨rfl, rfl⟩ := Prod.mk.inj same
        exact (notPoint _ rfl).elim

end Token

/-! Written numbers -/

namespace DecimalFormat

open Token

/-- The digits of a number without the zeros at their end, as they are written. -/
theorem digits_significant {n : Nat} (positive : 0 < n) :
    Digits ((Nat.toDigits 10 n).rdropWhile (· == '0')) ∧
      ((Nat.toDigits 10 n).rdropWhile (· == '0')).head? ≠ some '0' := by
  obtain ⟨zeros, split⟩ := List.rdropWhile_prefix (· == '0') (l := Nat.toDigits 10 n)
  have leading := head?_toDigits positive
  have nonempty : (Nat.toDigits 10 n).rdropWhile (· == '0') ≠ [] := by
    intro allZero
    rw [List.rdropWhile_eq_nil_iff] at allZero
    obtain ⟨c, others, written⟩ :=
      List.exists_cons_of_ne_nil (Nat.toDigits_ne_nil (n := n) (b := 10))
    have zero := allZero c (by simp [written])
    rw [written] at leading
    exact leading (congrArg some (eq_of_beq zero))
  refine ⟨⟨nonempty, fun c member => ?_⟩, fun zero => leading ?_⟩
  · exact (digits_toDigits n).decimal c (split ▸ List.mem_append_left _ member)
  · rw [← split, List.head?_append_of_ne_nil _ nonempty]
    exact zero

theorem isDigit_zeros {n : Nat} : ∀ c ∈ zeros n, c.isDigit = true := by
  intro c member
  rw [List.eq_of_mem_replicate member]
  rfl

variable {digits : List Char}

theorem unsigned_scientific (isDigits : Digits digits) (leading : digits.head? ≠ some '0')
    (power : Int) : Unsigned (scientific digits power) := by
  have scale : Exponential ('e' :: (if power < 0 then '-' else '+') ::
      Nat.toDigits 10 power.natAbs) := by
    refine .present ?_ (digits_toDigits _)
    split
    · exact .inr rfl
    · exact .inl rfl
  match digits, isDigits, leading with
  | [], isDigits, _ => exact absurd rfl isDigits.nonempty
  | [d], isDigits, leading => exact .integral (isDigits.whole leading) scale
  | d :: e :: more, isDigits, leading =>
      have digit : ∀ c ∈ [d], c.isDigit = true :=
        List.forall_mem_singleton.mpr (isDigits.decimal d List.mem_cons_self)
      have first : Whole [d] := Digits.whole ⟨List.cons_ne_nil _ _, digit⟩ leading
      have others : Digits (e :: more) :=
        ⟨List.cons_ne_nil _ _, fun c member => isDigits.decimal c (List.mem_cons_of_mem _ member)⟩
      have text := Unsigned.fractional first others scale
      simpa [scientific] using text

theorem unsigned_positional (isDigits : Digits digits) (leading : digits.head? ≠ some '0')
    (power : Int) : Unsigned (positional digits power) := by
  simp only [positional]
  split
  · have fraction : Digits (zeros (power.natAbs - 1) ++ digits) := by
      refine ⟨by simp [isDigits.nonempty], fun c member => ?_⟩
      exact (List.mem_append.mp member).elim (isDigit_zeros c) (isDigits.decimal c)
    have text := Unsigned.fractional whole_zero fraction .absent
    simpa using text
  · split
    next short =>
      have whole : Whole (digits ++ zeros (power.toNat + 1 - digits.length)) :=
        (isDigits.append isDigit_zeros).whole (by
          rwa [List.head?_append_of_ne_nil _ isDigits.nonempty])
      have text := Unsigned.fractional whole whole_zero.toDigits .absent
      simpa using text
    next long =>
      have whole : Whole (digits.take (power.toNat + 1)) := Digits.whole
        ⟨by simp [isDigits.nonempty], fun c member =>
          isDigits.decimal c (List.mem_of_mem_take member)⟩
        (by simpa [List.head?_take] using leading)
      have fraction : Digits (digits.drop (power.toNat + 1)) :=
        ⟨by simpa using long, fun c member => isDigits.decimal c (List.mem_of_mem_drop member)⟩
      have text := Unsigned.fractional whole fraction .absent
      simpa using text

theorem exists_write (format : DecimalFormat) (x : Binary64) :
    ∃ sign text, format.write x = sign ++ text ∧ (sign = [] ∨ sign = ['-']) ∧ Unsigned text := by
  have signed : (if x.negative then ['-'] else []) = [] ∨
      (if x.negative then ['-'] else []) = ['-'] := by
    cases x.negative
    · exact .inl rfl
    · exact .inr rfl
  by_cases zero : x.mantissa = 0
  · have written : format.write x = (if x.negative then ['-'] else []) ++ ['0', '.', '0'] := by
      simp only [write, if_pos zero]
    exact ⟨_, _, written, signed, .fractional whole_zero whole_zero.toDigits .absent⟩
  · obtain ⟨isDigits, leading⟩ := digits_significant (Shortest.decimal_pos zero)
    simp only [write, if_neg zero]
    refine ⟨_, _, rfl, signed, ?_⟩
    split
    · exact unsigned_scientific isDigits leading _
    · exact unsigned_positional isDigits leading _

end DecimalFormat

theorem Json.exists_writeNumber (n : JsonNumber) :
    ∃ sign text, writeNumber n = sign ++ text ∧ (sign = [] ∨ sign = ['-']) ∧
      Token.Unsigned text := by
  cases n with
  | integer i =>
      refine ⟨_, _, rfl, ?_, ?_⟩
      · split
        · exact .inr rfl
        · exact .inl rfl
      · have text := Token.Unsigned.integral (Token.whole_toDigits i.natAbs) .absent
        simpa using text
  | float x => exact DecimalFormat.exists_write _ x

end ConfigContract
