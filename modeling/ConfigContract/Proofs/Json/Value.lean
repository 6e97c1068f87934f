import ConfigContract.Proofs.Json.Containers
import ConfigContract.Proofs.Schema.WellFormed

/-!
JSON values without fractions are read back as they were printed.
-/

namespace ConfigContract

open Text

namespace Json

theorem writeInteger_negative {i : Int} (negative : i < 0) :
    writeInteger i = '-' :: Nat.toDigits 10 i.natAbs := by
  simp [writeInteger, negative]

theorem writeInteger_nonnegative {i : Int} (nonnegative : ¬ i < 0) :
    writeInteger i = Nat.toDigits 10 i.natAbs := by
  simp [writeInteger, nonnegative]

end Json

namespace Reader

variable {depth : Nat} {inner : Reader Json}

namespace Reads

theorem anyValue_null : Reads (anyValue depth inner) depth .null .null :=
  .of_start fun _ _ rest _ => by
    refine .of_ok (Nat.zero_le depth) ?_
    have read := Token.word_ofChars "ull".toList rest
    simp [Json.write, bind_apply, skipping, ofToken] at read ⊢
    simp [read, Except.map, pure_apply]

theorem anyValue_bool (value : Bool) :
    Reads (anyValue depth inner) depth (.bool value) (.bool value) :=
  .of_start fun _ _ rest _ => by
    refine .of_ok (Nat.zero_le depth) ?_
    cases value
    · have read := Token.word_ofChars "alse".toList rest
      simp [Json.write, bind_apply, skipping, ofToken] at read ⊢
      simp [read, Except.map, pure_apply]
    · have read := Token.word_ofChars "rue".toList rest
      simp [Json.write, bind_apply, skipping, ofToken] at read ⊢
      simp [read, Except.map, pure_apply]

theorem anyValue_string (s : String) : Reads (anyValue depth inner) depth (.string s) (.string s) :=
  .of_start fun _ _ rest _ => by
    refine .of_ok (Nat.zero_le depth) ?_
    have read := Token.string_writeString s rest
    simp [Json.write, Json.writeString, map_apply, ofToken] at read ⊢
    simp [read]

theorem anyValue_integer {i : Int} (integral : (Json.number (.integer i)).Integral) :
    Reads (anyValue depth inner) depth (.number (.integer i)) (.number (.integer i)) :=
  .of_start fun {layout} _ level rest stops => by
    obtain ⟨lower, upper⟩ := integral
    refine .of_ok (Nat.zero_le depth) ?_
    have fits : i.natAbs ≤ Token.greatestUnsigned := by
      have greatest : Token.greatestUnsigned = 2 ^ 64 - 1 := rfl
      omega
    by_cases negative : i < 0
    · have read := Token.number_toDigits true fits stops
      have whole : Token.wholeNumber true i.natAbs = .integer i := by
        have half : UInt64.size / 2 = 2 ^ 63 := rfl
        have small : 0 < i.natAbs ∧ i.natAbs ≤ UInt64.size / 2 := by omega
        have same : -(i.natAbs : Int) = i := by omega
        rw [Token.wholeNumber, if_neg (by decide), if_pos small, same]
      rw [Json.write, Json.writeNumber, Json.writeInteger_negative negative]
      simp [map_apply, ofToken, read, whole]
    · have read := Token.number_toDigits false fits stops
      have whole : Token.wholeNumber false i.natAbs = .integer i := by
        have same : (i.natAbs : Int) = i := by omega
        rw [Token.wholeNumber, if_pos (by decide), same]
      obtain ⟨c, tail, written, digit⟩ := Json.exists_digit i.natAbs
      have notMinus : c ≠ '-' := Token.ne_of_isDigit digit rfl
      have notQuote : c ≠ '"' := Token.ne_of_isDigit digit rfl
      have notBracket : c ≠ '[' := Token.ne_of_isDigit digit rfl
      have notBrace : c ≠ '{' := Token.ne_of_isDigit digit rfl
      have notNull : c ≠ 'n' := Token.ne_of_isDigit digit rfl
      have notTrue : c ≠ 't' := Token.ne_of_isDigit digit rfl
      have notFalse : c ≠ 'f' := Token.ne_of_isDigit digit rfl
      rw [written, ofChars_cons, List.cons_append] at read
      rw [Json.write, Json.writeNumber, Json.writeInteger_nonnegative negative, written,
        ofChars_cons, List.cons_append]
      simp [map_apply, ofToken, read, whole, digit]

theorem anyValue_array {items : List Json}
    (reads : ∀ below, depth = below + 1 → List.Forall₂ (Reads inner below) items items) :
    Reads (anyValue depth inner) depth (.array items) (.array items) :=
  .of_start fun {layout} plain level rest _ => by
    obtain ⟨close, spaces, written⟩ := Json.write_array plain level items
    rw [written]
    simp only [ofChars_append, ofChars_cons, ofChars_nil, List.append_assoc, List.cons_append,
      List.nil_append, map_apply]
    exact (insideArray_guarded reads plain (level + 1) spaces rest).map fun result =>
      (Json.array result.1, result.2)

theorem anyValue_object {members : List (String × Json)} (distinct : OrderedMap.Distinct members)
    (reads : ∀ below, depth = below + 1 → List.Forall₂ (fun json pair =>
      json.1 = pair.1 ∧ Reads inner below json.2 pair.2) members members) :
    Reads (anyValue depth inner) depth (.object members) (.object members) :=
  .of_start fun {layout} plain level rest _ => by
    obtain ⟨close, spaces, written⟩ := Json.write_object plain level members
    rw [written]
    simp only [ofChars_append, ofChars_cons, ofChars_nil, List.append_assoc, List.cons_append,
      List.nil_append, map_apply]
    exact (insideObject_guarded distinct reads plain (level + 1) spaces rest).map fun result =>
      (Json.object result.1, result.2)

mutual

theorem json : ∀ value : Json, value.Integral → ∀ depth, Reads (Reader.json depth) depth value value
  | .null, _, depth => anyValue_null
  | .bool flag, _, depth => anyValue_bool flag
  | .number (.integer _), integral, depth => anyValue_integer integral
  | .string s, _, depth => anyValue_string s
  | .array items, integral, depth => by
      rw [Reader.json]
      refine anyValue_array ?_
      rintro below rfl
      exact jsonItems items integral below
  | .object members, integral, depth => by
      rw [Reader.json]
      refine anyValue_object integral.1 ?_
      rintro below rfl
      exact jsonMembers members integral.2 below

theorem jsonItems : ∀ items : List Json, itemsIntegral items → ∀ depth,
    List.Forall₂ (Reads (Reader.json depth) depth) items items
  | [], _, _ => .nil
  | item :: rest, integral, depth =>
      .cons (json item integral.1 depth) (jsonItems rest integral.2 depth)

theorem jsonMembers : ∀ members : List (String × Json), membersIntegral members → ∀ depth,
    List.Forall₂ (fun json pair => json.1 = pair.1 ∧
      Reads (Reader.json depth) depth json.2 pair.2) members members
  | [], _, _ => .nil
  | (_, value) :: rest, integral, depth =>
      .cons ⟨rfl, json value integral.1 depth⟩ (jsonMembers rest integral.2 depth)

end

end Reads

end Reader

end ConfigContract
