import ConfigContract.Proofs.Provider.Version

/-!
The texts that are read as versions, and what makes no difference in them: the mark `v`, zeros
before a number and build metadata.
-/

namespace ConfigContract

namespace Version

def significant (digits : List Char) : List Char := digits.dropWhile fun c => c == '0'

/-- Two spellings that differ in the mark, in zeros before numbers and in build metadata only. -/
def Spelling.Equivalent (spelling other : Spelling) : Prop :=
  (spelling.first :: spelling.others).map significant =
    (other.first :: other.others).map significant ∧ spelling.pre = other.pre

variable {spelling : Spelling}

theorem numeralValue_significant (digits : List Char) :
    numeralValue (significant digits) = numeralValue digits := by
  induction digits with
  | nil => rfl
  | cons c digits ih =>
      by_cases zero : c = '0'
      · subst zero
        have rest : numeralValue ('0' :: digits) = numeralValue digits := Nat.ofDigitChars_cons
        rw [rest, ← ih]
        rfl
      · simp [significant, zero]

theorem Spelling.Equivalent.version_eq {other : Spelling} (same : spelling.Equivalent other) :
    spelling.version = other.version := by
  obtain ⟨numerals, pre⟩ := same
  have values := congrArg (List.map fun digits => UInt64.ofNat (numeralValue digits)) numerals
  simp only [List.map_map, Function.comp_def, numeralValue_significant, List.map_cons,
    List.cons.injEq] at values
  simp [Spelling.version, values, pre]

/-- Exactly the texts of the form `v?N[.N[.N]][-P][+B]`, with white space around or not, are read:
as the version with these numbers and the prerelease `P`. The text of a version is read as that
version, and the mark `v`, zeros before a number and build metadata make no difference. -/
theorem parse_exactly_spellings :
    (∀ (input : String) (version : Version), parse input = some version ↔
      ∃ spelling : Spelling, spelling.Spells input ∧ version = spelling.version) ∧
    (∀ (input : String) (version : Version), parse input = some version →
      parse version.render = some version) ∧
    ∀ spelling other : Spelling, spelling.Valid → other.Valid → spelling.Equivalent other →
      parse (String.ofList other.text) = parse (String.ofList spelling.text) := by
  refine ⟨fun input version => parse_eq_some_iff, fun input version parsed => ?_,
    fun spelling other valid otherValid same => ?_⟩
  · obtain ⟨⟨read, precision⟩, readBoth, rfl⟩ := Option.map_eq_some_iff.mp parsed
    have again := parseWithPrecision_render (written_of_parse readBoth)
    simp [parse, again]
  · have read := parse_eq_some_iff.mpr ⟨spelling, valid.spells, rfl⟩
    have readOther := parse_eq_some_iff.mpr ⟨other, otherValid.spells, same.version_eq⟩
    rw [read, readOther]

def Spelling.decorated : Spelling :=
  ⟨true, ['0', '0', '7'], [['0', '1', '0']], some "rc-1.x", some "-5."⟩

def Spelling.bare : Spelling := ⟨false, ['7'], [['1', '0']], some "rc-1.x", none⟩

theorem decorated_read_as_bare :
    Spelling.decorated.Valid ∧ Spelling.bare.Valid ∧
      Spelling.bare.Equivalent Spelling.decorated ∧
      parse (String.ofList Spelling.decorated.text) = parse (String.ofList Spelling.bare.text) ∧
      parse "\t v007.010-rc-1.x+-5.\n" = some ⟨7, 10, 0, some "rc-1.x"⟩ ∧
      parse (Version.render ⟨7, 10, 0, some "rc-1.x"⟩) = some ⟨7, 10, 0, some "rc-1.x"⟩ := by
  have tag : Tag "rc-1.x" :=
    tag_iff.mpr ⟨by decide +kernel, List.all_eq_true.mp (by decide +kernel)⟩
  have buildTag : Tag "-5." :=
    tag_iff.mpr ⟨by decide +kernel, List.all_eq_true.mp (by decide +kernel)⟩
  have decorated : Spelling.decorated.Valid := {
    first := ⟨by decide, List.all_eq_true.mp rfl, by decide⟩
    others := List.forall_mem_singleton.mpr ⟨by decide, List.all_eq_true.mp rfl, by decide⟩
    atMostThree := by decide
    pre := by
      rintro _ ⟨⟩
      exact tag
    build := by
      rintro _ ⟨⟩
      exact buildTag }
  have bare : Spelling.bare.Valid := {
    first := ⟨by decide, List.all_eq_true.mp rfl, by decide⟩
    others := List.forall_mem_singleton.mpr ⟨by decide, List.all_eq_true.mp rfl, by decide⟩
    atMostThree := by decide
    pre := by
      rintro _ ⟨⟩
      exact tag
    build := by simp [Spelling.bare] }
  have equivalent : Spelling.bare.Equivalent Spelling.decorated := ⟨by decide, rfl⟩
  have padded : Spelling.decorated.Spells "\t v007.010-rc-1.x+-5.\n" :=
    ⟨decorated, ['\t', ' '], ['\n'], List.all_eq_true.mp rfl, List.all_eq_true.mp rfl,
      by decide +kernel⟩
  have read := (parse_exactly_spellings.1 _ _).mpr ⟨Spelling.decorated, padded, rfl⟩
  exact ⟨decorated, bare, equivalent,
    parse_exactly_spellings.2.2 _ _ bare decorated equivalent, read,
    parse_exactly_spellings.2.1 _ _ read⟩

end Version

end ConfigContract
