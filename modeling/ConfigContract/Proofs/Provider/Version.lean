import ConfigContract.Provider.Version
import Mathlib.Data.List.TakeWhile

/-!
Versions as texts. The grammar of written versions is `v?N[.N[.N]][-P][+B]` with white space around:
exactly the texts of this form are read, as the version that they spell. A version is read back from
its own text, which has all three segments.
-/

namespace ConfigContract

namespace Version

/-! Characters -/

theorem isDigit_eq (c : Char) : isDigit c = c.isDigit := rfl

theorem isTagChar_of_isDigit {c : Char} (digit : isDigit c = true) : isTagChar c = true := by
  simp [isTagChar, digit]

theorem toNat_of_isTagChar {c : Char} (tagChar : isTagChar c = true) :
    45 ≤ c.toNat ∧ c.toNat ≤ 122 := by
  simp only [isTagChar, isDigit, Bool.or_eq_true, Bool.and_eq_true, decide_eq_true_eq, beq_iff_eq,
    Char.le_def, UInt32.le_iff_toNat_le] at tagChar
  change (((48 ≤ c.toNat ∧ c.toNat ≤ 57 ∨ 65 ≤ c.toNat ∧ c.toNat ≤ 90) ∨
    97 ≤ c.toNat ∧ c.toNat ≤ 122) ∨ c = '.') ∨ c = '-' at tagChar
  rcases tagChar with (((digit | upper) | lower) | rfl) | rfl
  · omega
  · omega
  · omega
  · decide
  · decide

theorem not_isBlank_of_isTagChar {c : Char} (tagChar : isTagChar c = true) :
    isBlank c = false := by
  obtain ⟨lower, upper⟩ := toNat_of_isTagChar tagChar
  simp only [isBlank, Bool.or_eq_false_iff, Bool.and_eq_false_iff, decide_eq_false_iff_not,
    beq_eq_false_iff_ne]
  omega

/-! The grammar -/

def numeralValue (digits : List Char) : Nat := Nat.ofDigitChars 10 digits 0

structure Numeral (digits : List Char) : Prop where
  nonempty : digits ≠ []
  decimal : ∀ c ∈ digits, c.isDigit = true
  fits : numeralValue digits < UInt64.size

structure Tag (tag : String) : Prop where
  nonempty : tag ≠ ""
  plain : ∀ c ∈ tag.toList, c.isAlphanum = true ∨ c = '.' ∨ c = '-'

structure Spelling where
  marked : Bool := false
  first : List Char
  others : List (List Char) := []
  pre : Option String := none
  build : Option String := none

def preText : Option String → List Char
  | none => []
  | some pre => '-' :: pre.toList

def buildText : Option String → List Char
  | none => []
  | some build => '+' :: build.toList

def segmentsText (others : List (List Char)) : List Char :=
  others.flatMap fun digits => '.' :: digits

namespace Spelling

def text (spelling : Spelling) : List Char :=
  (if spelling.marked then ['v'] else []) ++ (spelling.first ++
    (segmentsText spelling.others ++
      (preText spelling.pre ++ buildText spelling.build)))

structure Valid (spelling : Spelling) : Prop where
  first : Numeral spelling.first
  others : ∀ digits ∈ spelling.others, Numeral digits
  atMostThree : spelling.others.length ≤ 2
  pre : ∀ pre ∈ spelling.pre, Tag pre
  build : ∀ build ∈ spelling.build, Tag build

def written (spelling : Spelling) : Nat := 1 + spelling.others.length

/-- A segment that is not written is zero, and build metadata does not count. -/
def version (spelling : Spelling) : Version :=
  let later := spelling.others.map fun digits => UInt64.ofNat (numeralValue digits)
  { major := UInt64.ofNat (numeralValue spelling.first)
    minor := later.getD 0 0
    patch := later.getD 1 0
    pre := spelling.pre }

def Spells (spelling : Spelling) (input : String) : Prop :=
  spelling.Valid ∧ ∃ lead trail, (∀ c ∈ lead, isBlank c = true) ∧
    (∀ c ∈ trail, isBlank c = true) ∧ input.toList = lead ++ (spelling.text ++ trail)

end Spelling

/-! Numerals -/

theorem numeral?_eq_some_iff {digits : List Char} (decimal : ∀ c ∈ digits, isDigit c = true)
    {n : UInt64} :
    numeral? digits = some n ↔ Numeral digits ∧ n = UInt64.ofNat (numeralValue digits) := by
  have value : digits.foldl (fun n c => n * 10 + (c.toNat - 48)) 0 = numeralValue digits := by
    rw [numeralValue, Nat.ofDigitChars_eq_foldl]
    simp only [Nat.mul_comm 10]
    rfl
  simp only [numeral?, value, Option.ite_none_left_eq_some, not_or, Option.some.injEq]
  constructor
  · rintro ⟨⟨nonempty, fits⟩, rfl⟩
    exact ⟨⟨by simpa using nonempty, decimal, Nat.not_le.mp fits⟩, rfl⟩
  · rintro ⟨numeral, rfl⟩
    exact ⟨⟨by simpa using numeral.nonempty, Nat.not_le.mpr numeral.fits⟩, rfl⟩

def Undigited (rest : List Char) : Prop := ∀ c ∈ rest.head?, isDigit c = false

theorem Numeral.span {digits rest : List Char} (numeral : Numeral digits)
    (ends : Undigited rest) : (digits ++ rest).takeWhile isDigit = digits ∧
      (digits ++ rest).dropWhile isDigit = rest := by
  have all : ∀ c ∈ digits, isDigit c = true := numeral.decimal
  rw [List.takeWhile_append_of_pos all, List.dropWhile_append_of_pos all]
  cases rest with
  | nil => simp
  | cons c rest => simp [ends c rfl]

theorem Numeral.read {digits : List Char} (numeral : Numeral digits) :
    numeral? digits = some (UInt64.ofNat (numeralValue digits)) :=
  (numeral?_eq_some_iff numeral.decimal).mpr ⟨numeral, rfl⟩

/-- What is read as a numeral at the front of a text, and what is left of the text. -/
theorem numeral_of_read {s : List Char} {n : UInt64}
    (read : numeral? (s.takeWhile isDigit) = some n) :
    ∃ digits, Numeral digits ∧ s = digits ++ s.dropWhile isDigit ∧
      n = UInt64.ofNat (numeralValue digits) := by
  have decimal : ∀ c ∈ s.takeWhile isDigit, isDigit c = true := fun c member =>
    List.mem_takeWhile_imp member
  obtain ⟨numeral, value⟩ := (numeral?_eq_some_iff decimal).mp read
  exact ⟨s.takeWhile isDigit, numeral, List.takeWhile_append_dropWhile.symm, value⟩

/-! Segments -/

theorem segments?_complete {others : List (List Char)}
    (numerals : ∀ digits ∈ others, Numeral digits) {rest : List Char} (ends : Undigited rest)
    (noPoint : ∀ c ∈ rest.head?, c ≠ '.') {count : Nat} (enough : others.length ≤ count) :
    segments? count (segmentsText others ++ rest) =
      some (others.map fun digits => UInt64.ofNat (numeralValue digits), rest) := by
  induction others generalizing count with
  | nil =>
      have noMore : segments? count rest = some ([], rest) := by
        unfold segments?
        split
        next => exact absurd rfl (noPoint '.' rfl)
        next => rfl
      exact noMore
  | cons digits others ih =>
      obtain ⟨numeral, later⟩ := List.forall_mem_cons.mp numerals
      cases count with
      | zero => simp at enough
      | succ count =>
          have following : Undigited (segmentsText others ++ rest) := by
            cases others with
            | nil => exact ends
            | cons next others =>
                rintro _ ⟨⟩
                rfl
          obtain ⟨taken, dropped⟩ := numeral.span following
          have read := ih later (Nat.le_of_succ_le_succ enough)
          rw [segmentsText, List.flatMap_cons, List.cons_append, List.cons_append,
            List.append_assoc, segments?, ← segmentsText, taken, dropped, numeral.read, read]
          rfl

theorem segments?_sound {count : Nat} {s rest : List Char} {segments : List UInt64}
    (read : segments? count s = some (segments, rest)) :
    ∃ others, (∀ digits ∈ others, Numeral digits) ∧ others.length ≤ count ∧
      s = segmentsText others ++ rest ∧
      segments = others.map fun digits => UInt64.ofNat (numeralValue digits) := by
  induction count generalizing s segments with
  | zero =>
      cases read
      exact ⟨[], by simp, Nat.le_refl 0, rfl, rfl⟩
  | succ count ih =>
      unfold segments? at read
      split at read
      next after same =>
        cases same
        simp only [Option.bind_eq_bind, Option.bind_eq_some_iff, Option.pure_def,
          Option.some.injEq] at read
        obtain ⟨segment, readFirst, ⟨more, left⟩, readMore, built⟩ := read
        cases built
        obtain ⟨digits, numeral, split, value⟩ := numeral_of_read readFirst
        obtain ⟨others, numerals, few, spelled, values⟩ := ih readMore
        refine ⟨digits :: others, List.forall_mem_cons.mpr ⟨numeral, numerals⟩,
          Nat.succ_le_succ few, ?_, by rw [value, values, List.map_cons]⟩
        rw [split, spelled, segmentsText, segmentsText, List.flatMap_cons]
        simp
      next =>
        cases read
        exact ⟨[], by simp, Nat.zero_le _, rfl, rfl⟩

/-! Tags -/

theorem isTagChar_iff {c : Char} :
    isTagChar c = true ↔ c.isAlphanum = true ∨ c = '.' ∨ c = '-' := by
  have upper : ('A' ≤ c && c ≤ 'Z') = c.isUpper := (Bool.decide_and _ _).symm
  have classes : isTagChar c =
      (c.isDigit || c.isUpper || c.isLower || c == '.' || c == '-') := by
    rw [← upper]
    rfl
  have alphanum : c.isAlphanum = (c.isUpper || c.isLower || c.isDigit) := rfl
  simp only [classes, alphanum, Bool.or_eq_true, beq_iff_eq, or_assoc, or_left_comm]

theorem tag_iff {tag : String} :
    Tag tag ↔ tag.toList ≠ [] ∧ ∀ c ∈ tag.toList, isTagChar c = true := by
  simp only [isTagChar_iff, ne_eq, String.toList_eq_nil_iff]
  exact ⟨fun valid => ⟨valid.nonempty, valid.plain⟩, fun ⟨nonempty, plain⟩ => ⟨nonempty, plain⟩⟩

theorem buildOnly_iff {rest : List Char} :
    buildOnly rest = true ↔ ∃ build, (∀ tag ∈ build, Tag tag) ∧ rest = buildText build := by
  constructor
  · intro only
    unfold buildOnly at only
    split at only
    next => exact ⟨none, by simp, rfl⟩
    next chars =>
      simp only [Bool.and_eq_true, Bool.not_eq_true', List.isEmpty_eq_false_iff,
        List.all_eq_true] at only
      refine ⟨some (String.ofList chars), ?_, by simp [buildText]⟩
      rintro _ ⟨⟩
      rw [tag_iff, String.toList_ofList]
      exact only
    next => cases only
  · rintro ⟨build, valid, rfl⟩
    cases build with
    | none => rfl
    | some build =>
        obtain ⟨nonempty, plain⟩ := tag_iff.mp (valid build rfl)
        simpa [buildText, buildOnly, nonempty] using plain

theorem prerelease?_complete {pre : Option String} (valid : ∀ tag ∈ pre, Tag tag)
    {rest : List Char} (ends : ∀ c ∈ rest.head?, isTagChar c = false) :
    prerelease? (preText pre ++ rest) = some (pre, rest) := by
  cases pre with
  | none =>
      cases rest with
      | nil => rfl
      | cons c rest =>
          have other : c ≠ '-' := by
            rintro rfl
            exact absurd (ends '-' rfl) (by decide)
          simp [preText, prerelease?, other]
  | some pre =>
      obtain ⟨nonempty, plain⟩ := tag_iff.mp (valid pre rfl)
      have whole : (pre.toList ++ rest).takeWhile isTagChar = pre.toList := by
        rw [List.takeWhile_append_of_pos plain]
        cases rest with
        | nil => simp
        | cons c rest => simp [ends c rfl]
      have left : (pre.toList ++ rest).dropWhile isTagChar = rest := by
        rw [List.dropWhile_append_of_pos plain]
        cases rest with
        | nil => rfl
        | cons c rest => simp [ends c rfl]
      simp [preText, prerelease?, tag?, whole, left, nonempty]

theorem prerelease?_sound {s rest : List Char} {pre : Option String}
    (read : prerelease? s = some (pre, rest)) :
    (∀ tag ∈ pre, Tag tag) ∧ s = preText pre ++ rest := by
  unfold prerelease? at read
  split at read
  next after =>
    obtain ⟨⟨tag, left⟩, readTag, same⟩ := Option.map_eq_some_iff.mp read
    cases same
    simp only [tag?, Option.ite_none_left_eq_some, Option.some.injEq, Prod.mk.injEq] at readTag
    obtain ⟨nonempty, rfl, rfl⟩ := readTag
    refine ⟨?_, by simp [preText]⟩
    rintro _ ⟨⟩
    rw [tag_iff, String.toList_ofList]
    exact ⟨by simpa using nonempty, fun c member => List.mem_takeWhile_imp member⟩
  next =>
    cases read
    exact ⟨by simp, rfl⟩

/-! Whole versions -/

variable {spelling : Spelling}

theorem exists_dropMark (s : List Char) :
    ∃ marked : Bool, s = (if marked then ['v'] else []) ++ dropMark s := by
  unfold dropMark
  split
  next rest => exact ⟨true, rfl⟩
  next => exact ⟨false, rfl⟩

theorem Spelling.Valid.plain (valid : spelling.Valid) :
    ∀ c ∈ spelling.text, c = '+' ∨ isTagChar c = true := by
  have digits {chars : List Char} (numeral : Numeral chars) :
      ∀ c ∈ chars, c = '+' ∨ isTagChar c = true := fun c member =>
    .inr (isTagChar_of_isDigit (numeral.decimal c member))
  have tag {given : String} (isTag : Tag given) :
      ∀ c ∈ given.toList, c = '+' ∨ isTagChar c = true :=
    fun c member => .inr ((tag_iff.mp isTag).2 c member)
  simp only [Spelling.text, List.forall_mem_append]
  refine ⟨?_, digits valid.first, ?_, ?_, ?_⟩
  · cases spelling.marked <;> simp [isTagChar]
  · intro c member
    obtain ⟨segment, listed, inside⟩ := List.mem_flatMap.mp member
    rcases List.mem_cons.mp inside with rfl | inside
    · exact .inr rfl
    · exact digits (valid.others segment listed) c inside
  · cases present : spelling.pre with
    | none => exact List.forall_mem_nil _
    | some pre => exact List.forall_mem_cons.mpr ⟨.inr rfl, tag (valid.pre pre present)⟩
  · cases present : spelling.build with
    | none => exact List.forall_mem_nil _
    | some build => exact List.forall_mem_cons.mpr ⟨.inl rfl, tag (valid.build build present)⟩

theorem Spelling.Valid.visible (valid : spelling.Valid) :
    ∀ c ∈ spelling.text, isBlank c = false := by
  intro c member
  rcases valid.plain c member with rfl | tagChar
  · rfl
  · exact not_isBlank_of_isTagChar tagChar

theorem Spelling.Valid.dropMark (valid : spelling.Valid) :
    dropMark spelling.text = spelling.first ++ (segmentsText spelling.others ++
      (preText spelling.pre ++ buildText spelling.build)) := by
  obtain ⟨c, digits, split⟩ := List.exists_cons_of_ne_nil valid.first.nonempty
  have digit : c.isDigit = true := valid.first.decimal c (by simp [split])
  have other : c ≠ 'v' := by
    rintro rfl
    cases digit
  rw [Spelling.text, split]
  cases spelling.marked <;> simp [Version.dropMark, other]

theorem Spelling.Valid.spells (valid : spelling.Valid) :
    spelling.Spells (String.ofList spelling.text) :=
  ⟨valid, [], [], List.forall_mem_nil _, List.forall_mem_nil _, by simp⟩

theorem Spelling.Spells.trimmed {input : String} (spells : spelling.Spells input) :
    trimBlank input.toList = spelling.text := by
  obtain ⟨valid, lead, trail, blankLead, blankTrail, split⟩ := spells
  have nonempty : spelling.text ≠ [] := by simp [Spelling.text, valid.first.nonempty]
  rw [split]
  exact trimBlank_surrounded blankLead blankTrail nonempty
    (fun c front => valid.visible c (List.mem_of_mem_head? front))
    fun c back => valid.visible c (List.mem_of_mem_getLast? back)

theorem parseWithPrecision_of_spells {input : String} (spells : spelling.Spells input) :
    parseWithPrecision input = some (spelling.version, spelling.written) := by
  have valid := spells.1
  -- what follows the numbers begins with the mark of a tag, if at all
  have tags : ∀ c ∈ (preText spelling.pre ++ buildText spelling.build).head?,
      c = '-' ∨ c = '+' := by
    cases spelling.pre <;> cases spelling.build <;> simp [preText, buildText]
  have buildMark : ∀ c ∈ (buildText spelling.build).head?, isTagChar c = false := by
    cases spelling.build with
    | none => simp [buildText]
    | some build =>
        rintro _ ⟨⟩
        rfl
  have undigited : Undigited (preText spelling.pre ++ buildText spelling.build) := by
    intro c front
    rcases tags c front with rfl | rfl <;> rfl
  have noPoint : ∀ c ∈ (preText spelling.pre ++ buildText spelling.build).head?, c ≠ '.' := by
    intro c front
    rcases tags c front with rfl | rfl <;> decide
  have firstEnds : Undigited (segmentsText spelling.others ++
      (preText spelling.pre ++ buildText spelling.build)) := by
    cases spelling.others with
    | nil => exact undigited
    | cons digits others =>
        rintro _ ⟨⟩
        rfl
  obtain ⟨taken, dropped⟩ := valid.first.span firstEnds
  have only : buildOnly (buildText spelling.build) = true :=
    buildOnly_iff.mpr ⟨spelling.build, valid.build, rfl⟩
  rw [parseWithPrecision, spells.trimmed, valid.dropMark]
  simp only [taken, dropped, valid.first.read,
    segments?_complete valid.others undigited noPoint valid.atMostThree,
    prerelease?_complete valid.pre buildMark, only, Option.bind_eq_bind, Option.bind_some]
  simp [Spelling.version, Spelling.written]

theorem exists_spells {input : String} {version : Version} {precision : Nat}
    (parsed : parseWithPrecision input = some (version, precision)) :
    ∃ spelling : Spelling, spelling.Spells input ∧ version = spelling.version ∧
      precision = spelling.written := by
  simp only [parseWithPrecision, Option.bind_eq_bind, Option.bind_eq_some_iff] at parsed
  obtain ⟨major, readMajor, ⟨segments, afterSegments⟩, readSegments, ⟨pre, afterPre⟩, readPre,
    parsed⟩ := parsed
  simp only [Option.ite_none_right_eq_some, Option.some.injEq, Prod.mk.injEq] at parsed
  obtain ⟨only, rfl, rfl⟩ := parsed
  obtain ⟨lead, trail, blankLead, blankTrail, split⟩ := exists_surrounding input.toList
  obtain ⟨marked, unmarked⟩ := exists_dropMark (trimBlank input.toList)
  obtain ⟨first, numeral, splitFirst, rfl⟩ := numeral_of_read readMajor
  obtain ⟨others, numerals, few, splitOthers, rfl⟩ := segments?_sound readSegments
  obtain ⟨preTag, splitPre⟩ := prerelease?_sound (s := afterSegments) readPre
  obtain ⟨build, buildTag, rfl⟩ := buildOnly_iff.mp only
  have spelled : trimBlank input.toList = Spelling.text ⟨marked, first, others, pre, build⟩ := by
    rw [unmarked, splitFirst, splitOthers, splitPre]
    rfl
  exact ⟨⟨marked, first, others, pre, build⟩, ⟨⟨numeral, numerals, few, preTag, buildTag⟩,
    lead, trail, blankLead, blankTrail, spelled ▸ split⟩, rfl, by simp [Spelling.written]⟩

theorem comma_not_mem_of_parsed {input : String} {version : Version} {precision : Nat}
    (parsed : parseWithPrecision input = some (version, precision)) : ',' ∉ input.toList := by
  obtain ⟨spelling, spells, rfl, rfl⟩ := exists_spells parsed
  obtain ⟨valid, lead, trail, blankLead, blankTrail, split⟩ := spells
  rw [split]
  simp only [List.mem_append, not_or]
  refine ⟨fun member => absurd (blankLead ',' member) (by decide), fun member => ?_,
    fun member => absurd (blankTrail ',' member) (by decide)⟩
  rcases valid.plain ',' member with plus | tagChar
  · exact absurd plus (by decide)
  · exact absurd tagChar (by decide)

theorem parse_eq_some_iff {input : String} {version : Version} :
    parse input = some version ↔
      ∃ spelling : Spelling, spelling.Spells input ∧ version = spelling.version := by
  have first : parse input = some version ↔
      ∃ precision, parseWithPrecision input = some (version, precision) := by
    simp [parse, Option.map_eq_map]
  rw [first]
  constructor
  · rintro ⟨precision, parsed⟩
    obtain ⟨spelling, spells, same, -⟩ := exists_spells parsed
    exact ⟨spelling, spells, same⟩
  · rintro ⟨spelling, spells, rfl⟩
    exact ⟨spelling.written, parseWithPrecision_of_spells spells⟩

/-! What a text can give -/

structure Written (version : Version) (precision : Nat) : Prop where
  pre : ∀ pre ∈ version.pre, pre.toList ≠ [] ∧ ∀ c ∈ pre.toList, isTagChar c = true
  atLeastOne : 1 ≤ precision
  atMostThree : precision ≤ 3
  /-- A segment that was not written is zero. -/
  minor : precision = 1 → version.minor = 0

theorem written_of_parse {input : String} {version : Version} {precision : Nat}
    (parsed : parseWithPrecision input = some (version, precision)) :
    version.Written precision := by
  obtain ⟨spelling, ⟨valid, -⟩, rfl, rfl⟩ := exists_spells parsed
  have few := valid.atMostThree
  refine ⟨fun tag present => tag_iff.mp (valid.pre tag present), ?_, ?_, fun single => ?_⟩
  · exact Nat.le_add_right 1 _
  · rw [Spelling.written]
    omega
  · have none : spelling.others = [] := by
      refine List.eq_nil_of_length_eq_zero ?_
      rw [Spelling.written] at single
      omega
    simp [Spelling.version, none]

/-! Reading a version back -/

theorem toList_toString (n : UInt64) : (toString n).toList = Nat.toDigits 10 n.toNat := by
  simp [toString]

theorem all_isDigit_toDigits (n : Nat) : ∀ c ∈ Nat.toDigits 10 n, isDigit c = true := by
  intro c member
  rw [isDigit_eq]
  exact Nat.isDigit_of_mem_toDigits (by decide) (by decide) member

theorem numeralValue_toDigits (n : Nat) : numeralValue (Nat.toDigits 10 n) = n :=
  Nat.ofDigitChars_toDigits (by decide) (by decide)

theorem numeral_toDigits (n : UInt64) : Numeral (Nat.toDigits 10 n.toNat) where
  nonempty := Nat.toDigits_ne_nil
  decimal := all_isDigit_toDigits n.toNat
  fits := by
    rw [numeralValue_toDigits]
    exact n.toNat_lt

theorem exists_digit (n : Nat) : ∃ c chars, Nat.toDigits 10 n = c :: chars ∧ isDigit c = true := by
  obtain ⟨c, chars, digits⟩ := List.exists_cons_of_ne_nil (Nat.toDigits_ne_nil (n := n) (b := 10))
  exact ⟨c, chars, digits, all_isDigit_toDigits n c (by simp [digits])⟩

theorem toList_render (version : Version) : version.render.toList =
    Nat.toDigits 10 version.major.toNat ++ '.' :: (Nat.toDigits 10 version.minor.toNat ++
      '.' :: (Nat.toDigits 10 version.patch.toNat ++ preText version.pre)) := by
  obtain ⟨major, minor, patch, pre⟩ := version
  have point : toString "." = "." := rfl
  cases pre <;> simp [render, preText, toList_toString, point]

def spelledOut (version : Version) : Spelling where
  first := Nat.toDigits 10 version.major.toNat
  others := [Nat.toDigits 10 version.minor.toNat, Nat.toDigits 10 version.patch.toNat]
  pre := version.pre

variable {version : Version} {precision : Nat}

theorem spelledOut_spells (written : version.Written precision) :
    version.spelledOut.Spells version.render where
  left := {
    first := numeral_toDigits version.major
    others := by simp [spelledOut, numeral_toDigits]
    atMostThree := Nat.le.refl
    pre := fun tag present => tag_iff.mpr (written.pre tag present)
    build := by simp [spelledOut] }
  right := by
    refine ⟨[], [], List.forall_mem_nil _, List.forall_mem_nil _, ?_⟩
    rw [toList_render]
    simp [Spelling.text, spelledOut, segmentsText, buildText]

theorem version_spelledOut (version : Version) : version.spelledOut.version = version := by
  simp [Spelling.version, spelledOut, numeralValue_toDigits]

/-- A version is read back, but always with three segments. -/
theorem parseWithPrecision_render (written : version.Written precision) :
    parseWithPrecision version.render = some (version, 3) := by
  rw [parseWithPrecision_of_spells (spelledOut_spells written), version_spelledOut]
  rfl

theorem parseWithPrecision_blank (input : String) :
    parseWithPrecision (" " ++ input) = parseWithPrecision input := by
  have chars : (" " ++ input).toList = ' ' :: input.toList := String.toList_append
  rw [parseWithPrecision, chars, trimBlank_cons rfl, parseWithPrecision]

end Version

end ConfigContract
