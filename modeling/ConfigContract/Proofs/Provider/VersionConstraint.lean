import ConfigContract.Proofs.Except
import ConfigContract.Proofs.Provider.Version
import ConfigContract.Provider.VersionConstraint
import Mathlib.Data.List.Basic

/-!
Constraints as texts. A requirement is written as an operator or none, white space and a version.
The text of a constraint is read again, but with all three segments of each version, so a
pessimistic requirement that was written with fewer allows fewer versions.
-/

namespace ConfigContract

namespace Requirement

def spelledOut (requirement : Requirement) : Requirement := { requirement with precision := 3 }

def Fixes (requirement : Requirement) (candidate : Version) : Prop :=
  requirement.operator = .pessimistic →
    candidate.major = requirement.version.major ∧ candidate.minor = requirement.version.minor

/-- A pessimistic requirement that leaves no room below its third segment: it was written with all
three, or with two of which the second cannot grow. -/
def SpellsOut (requirement : Requirement) : Prop :=
  requirement.operator = .pessimistic → requirement.precision = 3 ∨
    requirement.precision = 2 ∧ requirement.version.minor.toNat + 1 = UInt64.size

/-! The grammar -/

/-- The text of an operator. Where none is written, equality is meant. -/
def symbolText : Option Operator → List Char
  | none => []
  | some operator => operator.symbol.toList

/-- The parts of a written requirement: an operator or none, white space or none, and a version,
which holds no white space. -/
structure Spelling where
  operator : Option Operator := none
  gap : List Char := []
  version : Version.Spelling

namespace Spelling

def text (spelling : Spelling) : List Char :=
  symbolText spelling.operator ++ (spelling.gap ++ spelling.version.text)

structure Valid (spelling : Spelling) : Prop where
  gap : ∀ c ∈ spelling.gap, isBlank c = true
  version : spelling.version.Valid

def requirement (spelling : Spelling) : Requirement :=
  ⟨spelling.operator.getD .equal, spelling.version.version, spelling.version.written⟩

end Spelling

def BeginsSymbol (c : Char) : Prop := c ∈ ['=', '!', '>', '<', '~']

theorem scan_of_plain {s : List Char} (plain : ∀ c ∈ s.head?, ¬ BeginsSymbol c) :
    Operator.scan s = (.equal, s) := by
  cases s with
  | nil => rfl
  | cons c rest =>
      have other : ¬ BeginsSymbol c := plain c rfl
      simp only [BeginsSymbol, List.mem_cons, List.not_mem_nil, or_false, not_or] at other
      simp [Operator.scan, other]

/-- A symbol is scanned alone where no `=` makes a longer one of it. -/
theorem scan_symbol (operator : Operator) {rest : List Char} (ends : ∀ c ∈ rest.head?, c ≠ '=') :
    Operator.scan (operator.symbol.toList ++ rest) = (operator, rest) := by
  cases rest with
  | nil => cases operator <;> rfl
  | cons c rest =>
      have other : c ≠ '=' := ends c rfl
      cases operator <;> simp [Operator.symbol, Operator.scan, other]

/-- Whatever is scanned is one of the symbols or nothing. -/
theorem exists_symbol {s rest : List Char} {operator : Operator}
    (scanned : Operator.scan s = (operator, rest)) :
    ∃ written : Option Operator, operator = written.getD .equal ∧ s = symbolText written ++ rest := by
  unfold Operator.scan at scanned
  split at scanned <;> cases scanned
  next => exact ⟨some .equal, rfl, rfl⟩
  next => exact ⟨some .different, rfl, rfl⟩
  next => exact ⟨some .atLeast, rfl, rfl⟩
  next => exact ⟨some .atMost, rfl, rfl⟩
  next => exact ⟨some .greater, rfl, rfl⟩
  next => exact ⟨some .less, rfl, rfl⟩
  next => exact ⟨some .pessimistic, rfl, rfl⟩
  next => exact ⟨none, rfl, rfl⟩

variable {spelling : Spelling}

theorem Spelling.Valid.plain (valid : spelling.Valid) :
    ∀ c ∈ (spelling.gap ++ spelling.version.text).head?, ¬ BeginsSymbol c := by
  have apart : ∀ c ∈ ['=', '!', '>', '<', '~'],
      (!isBlank c && c != '+' && !Version.isTagChar c) = true := List.all_eq_true.mp rfl
  intro c front begins
  have other := apart c begins
  simp only [Bool.and_eq_true, Bool.not_eq_true', bne_iff_ne] at other
  obtain ⟨⟨visible, notPlus⟩, notTagChar⟩ := other
  rcases List.mem_append.mp (List.mem_of_mem_head? front) with inGap | inVersion
  · exact absurd (valid.gap c inGap) (by simp [visible])
  · rcases valid.version.plain c inVersion with plus | tagChar
    · exact notPlus plus
    · exact absurd tagChar (by simp [notTagChar])

theorem Spelling.Valid.scan (valid : spelling.Valid) :
    Operator.scan spelling.text =
      (spelling.operator.getD .equal, spelling.gap ++ spelling.version.text) := by
  obtain ⟨written, gap, version⟩ := spelling
  have plain := valid.plain
  cases written with
  | none => exact scan_of_plain plain
  | some operator =>
      refine scan_symbol operator fun c front same => plain c front ?_
      simp [BeginsSymbol, same]

theorem parse_of_spelling (valid : spelling.Valid) {part : List Char}
    (trimmed : trimBlank part = spelling.text) : parse part = some spelling.requirement := by
  have visible := valid.version.visible
  have front : ∀ c ∈ spelling.version.text.head?, isBlank c = false := fun c first =>
    visible c (List.mem_of_mem_head? first)
  have written : (spelling.gap ++ spelling.version.text).dropWhile isBlank =
      spelling.version.text := by
    rw [List.dropWhile_append_of_pos valid.gap, dropWhile_isBlank_of_front front]
  have unbroken : spelling.version.text.any isBlank = false := by simpa using visible
  simp [parse, trimmed, valid.scan, written, unbroken,
    Version.parseWithPrecision_of_spells valid.version.spells, Spelling.requirement]

theorem exists_spelling {part : List Char} {requirement : Requirement}
    (parsed : parse part = some requirement) : ∃ spelling : Spelling,
      spelling.Valid ∧ trimBlank part = spelling.text ∧ requirement = spelling.requirement := by
  cases scanned : Operator.scan (trimBlank part) with
  | mk operator rest =>
      simp only [parse, scanned, Option.ite_none_left_eq_some, Bool.not_eq_true,
        Option.map_eq_some_iff] at parsed
      obtain ⟨unbroken, ⟨version, precision⟩, read, rfl⟩ := parsed
      obtain ⟨written, rfl, split⟩ := exists_symbol scanned
      obtain ⟨spelling, spells, rfl, rfl⟩ := Version.exists_spells read
      -- without white space inside, the version is all that is left
      have whole : rest.dropWhile isBlank = spelling.text := by
        rw [← spells.trimmed, String.toList_ofList, trimBlank_of_visible (by simpa using unbroken)]
      refine ⟨⟨written, rest.takeWhile isBlank, spelling⟩,
        ⟨fun c member => List.mem_takeWhile_imp member, spells.1⟩, ?_, rfl⟩
      rw [split, Spelling.text, ← whole, List.takeWhile_append_dropWhile]

theorem parse_eq_some_iff {part : List Char} {requirement : Requirement} :
    parse part = some requirement ↔ ∃ spelling : Spelling,
      spelling.Valid ∧ trimBlank part = spelling.text ∧ requirement = spelling.requirement := by
  constructor
  · exact exists_spelling
  · rintro ⟨spelling, valid, trimmed, rfl⟩
    exact parse_of_spelling valid trimmed

/-! Reading a requirement back -/

variable {requirement : Requirement} {precision : Nat}

theorem written_of_parse {part : List Char} (parsed : parse part = some requirement) :
    requirement.version.Written requirement.precision := by
  simp only [parse, Option.ite_none_left_eq_some, Option.map_eq_some_iff] at parsed
  obtain ⟨-, ⟨version, precision⟩, parsed, rfl⟩ := parsed
  exact Version.written_of_parse parsed

theorem toList_render (requirement : Requirement) : requirement.render.toList =
    requirement.operator.symbol.toList ++ ' ' :: requirement.version.render.toList := by
  simp [render, String.toList_append]

theorem parse_symbol (operator : Operator)
    {input : String} {version : Version}
    (parsed : Version.parseWithPrecision input = some (version, precision)) :
    parse (operator.symbol.toList ++ input.toList) = some ⟨operator, version, precision⟩ := by
  obtain ⟨spelling, spells, rfl, rfl⟩ := Version.exists_spells parsed
  have nonempty : spelling.text ≠ [] := by simp [Version.Spelling.text, spells.1.first.nonempty]
  obtain ⟨lead, trail, blankLead, blankTrail, split⟩ := spells.2
  have trimmed : trimBlank (operator.symbol.toList ++ input.toList) =
      operator.symbol.toList ++ (lead ++ spelling.text) := by
    have around := trimBlank_surrounded (s := operator.symbol.toList ++ (lead ++ spelling.text))
      (List.forall_mem_nil _) blankTrail (by simp [nonempty])
      (by cases operator <;> simp [Operator.symbol] <;> decide) (by
        intro c last
        rw [List.getLast?_append_of_ne_nil _ (by simp [nonempty]),
          List.getLast?_append_of_ne_nil _ nonempty] at last
        exact spells.1.visible c (List.mem_of_mem_getLast? last))
    rw [split]
    simpa using around
  have valid : (Spelling.mk (some operator) lead spelling).Valid := ⟨blankLead, spells.1⟩
  exact parse_of_spelling valid trimmed

theorem parsed_render (written : requirement.version.Written precision) :
    Version.parseWithPrecision (" " ++ requirement.version.render) =
      some (requirement.version, 3) := by
  rw [Version.parseWithPrecision_blank, Version.parseWithPrecision_render written]

theorem parse_render (written : requirement.version.Written precision) :
    parse requirement.render.toList = some requirement.spelledOut := by
  have read := parse_symbol requirement.operator (parsed_render written)
  rw [toList_render]
  simpa [String.toList_append, spelledOut] using read

theorem parse_blank_cons (part : List Char) : parse (' ' :: part) = parse part := by
  rw [parse, trimBlank_cons rfl, parse]

theorem comma_not_mem_render (written : requirement.version.Written precision) :
    ',' ∉ requirement.render.toList := by
  have plain := Version.comma_not_mem_of_parsed (parsed_render written)
  rw [render, String.append_assoc, String.toList_append, List.mem_append, not_or]
  exact ⟨by cases requirement.operator <;> decide, plain⟩

/-! What is allowed -/

theorem allows_spelledOut (requirement : Requirement) (candidate : Version) :
    requirement.spelledOut.allows candidate = true ↔
      requirement.allows candidate = true ∧ requirement.Fixes candidate := by
  obtain ⟨operator, version, precision⟩ := requirement
  cases operator with
  | pessimistic =>
      simp only [spelledOut, allows, Fixes, Bool.and_eq_true, beq_iff_eq, true_implies]
      constructor
      · rintro ⟨notBelow, same⟩
        refine ⟨⟨notBelow, ?_⟩, same⟩
        split <;> simp [same]
      · rintro ⟨⟨notBelow, -⟩, same⟩
        exact ⟨notBelow, same⟩
  | equal | different | greater | atLeast | less | atMost =>
      simp [spelledOut, allows, Fixes]

theorem fixes_of_spellsOut (spells : requirement.SpellsOut) {candidate : Version}
    (allowed : requirement.allows candidate = true) : requirement.Fixes candidate := by
  obtain ⟨operator, version, precision⟩ := requirement
  intro pessimistic
  subst pessimistic
  simp only [allows, Bool.and_eq_true] at allowed
  rcases spells rfl with rfl | ⟨rfl, greatest⟩
  · simpa using allowed.2
  · obtain ⟨notBelow, sameMajor⟩ := allowed
    have major : candidate.major = version.major := by simpa using sameMajor
    refine ⟨major, ?_⟩
    -- nothing is above the second segment, and a version below it is not allowed
    have notLess : compare candidate.minor version.minor ≠ .lt := by
      intro less
      simp [Version.order, major, less] at notBelow
    have atLeast : version.minor.toNat ≤ candidate.minor.toNat := by
      rw [ne_eq, Std.compare_eq_lt, UInt64.lt_iff_toNat_lt] at notLess
      omega
    have bound : candidate.minor.toNat < UInt64.size := candidate.minor.toNat_lt
    have last : version.minor.toNat + 1 = UInt64.size := greatest
    exact UInt64.toNat_inj.mp (by omega)

/-- A pessimistic requirement that is not spelled out allows a version with a later minor. -/
theorem exists_not_fixes (written : requirement.version.Written requirement.precision)
    (room : ¬ requirement.SpellsOut) :
    ∃ candidate, requirement.allows candidate = true ∧ ¬ requirement.Fixes candidate := by
  obtain ⟨operator, version, precision⟩ := requirement
  simp only [SpellsOut, Classical.not_imp, not_or, not_and] at room
  obtain ⟨rfl, notThree, notGreatest⟩ := room
  have few : precision = 1 ∨ precision = 2 := by
    have lower := written.atLeastOne
    have upper := written.atMostThree
    simp only at lower upper
    omega
  have next : (version.minor + 1).toNat = version.minor.toNat + 1 := by
    have bound : version.minor.toNat < UInt64.size := version.minor.toNat_lt
    have below : version.minor.toNat + 1 < UInt64.size := by
      rcases few with one | two
      · have zero : version.minor = 0 := written.minor one
        rw [zero]
        decide
      · have notLast := notGreatest two
        omega
    rw [UInt64.toNat_add]
    exact Nat.mod_eq_of_lt below
  have later : compare (version.minor + 1) version.minor = .gt := by
    rw [Std.compare_eq_gt, UInt64.lt_iff_toNat_lt]
    omega
  refine ⟨⟨version.major, version.minor + 1, 0, none⟩, ?_, fun fixes => ?_⟩
  · simp only [allows, Version.order, later, Bool.and_eq_true]
    refine ⟨by simp, ?_⟩
    rcases few with rfl | rfl <;> simp
  · have same := congrArg UInt64.toNat (fixes rfl).2
    simp only at same
    omega

end Requirement

namespace VersionConstraint

variable {constraint : VersionConstraint}

def spelledOut (constraint : VersionConstraint) : VersionConstraint :=
  ⟨constraint.requirements.map Requirement.spelledOut⟩

theorem written_of_parse {input : String} (parsed : parse input = some constraint) :
    ∀ requirement ∈ constraint.requirements,
      requirement.version.Written requirement.precision := by
  unfold parse at parsed
  split at parsed
  next =>
    cases parsed
    exact List.forall_mem_nil _
  next =>
    obtain ⟨requirements, readParts, rfl⟩ := Option.map_eq_some_iff.mp parsed
    intro requirement member
    obtain ⟨part, -, parsedPart⟩ := mem_of_mapM_eq_some readParts member
    exact Requirement.written_of_parse parsedPart

theorem toList_render (constraint : VersionConstraint) : constraint.render.toList =
    [',', ' '].intercalate (constraint.requirements.map fun requirement =>
      requirement.render.toList) := by
  rw [render, String.toList_intercalate, List.map_map]
  rfl

/-- A constraint is read back with all its versions spelled out. -/
theorem parse_render (written : ∀ requirement ∈ constraint.requirements,
    requirement.version.Written requirement.precision) :
    parse constraint.render = some constraint.spelledOut := by
  obtain ⟨requirements⟩ := constraint
  cases requirements with
  | nil => rfl
  | cons first rest =>
      obtain ⟨firstWritten, restWritten⟩ := List.forall_mem_cons.mp written
      have plain : ∀ part ∈ first.render.toList :: rest.map (fun requirement =>
          requirement.render.toList), ',' ∉ part := by
        refine List.forall_mem_cons.mpr
          ⟨Requirement.comma_not_mem_render firstWritten, fun part member => ?_⟩
        obtain ⟨requirement, listed, rfl⟩ := List.mem_map.mp member
        exact Requirement.comma_not_mem_render (restWritten requirement listed)
      have parts : splitAtChar ',' (VersionConstraint.mk (first :: rest)).render.toList =
          first.render.toList :: rest.map fun requirement => ' ' :: requirement.render.toList := by
        rw [toList_render, List.map_cons, splitAtChar_intercalate (by decide) plain, List.map_map]
        rfl
      have others : (rest.map fun requirement => ' ' :: requirement.render.toList).mapM
          Requirement.parse = some (rest.map Requirement.spelledOut) := by
        refine mapM_map_eq_some fun requirement member => ?_
        rw [Requirement.parse_blank_cons,
          Requirement.parse_render (restWritten requirement member)]
      have visible : trimBlank (VersionConstraint.mk (first :: rest)).render.toList ≠ [] := by
        rw [ne_eq, trimBlank_eq_nil_iff]
        intro blank
        obtain ⟨c, chars, digits, digit⟩ := Version.exists_digit first.version.major.toNat
        have shown : c ∈ first.render.toList := by
          simp [Requirement.toList_render, Version.toList_render, digits]
        have known : c ∈ (VersionConstraint.mk (first :: rest)).render.toList := by
          rw [toList_render, List.map_cons]
          cases rest with
          | nil => simpa using shown
          | cons next rest => simp [shown]
        have tagChar := Version.isTagChar_of_isDigit digit
        exact absurd (blank c known) (by simp [Version.not_isBlank_of_isTagChar tagChar])
      rw [parse, if_neg (by simpa using visible), parts, List.mapM_cons,
        Requirement.parse_render firstWritten, others]
      rfl

theorem allows_spelledOut (constraint : VersionConstraint) (candidate : Version) :
    constraint.spelledOut.allows candidate = true ↔
      constraint.allows candidate = true ∧
        ∀ requirement ∈ constraint.requirements, requirement.Fixes candidate := by
  simp only [spelledOut, allows, List.all_map, List.all_eq_true, Function.comp_apply,
    Requirement.allows_spelledOut]
  constructor
  · intro all
    exact ⟨fun requirement member => (all requirement member).1,
      fun requirement member => (all requirement member).2⟩
  · rintro ⟨allowed, fixed⟩ requirement member
    exact ⟨allowed requirement member, fixed requirement member⟩

theorem same_of_spellsOut (spells : ∀ requirement ∈ constraint.requirements,
    requirement.SpellsOut) (candidate : Version) :
    constraint.spelledOut.allows candidate = constraint.allows candidate := by
  rw [Bool.eq_iff_iff, allows_spelledOut]
  constructor
  · exact And.left
  · intro allowed
    refine ⟨allowed, fun requirement member => ?_⟩
    have each := List.all_eq_true.mp allowed requirement member
    exact Requirement.fixes_of_spellsOut (spells requirement member) each

/-- The text of a constraint is a constraint again. It allows what the constraint allows, except
versions that leave the major and minor segment of a pessimistic requirement; nothing is lost where
every pessimistic requirement is spelled out, and of a single requirement only then. -/
theorem reread_allows (input : String) (constraint : VersionConstraint)
    (parsed : parse input = some constraint) :
    ∃ reread, parse constraint.render = some reread ∧
      (∀ candidate, reread.allows candidate = true ↔ constraint.allows candidate = true ∧
        ∀ requirement ∈ constraint.requirements, requirement.operator = .pessimistic →
          candidate.major = requirement.version.major ∧
            candidate.minor = requirement.version.minor) ∧
      ((∀ requirement ∈ constraint.requirements, requirement.SpellsOut) →
        ∀ candidate, reread.allows candidate = constraint.allows candidate) ∧
      ∀ requirement, constraint.requirements = [requirement] →
        ((∀ candidate, reread.allows candidate = constraint.allows candidate) ↔
          requirement.SpellsOut) := by
  have written := written_of_parse parsed
  refine ⟨constraint.spelledOut, parse_render written, constraint.allows_spelledOut,
    same_of_spellsOut, fun requirement only => ?_⟩
  constructor
  · intro same
    by_contra room
    obtain ⟨candidate, allowed, moved⟩ :=
      Requirement.exists_not_fixes (written requirement (by simp [only])) room
    have whole : constraint.allows candidate = true := by simp [allows, only, allowed]
    have kept := (constraint.allows_spelledOut candidate).mp ((same candidate).trans whole)
    exact moved (kept.2 requirement (by simp [only]))
  · intro spells
    exact same_of_spellsOut (by simpa [only] using spells)

/-- The second requirement has no room: no minor segment is greater. -/
theorem spelled_range_reread : ∃ constraint reread,
    parse ">= v1.2-rc.1 , ~>2.18446744073709551615" = some constraint ∧
    constraint.render = ">= 1.2.0-rc.1, ~> 2.18446744073709551615.0" ∧
    parse constraint.render = some reread ∧
    ∀ candidate, reread.allows candidate = constraint.allows candidate := by
  have parsed : parse ">= v1.2-rc.1 , ~>2.18446744073709551615" =
      some ⟨[⟨.atLeast, ⟨1, 2, 0, some "rc.1"⟩, 2⟩,
        ⟨.pessimistic, ⟨2, 18446744073709551615, 0, none⟩, 2⟩]⟩ := by decide +kernel
  obtain ⟨reread, parsedAgain, -, kept, -⟩ := reread_allows _ _ parsed
  refine ⟨_, reread, parsed, by decide +kernel, parsedAgain, kept ?_⟩
  simp only [List.forall_mem_cons]
  exact ⟨fun other => absurd other (by decide), fun _ => .inr ⟨rfl, rfl⟩, List.forall_mem_nil _⟩

/-- A later minor version is allowed, but not any more by what the constraint's text is read as. -/
theorem minor_range_narrowed : ∃ constraint reread,
    parse "~> 5.31" = some constraint ∧ constraint.render = "~> 5.31.0" ∧
    parse constraint.render = some reread ∧
    constraint.allows ⟨5, 99, 0, none⟩ = true ∧ reread.allows ⟨5, 99, 0, none⟩ = false := by
  refine ⟨⟨[⟨.pessimistic, ⟨5, 31, 0, none⟩, 2⟩]⟩, ⟨[⟨.pessimistic, ⟨5, 31, 0, none⟩, 3⟩]⟩, ?_⟩
  decide +kernel

end VersionConstraint

end ConfigContract
