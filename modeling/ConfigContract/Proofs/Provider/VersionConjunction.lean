import ConfigContract.Proofs.Provider.VersionConstraint

/-!
Constraints as lists of requirements. A version is allowed if every part between commas allows it,
so neither the order of the parts nor their number counts, and a further part only takes away.
-/

namespace ConfigContract

def Blank (s : List Char) : Prop := ∀ c ∈ s, isBlank c = true

namespace Requirement

def IsPart (part : List Char) : Prop :=
  ∃ spelling : Spelling, spelling.Valid ∧ part = spelling.text

def PartAllows (part : List Char) (version : Version) : Prop :=
  ∃ spelling : Spelling, spelling.Valid ∧ part = spelling.text ∧
    spelling.requirement.allows version = true

theorem exists_parse_iff {part : List Char} {good : Requirement → Prop} :
    (∃ requirement, parse part = some requirement ∧ good requirement) ↔
      ∃ spelling : Spelling, spelling.Valid ∧ trimBlank part = spelling.text ∧
        good spelling.requirement := by
  simp only [parse_eq_some_iff]
  constructor
  · rintro ⟨_, ⟨spelling, valid, trimmed, rfl⟩, holds⟩
    exact ⟨spelling, valid, trimmed, holds⟩
  · rintro ⟨spelling, valid, trimmed, holds⟩
    exact ⟨spelling.requirement, ⟨spelling, valid, trimmed, rfl⟩, holds⟩

theorem not_isPart_nil : ¬ IsPart [] := by
  rintro ⟨spelling, valid, empty⟩
  have numeral := valid.version.first.nonempty
  simp [Spelling.text, Version.Spelling.text, numeral] at empty

end Requirement

namespace VersionConstraint

def parts (input : String) : List (List Char) := (splitAtChar ',' input.toList).map trimBlank

theorem parts_of_blank {input : String} (blank : Blank input.toList) : parts input = [[]] := by
  have noComma : ',' ∉ input.toList := fun member => absurd (blank ',' member) (by decide)
  rw [parts, splitAtChar_of_not_mem noComma, List.map_singleton, trimBlank_eq_nil_iff.mpr blank]

theorem parts_append (a b : String) : parts (a ++ "," ++ b) = parts a ++ parts b := by
  have chars : (a ++ "," ++ b).toList = a.toList ++ ',' :: b.toList := by
    simp [String.toList_append]
  rw [parts, chars, splitAtChar_append_cons, List.map_append, parts, parts]

variable {input : String} {constraint : VersionConstraint}

theorem parse_of_blank (blank : Blank input.toList) : parse input = some {} := by
  simp [parse, trimBlank_eq_nil_iff.mpr blank]

theorem parse_of_visible (visible : ¬ Blank input.toList) :
    parse input = ((splitAtChar ',' input.toList).mapM Requirement.parse).map mk := by
  have remains : trimBlank input.toList ≠ [] := fun empty =>
    visible (trimBlank_eq_nil_iff.mp empty)
  simp [parse, remains]

theorem exists_parse_iff (visible : ¬ Blank input.toList) :
    (∃ constraint, parse input = some constraint) ↔
      ∀ part ∈ parts input, Requirement.IsPart part := by
  have read (part : List Char) : (∃ requirement, Requirement.parse part = some requirement) ↔
      Requirement.IsPart (trimBlank part) := by
    simpa [Requirement.IsPart] using
      @Requirement.exists_parse_iff part fun _ => True
  calc (∃ constraint, parse input = some constraint)
    _ ↔ ∃ requirements, (splitAtChar ',' input.toList).mapM Requirement.parse =
          some requirements := by simp [parse_of_visible visible]
    _ ↔ ∀ part ∈ splitAtChar ',' input.toList,
          ∃ requirement, Requirement.parse part = some requirement := exists_mapM_eq_some_iff
    _ ↔ ∀ part ∈ parts input, Requirement.IsPart part := by simp [read, parts]

theorem allows_iff (visible : ¬ Blank input.toList) (parsed : parse input = some constraint)
    (version : Version) : constraint.allows version = true ↔
      ∀ part ∈ parts input, Requirement.PartAllows part version := by
  rw [parse_of_visible visible] at parsed
  obtain ⟨requirements, mapped, rfl⟩ := Option.map_eq_some_iff.mp parsed
  calc (mk requirements).allows version = true
    _ ↔ ∀ requirement ∈ requirements, requirement.allows version = true := by
          simp only [allows, List.all_eq_true]
    _ ↔ ∀ part ∈ splitAtChar ',' input.toList, ∃ requirement,
          Requirement.parse part = some requirement ∧ requirement.allows version = true :=
        forall_mem_mapM_iff mapped
    _ ↔ ∀ part ∈ parts input, Requirement.PartAllows part version := by
          simp [Requirement.exists_parse_iff, parts, Requirement.PartAllows]

theorem visible_append {a : String} (visible : ¬ Blank a.toList) (b : String) :
    ¬ Blank (a ++ "," ++ b).toList := by
  intro blank
  exact visible fun c member => blank c (by simp [String.toList_append, member])

theorem visible_of_comma (comma : ',' ∈ input.toList) : ¬ Blank input.toList := fun blank =>
  absurd (blank ',' comma) (by decide)

/-- A text whose parts are all parts of a constraint is a constraint too. -/
theorem isPart_of_subset (visible : ¬ Blank input.toList) (parsed : parse input = some constraint)
    {other : String} (subset : parts other ⊆ parts input) :
    ¬ Blank other.toList ∧ ∀ part ∈ parts other, Requirement.IsPart part := by
  have arePart := (exists_parse_iff visible).mp ⟨constraint, parsed⟩
  refine ⟨fun blank => ?_, fun part member => arePart part (subset member)⟩
  have empty : [] ∈ parts input := subset (by simp [parts_of_blank blank])
  exact Requirement.not_isPart_nil (arePart [] empty)

/-- A text is read as a constraint if it is blank or all its parts between commas are requirements,
and allows what all of them allow; a blank part next to a comma is refused. So two texts joined by
a comma allow what both allow, and only the set of the parts counts: with fewer of them at least as
much is allowed. -/
theorem parses_as_conjunction :
    (∀ input, (∃ constraint, parse input = some constraint) ↔
      Blank input.toList ∨ ∀ part ∈ parts input, Requirement.IsPart part) ∧
    (∀ input constraint, parse input = some constraint → ∀ version,
      (constraint.allows version = true ↔
        Blank input.toList ∨ ∀ part ∈ parts input, Requirement.PartAllows part version)) ∧
    (∀ input, ',' ∈ input.toList → [] ∈ parts input → parse input = none) ∧
    (∀ a b : String, ¬ Blank a.toList → ¬ Blank b.toList →
      ((∃ joined, parse (a ++ "," ++ b) = some joined) ↔
        (∃ left, parse a = some left) ∧ ∃ right, parse b = some right) ∧
      ∀ left right joined, parse a = some left → parse b = some right →
        parse (a ++ "," ++ b) = some joined → ∀ version,
          (joined.allows version = true ↔
            left.allows version = true ∧ right.allows version = true)) ∧
    ∀ input constraint, ¬ Blank input.toList → parse input = some constraint →
      ∀ other, parts other ⊆ parts input → ∃ fewer, parse other = some fewer ∧
        (∀ version, constraint.allows version = true → fewer.allows version = true) ∧
        (parts input ⊆ parts other →
          ∀ version, fewer.allows version = constraint.allows version) := by
  refine ⟨fun input => ?exactly, fun input constraint parsed version => ?allowed,
    fun input comma empty => ?empty, fun a b visible visibleToo => ⟨?joined, ?both⟩,
    fun input constraint visible parsed other subset => ?fewer⟩
  case exactly =>
    by_cases blank : Blank input.toList
    · simp [blank, parse_of_blank]
    · simp [blank, exists_parse_iff]
  case allowed =>
    by_cases blank : Blank input.toList
    · obtain rfl : {} = constraint := by simpa [parse_of_blank blank] using parsed
      simp [blank, allows]
    · simp [blank, allows_iff blank parsed]
  case empty =>
    rw [Option.eq_none_iff_forall_ne_some]
    intro constraint parsed
    have arePart := (exists_parse_iff (visible_of_comma comma)).mp ⟨constraint, parsed⟩
    exact Requirement.not_isPart_nil (arePart [] empty)
  case joined =>
    rw [exists_parse_iff (visible_append visible b), parts_append, List.forall_mem_append,
      exists_parse_iff visible, exists_parse_iff visibleToo]
  case both =>
    intro left right joined parsedLeft parsedRight parsed version
    rw [allows_iff (visible_append visible b) parsed, parts_append, List.forall_mem_append,
      allows_iff visible parsedLeft, allows_iff visibleToo parsedRight]
  case fewer =>
    -- a blank text has a blank part, which no constraint has
    obtain ⟨visibleOther, arePart⟩ := isPart_of_subset visible parsed subset
    obtain ⟨fewer, parsedOther⟩ := (exists_parse_iff visibleOther).mpr arePart
    have whole := allows_iff visible parsed
    have less := allows_iff visibleOther parsedOther
    have wider (version : Version) (allowed : constraint.allows version = true) :
        fewer.allows version = true :=
      (less version).mpr fun part member => (whole version).mp allowed part (subset member)
    refine ⟨fewer, parsedOther, wider, fun covered version => ?_⟩
    rw [Bool.eq_iff_iff]
    refine ⟨fun allowed => ?_, wider version⟩
    exact (whole version).mpr fun part member => (less version).mp allowed part (covered member)

/-- The parts of a range in another order and one of them twice, and with a blank part. -/
theorem range_conjoined : ∃ lower upper range reordered,
    parse " >=v1 " = some lower ∧ parse "<\t2, !=1.5" = some upper ∧
    parse (" >=v1 " ++ "," ++ "<\t2, !=1.5") = some range ∧
    parse "!=1.5,>=v1,<\t2,>=v1" = some reordered ∧
    (∀ version, range.allows version = true ↔
      lower.allows version = true ∧ upper.allows version = true) ∧
    (∀ version, reordered.allows version = range.allows version) ∧
    range.allows ⟨1, 4, 0, none⟩ = true ∧ range.allows ⟨1, 5, 0, none⟩ = false ∧
    parse ">=v1, ,<2" = none := by
  obtain ⟨-, -, refused, joins, fewer⟩ := parses_as_conjunction
  have lower : parse " >=v1 " = some ⟨[⟨.atLeast, ⟨1, 0, 0, none⟩, 1⟩]⟩ := by decide +kernel
  have upper : parse "<\t2, !=1.5" =
      some ⟨[⟨.less, ⟨2, 0, 0, none⟩, 1⟩, ⟨.different, ⟨1, 5, 0, none⟩, 2⟩]⟩ := by decide +kernel
  have visible : ¬ Blank " >=v1 ".toList := fun blank =>
    absurd (blank 'v' (by decide +kernel)) (by decide)
  have visibleToo : ¬ Blank "<\t2, !=1.5".toList := visible_of_comma (by decide +kernel)
  obtain ⟨joined, both⟩ := joins _ _ visible visibleToo
  obtain ⟨range, parsed⟩ := joined.mpr ⟨⟨_, lower⟩, _, upper⟩
  have together := both _ _ _ lower upper parsed
  obtain ⟨reordered, read, -, same⟩ := fewer _ _ (visible_append visible _) parsed
    "!=1.5,>=v1,<\t2,>=v1" (by decide +kernel)
  have kept := same (by decide +kernel)
  have inside : range.allows ⟨1, 4, 0, none⟩ = true := (together _).mpr (by decide)
  have outside : range.allows ⟨1, 5, 0, none⟩ = false := by
    rw [← Bool.not_eq_true, together]
    decide
  exact ⟨_, _, range, reordered, lower, upper, parsed, read, together, kept, inside, outside,
    refused _ (by decide +kernel) (by decide +kernel)⟩

end VersionConstraint

end ConfigContract
