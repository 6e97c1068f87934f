import ConfigContract.Proofs.Provider.VersionConstraint
import ConfigContract.Proofs.Provider.VersionOrder
import ConfigContract.Proofs.Provider.VersionSpelling

/-!
Pessimistic requirements as ranges: from the written version on, up to the first release at which a
segment before the last written one has grown.
-/

namespace ConfigContract

variable {input : String} {version : Version} {precision : Nat}

theorem VersionConstraint.parse_symbol (operator : Operator)
    (parsed : Version.parseWithPrecision input = some (version, precision)) :
    parse (operator.symbol ++ input) = some ⟨[⟨operator, version, precision⟩]⟩ := by
  have chars : (operator.symbol ++ input).toList = operator.symbol.toList ++ input.toList :=
    String.toList_append
  have single : ',' ∉ (operator.symbol ++ input).toList := by
    rw [chars, List.mem_append, not_or]
    exact ⟨by cases operator <;> decide, Version.comma_not_mem_of_parsed parsed⟩
  have visible : trimBlank (operator.symbol ++ input).toList ≠ [] := by
    rw [ne_eq, trimBlank_eq_nil_iff, chars]
    intro blank
    have first := (List.forall_mem_append.mp blank).1
    cases operator <;> exact absurd (first _ List.mem_cons_self) (by decide)
  rw [parse, if_neg (by simpa using visible), splitAtChar_of_not_mem single, chars]
  simp [Requirement.parse_symbol operator parsed]

/-! Pessimistic requirements -/

namespace Version

/-- Where the range of a pessimistic requirement ends: the version as it was written, without its
last written segment, the segment before that raised by one and the others zero. -/
def ceiling (version : Version) (written : Nat) : List Nat :=
  (version.numbers.take (written - 1)).modify (written - 2) (· + 1) ++
    List.replicate (4 - written) 0

theorem numbers_lt_iff {a : Version} {major minor patch : Nat} :
    a.numbers < [major, minor, patch] ↔ a.major.toNat < major ∨ a.major.toNat = major ∧
      (a.minor.toNat < minor ∨ a.minor.toNat = minor ∧ a.patch.toNat < patch) := by
  simp [numbers, List.cons_lt_cons_iff]

theorem numbers_lt_of_isLE {lower upper : Version} {ends : List Nat}
    (sorted : (order lower upper).isLE) (smaller : upper.numbers < ends) :
    lower.numbers < ends := by
  rw [order_eq] at sorted
  exact compare_numbers_lt.mp
    (Std.TransCmp.lt_of_isLE_of_lt
      (Ordering.isLE_left_of_isLE_then sorted) (compare_numbers_lt.mpr smaller))

theorem not_numbers_lt {lower upper : Version} (sorted : (order lower upper).isLE) :
    ¬ upper.numbers < lower.numbers := fun smaller =>
  List.lt_irrefl _ (numbers_lt_of_isLE sorted smaller)

end Version

namespace Requirement

open Version (order)

theorem allows_pessimistic_iff {candidate : Version} {written : Nat} (atLeastOne : 1 ≤ written)
    (atMostThree : written ≤ 3) :
    (Requirement.mk .pessimistic version written).allows candidate = true ↔
      (order version candidate).isLE ∧
        (2 ≤ written → candidate.numbers < version.ceiling written) := by
  rw [allows, Bool.and_eq_true, Std.OrientedCmp.isGE_iff_isLE]
  refine and_congr_right fun notBelow => ?_
  have smaller := Version.not_numbers_lt notBelow
  rw [Version.numbers.eq_1 version, Version.numbers_lt_iff] at smaller
  obtain rfl | rfl | rfl : written = 1 ∨ written = 2 ∨ written = 3 := by omega
  · simp
  · have ends : version.ceiling 2 = [version.major.toNat + 1, 0, 0] := rfl
    simp only [ends, Version.numbers_lt_iff, beq_iff_eq, ← UInt64.toNat_inj]
    omega
  · have ends : version.ceiling 3 = [version.major.toNat, version.minor.toNat + 1, 0] := rfl
    simp only [ends, Version.numbers_lt_iff, Bool.and_eq_true, beq_iff_eq, ← UInt64.toNat_inj]
    omega

theorem convex_pessimistic {written : Nat} (atLeastOne : 1 ≤ written) (atMostThree : written ≤ 3)
    {lower middle upper : Version}
    (lowerAllowed : (Requirement.mk .pessimistic version written).allows lower = true)
    (upperAllowed : (Requirement.mk .pessimistic version written).allows upper = true)
    (above : (order lower middle).isLE) (below : (order middle upper).isLE) :
    (Requirement.mk .pessimistic version written).allows middle = true := by
  rw [allows_pessimistic_iff atLeastOne atMostThree] at lowerAllowed upperAllowed ⊢
  refine ⟨Std.TransCmp.isLE_trans lowerAllowed.1 above, fun bounded => ?_⟩
  exact Version.numbers_lt_of_isLE below (upperAllowed.2 bounded)

/-- With more segments written the range ends no later. -/
theorem pessimistic_of_more {fewer written : Nat} (atLeastOne : 1 ≤ fewer) (more : fewer ≤ written)
    (atMostThree : written ≤ 3) {candidate : Version}
    (allowed : (Requirement.mk .pessimistic version written).allows candidate = true) :
    (Requirement.mk .pessimistic version fewer).allows candidate = true := by
  simp only [allows, Bool.and_eq_true] at allowed ⊢
  refine ⟨allowed.1, ?_⟩
  have same := allowed.2
  split at same
  next =>
    obtain rfl : fewer = 1 := by omega
    rfl
  next =>
    obtain rfl | rfl : fewer = 1 ∨ fewer = 2 := by omega
    · rfl
    · exact same
  next =>
    split
    · rfl
    · exact (Bool.and_eq_true_iff.mp same).1
    · exact same

end Requirement

namespace VersionConstraint

open Version (order)

/-- A pessimistic requirement allows the versions from the written one on, and where more than one
segment is written, those below the release that raises the segment before the last: an interval
without prereleases of that release, which shrinks as more segments are written. -/
theorem pessimistic_is_range (input : String) (version : Version) (written : Nat)
    (parsed : Version.parseWithPrecision input = some (version, written)) :
    ∃ constraint, parse ("~>" ++ input) = some constraint ∧
      (∀ candidate, constraint.allows candidate = true ↔ (order version candidate).isLE ∧
        (2 ≤ written → candidate.numbers < version.ceiling written)) ∧
      (∀ lower middle upper, constraint.allows lower = true → constraint.allows upper = true →
        (order lower middle).isLE → (order middle upper).isLE →
          constraint.allows middle = true) ∧
      (2 ≤ written → ∀ candidate, candidate.numbers = version.ceiling written →
        constraint.allows candidate = false) ∧
      ∀ fewer, 1 ≤ fewer → fewer ≤ written → ∀ candidate, constraint.allows candidate = true →
        (Requirement.mk .pessimistic version fewer).allows candidate = true := by
  obtain ⟨-, atLeastOne, atMostThree, -⟩ := Version.written_of_parse parsed
  have single (candidate : Version) :
      (VersionConstraint.mk [⟨.pessimistic, version, written⟩]).allows candidate =
        (Requirement.mk .pessimistic version written).allows candidate := by
    simp [allows]
  have range (candidate : Version) :
      (Requirement.mk .pessimistic version written).allows candidate = true ↔
        (order version candidate).isLE ∧
          (2 ≤ written → candidate.numbers < version.ceiling written) :=
    Requirement.allows_pessimistic_iff atLeastOne atMostThree
  refine ⟨_, parse_symbol .pessimistic parsed, ?_⟩
  simp only [single]
  refine ⟨range, fun lower middle upper => Requirement.convex_pessimistic atLeastOne atMostThree,
    fun bounded candidate atEnd => ?_, fun fewer positive more candidate =>
      Requirement.pessimistic_of_more positive more atMostThree⟩
  rw [← Bool.not_eq_true, range candidate, atEnd]
  exact fun inside => List.lt_irrefl _ (inside.2 bounded)

/-- The range of a prerelease begins with it and ends before all versions of the next release. -/
theorem beta_range : ∃ constraint, parse "~> 5.31-beta" = some constraint ∧
    constraint.allows ⟨5, 31, 0, some "beta"⟩ = true ∧
    constraint.allows ⟨5, 99, 0, none⟩ = true ∧
    constraint.allows ⟨6, 0, 0, some "alpha"⟩ = false ∧
    constraint.allows ⟨5, 31, 0, some "alpha"⟩ = false := by
  have parsed : Version.parseWithPrecision " 5.31-beta" = some (⟨5, 31, 0, some "beta"⟩, 2) := by
    decide +kernel
  obtain ⟨constraint, read, range, -, ends, -⟩ := pessimistic_is_range _ _ _ parsed
  refine ⟨constraint, read, (range _).mpr (by decide), (range _).mpr (by decide),
    ends (by decide) _ rfl, ?_⟩
  rw [← Bool.not_eq_true, range]
  decide

end VersionConstraint

end ConfigContract
