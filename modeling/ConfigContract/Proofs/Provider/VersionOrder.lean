import ConfigContract.Provider.VersionConstraint
import Mathlib.Data.List.Basic

/-!
The order of versions is total and agrees with equality: first the three numbers count, then whether
there is a prerelease, then the prerelease as a text. What requirements allow by comparing follows.
-/

namespace ConfigContract

namespace Version

instance : Std.OrientedCmp orderPre where
  eq_swap {a b} := by
    cases a <;> cases b
    case some.some => exact Std.OrientedOrd.eq_swap
    all_goals rfl

instance : Std.TransCmp orderPre where
  isLE_trans {a b c} first second := by
    cases b with
    | none =>
        -- nothing but a release is above a release
        cases c with
        | none => cases a <;> rfl
        | some tag => cases second
    | some middle =>
        cases a with
        | none => cases first
        | some tag =>
            cases c with
            | none => rfl
            | some last => exact Std.TransOrd.isLE_trans first second

instance : Std.LawfulEqCmp orderPre where
  compare_self {a} := by
    cases a with
    | none => rfl
    | some tag => exact Std.ReflCmp.compare_self
  eq_of_compare {a b} same := by
    cases a <;> cases b
    case none.none => rfl
    case some.some => rw [Std.LawfulEqOrd.eq_of_compare same]
    all_goals cases same

def numbers (version : Version) : List Nat :=
  [version.major.toNat, version.minor.toNat, version.patch.toNat]

theorem compare_toNat (a b : UInt64) : compare a b = compare a.toNat b.toNat := by
  cases held : compare a.toNat b.toNat with
  | lt => exact Std.compare_eq_lt.mpr (UInt64.lt_iff_toNat_lt.mpr (Nat.compare_eq_lt.mp held))
  | eq => rw [UInt64.toNat_inj.mp (Nat.compare_eq_eq.mp held), Std.compare_self]
  | gt => exact Std.compare_eq_gt.mpr (UInt64.lt_iff_toNat_lt.mpr (Nat.compare_eq_gt.mp held))

theorem compare_numbers_lt {first second : List Nat} :
    compare first second = .lt ↔ first < second := by
  induction first generalizing second with
  | nil => cases second <;> simp
  | cons n first ih =>
      cases second with
      | nil => simp
      | cons m second =>
          rw [List.compare_cons_cons, Ordering.then_eq_lt, Nat.compare_eq_lt, Nat.compare_eq_eq,
            ih, List.cons_lt_cons_iff]

/-- Versions are compared number by number, and by their prereleases where these are the same. -/
theorem order_eq (a b : Version) :
    order a b = (compare a.numbers b.numbers).then (orderPre a.pre b.pre) := by
  simp [order, numbers, compare_toNat, List.compare_cons_cons, Ordering.then_assoc]

theorem order_lt_iff {a b : Version} :
    order a b = .lt ↔
      a.numbers < b.numbers ∨ a.numbers = b.numbers ∧ orderPre a.pre b.pre = .lt := by
  rw [order_eq, Ordering.then_eq_lt, compare_numbers_lt, Std.LawfulEqOrd.compare_eq_iff_eq]

theorem numbers_inj {a b : Version} :
    a.numbers = b.numbers ↔ a.major = b.major ∧ a.minor = b.minor ∧ a.patch = b.patch := by
  simp [numbers, UInt64.toNat_inj]

theorem order_eq_iff {a b : Version} : order a b = .eq ↔ a = b := by
  rw [order_eq, Ordering.then_eq_eq, Std.LawfulEqOrd.compare_eq_iff_eq,
    Std.LawfulEqCmp.compare_eq_iff_eq, numbers_inj]
  cases a
  cases b
  simp [and_assoc]

instance : Std.TransCmp fun a b : Version => orderPre a.pre b.pre where
  eq_swap {a b} := by
    have swapped : orderPre a.pre b.pre = (orderPre b.pre a.pre).swap := Std.OrientedCmp.eq_swap
    exact swapped
  isLE_trans {a b c} first second := by
    have composed : (orderPre a.pre b.pre).isLE → (orderPre b.pre c.pre).isLE →
        (orderPre a.pre c.pre).isLE := Std.TransCmp.isLE_trans
    exact composed first second

instance : Std.TransCmp order :=
  inferInstanceAs (Std.TransCmp (compareLex (compareOn major)
    (compareLex (compareOn minor) (compareLex (compareOn patch)
      fun a b => orderPre a.pre b.pre))))

instance : Std.LawfulEqCmp order where
  eq_of_compare := order_eq_iff.mp
  compare_self := order_eq_iff.mpr rfl

def release (version : Version) : Version := { version with pre := none }

def prerelease (version : Version) (tag : String) : Version := { version with pre := some tag }

theorem prerelease_below_release (version : Version) (tag : String) :
    order (version.prerelease tag) version.release = .lt :=
  order_lt_iff.mpr (.inr ⟨rfl, rfl⟩)

theorem below_prerelease {lower version : Version} (smaller : lower.numbers < version.numbers)
    (tag : String) : order lower (version.prerelease tag) = .lt :=
  order_lt_iff.mpr (.inl smaller)

end Version

namespace Requirement

variable (version candidate : Version) (written : Nat)

theorem allows_equal :
    (Requirement.mk .equal version written).allows candidate =
      (Version.order candidate version).isEq := by
  rw [Bool.eq_iff_iff, Ordering.isEq_iff_eq_eq, Version.order_eq_iff]
  exact beq_iff_eq

theorem allows_different :
    (Requirement.mk .different version written).allows candidate =
      !(Requirement.mk .equal version written).allows candidate := rfl

/-- A version is below, equal to or above the version of a requirement. -/
theorem existsUnique_comparison :
    ∃! operator, operator ∈ [Operator.less, .equal, .greater] ∧
      (Requirement.mk operator version written).allows candidate = true := by
  have same := Version.order_eq_iff (a := candidate) (b := version)
  cases comparison : Version.order candidate version with
  | lt =>
      have differs : candidate ≠ version := by simpa [comparison] using same
      exact ⟨.less, by simp [allows, comparison], by simp [allows, comparison, differs]⟩
  | eq => exact ⟨.equal, by simp [allows_equal, comparison], by simp [allows, comparison]⟩
  | gt =>
      have differs : candidate ≠ version := by simpa [comparison] using same
      exact ⟨.greater, by simp [allows, comparison], by simp [allows, comparison, differs]⟩

variable {version candidate written}

theorem atLeast_eq_not_less :
    (Requirement.mk .atLeast version written).allows candidate =
      !(Requirement.mk .less version written).allows candidate := by
  cases comparison : Version.order candidate version <;> simp [allows, comparison]

theorem atMost_eq_not_greater :
    (Requirement.mk .atMost version written).allows candidate =
      !(Requirement.mk .greater version written).allows candidate := by
  cases comparison : Version.order candidate version <;> simp [allows, comparison]

/-- With a version, lower bounds allow every later one. -/
theorem allows_later {operator : Operator} (lowerBound : operator = .greater ∨ operator = .atLeast)
    {later : Version} (after : (Version.order candidate later).isLE)
    (allowed : (Requirement.mk operator version written).allows candidate = true) :
    (Requirement.mk operator version written).allows later = true := by
  have notBelow := Std.OrientedCmp.isGE_of_isLE after
  rcases lowerBound with rfl | rfl
  · rw [allows, Ordering.isGT_iff_eq_gt] at allowed ⊢
    exact Std.TransCmp.gt_of_isGE_of_gt notBelow allowed
  · exact Std.TransCmp.isGE_trans notBelow allowed

/-- With a version, upper bounds allow every earlier one. -/
theorem allows_earlier {operator : Operator} (upperBound : operator = .less ∨ operator = .atMost)
    {earlier : Version} (before : (Version.order earlier candidate).isLE)
    (allowed : (Requirement.mk operator version written).allows candidate = true) :
    (Requirement.mk operator version written).allows earlier = true := by
  rcases upperBound with rfl | rfl
  · rw [allows, Ordering.isLT_iff_eq_lt] at allowed ⊢
    exact Std.TransCmp.lt_of_isLE_of_lt before allowed
  · exact Std.TransCmp.isLE_trans before allowed

end Requirement

namespace Version

/-- Versions are totally ordered, the order agrees with equality, and a prerelease stands between
its release and everything with smaller numbers. The comparing requirements on a version split all
versions by this order. -/
theorem comparisons_follow_total_order :
    ((∀ a b : Version, (order a b).isLE ∨ (order b a).isLE) ∧
      (∀ a b : Version, (order a b).isLE → (order b a).isLE → a = b) ∧
      (∀ a b c : Version, (order a b).isLE → (order b c).isLE → (order a c).isLE) ∧
      (∀ a b : Version, order a b = .eq ↔ a = b) ∧
      ∀ a b : Version, order a b = .gt ↔ order b a = .lt) ∧
    (∀ (version : Version) (tag : String),
      order (version.prerelease tag) version.release = .lt ∧
      ∀ lower : Version, lower.numbers < version.numbers →
        order lower (version.prerelease tag) = .lt) ∧
    ∀ (version : Version) (written : Nat),
      (∀ candidate,
        (∃! operator, operator ∈ [Operator.less, .equal, .greater] ∧
          (Requirement.mk operator version written).allows candidate = true) ∧
        (Requirement.mk .atLeast version written).allows candidate =
          !(Requirement.mk .less version written).allows candidate ∧
        (Requirement.mk .atMost version written).allows candidate =
          !(Requirement.mk .greater version written).allows candidate ∧
        (Requirement.mk .different version written).allows candidate =
          !(Requirement.mk .equal version written).allows candidate) ∧
      ∀ lower upper : Version, (order lower upper).isLE →
        (∀ operator, operator = .greater ∨ operator = .atLeast →
          (Requirement.mk operator version written).allows lower = true →
            (Requirement.mk operator version written).allows upper = true) ∧
        ∀ operator, operator = .less ∨ operator = .atMost →
          (Requirement.mk operator version written).allows upper = true →
            (Requirement.mk operator version written).allows lower = true := by
  refine ⟨⟨fun a b => ?_, fun a b first second => ?_, fun a b c => Std.TransCmp.isLE_trans,
    fun a b => Std.LawfulEqCmp.compare_eq_iff_eq, fun a b => Std.OrientedCmp.gt_iff_lt⟩,
    fun version tag => ?_, fun version written => ⟨fun candidate => ?_, fun lower upper sorted => ?_⟩⟩
  · rw [← Std.OrientedCmp.isGE_iff_isLE (a := a)]
    cases order a b <;> simp
  · exact order_eq_iff.mp (Std.OrientedCmp.isLE_antisymm first second)
  · exact ⟨prerelease_below_release version tag, fun lower smaller => below_prerelease smaller tag⟩
  · exact ⟨Requirement.existsUnique_comparison version candidate written,
      Requirement.atLeast_eq_not_less, Requirement.atMost_eq_not_greater,
      Requirement.allows_different version candidate written⟩
  · exact ⟨fun operator lowerBound allowed => Requirement.allows_later lowerBound sorted allowed,
      fun operator upperBound allowed => Requirement.allows_earlier upperBound sorted allowed⟩

theorem candidate_between_releases :
    order ⟨1, 9, 9, some "z"⟩ ⟨2, 0, 0, some "rc1"⟩ = .lt ∧
      order ⟨2, 0, 0, some "rc1"⟩ ⟨2, 0, 0, none⟩ = .lt ∧
      (Requirement.mk .greater ⟨1, 9, 9, some "z"⟩ 3).allows ⟨2, 0, 0, none⟩ = true := by
  obtain ⟨⟨-, -, -, -, swap⟩, between, split⟩ := comparisons_follow_total_order
  obtain ⟨belowRelease, aboveSmaller⟩ := between ⟨2, 0, 0, none⟩ "rc1"
  have smaller := aboveSmaller ⟨1, 9, 9, some "z"⟩ (by decide)
  have sorted : (order ⟨2, 0, 0, some "rc1"⟩ ⟨2, 0, 0, none⟩).isLE :=
    Ordering.isLE_of_eq_lt belowRelease
  have allowed : (Requirement.mk .greater ⟨1, 9, 9, some "z"⟩ 3).allows
      ⟨2, 0, 0, some "rc1"⟩ = true := Ordering.isGT_iff_eq_gt.mpr ((swap _ _).mpr smaller)
  have upward := ((split ⟨1, 9, 9, some "z"⟩ 3).2 _ _ sorted).1 .greater (.inl rfl)
  exact ⟨smaller, belowRelease, upward allowed⟩

end Version

end ConfigContract
