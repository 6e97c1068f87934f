import Mathlib.Data.List.Forall2

/-!
Computations that may fail, taken apart: a sequence succeeds when all of it does, and else fails as
the first of it that fails.
-/

namespace ConfigContract

variable {ε α β : Type}

@[simp] theorem ok_bind (value : α) (next : α → Except ε β) :
    (.ok value >>= next) = next value := rfl

@[simp] theorem error_bind (error : ε) (next : α → Except ε β) :
    ((.error error : Except ε α) >>= next) = .error error := rfl

@[simp] theorem map_ok (f : α → β) (value : α) :
    f <$> (.ok value : Except ε α) = .ok (f value) := rfl

@[simp] theorem map_error (f : α → β) (error : ε) :
    f <$> (.error error : Except ε α) = .error error := rfl

@[simp] theorem pure_eq_ok (value : α) : (pure value : Except ε α) = .ok value := rfl

@[simp] theorem mapError_ok {δ : Type} (f : ε → δ) (value : α) :
    (.ok value : Except ε α).mapError f = .ok value := rfl

@[simp] theorem mapError_error {δ : Type} (f : ε → δ) (error : ε) :
    (.error error : Except ε α).mapError f = .error (f error) := rfl

theorem mapError_eq_ok {δ : Type} {f : ε → δ} {result : Except ε α} {value : α} :
    result.mapError f = .ok value ↔ result = .ok value := by
  cases result <;> simp

theorem bind_eq_ok {first : Except ε α} {next : α → Except ε β} {result : β} :
    (first >>= next) = .ok result ↔ ∃ value, first = .ok value ∧ next value = .ok result := by
  cases first <;> simp

theorem map_eq_ok {f : α → β} {first : Except ε α} {result : β} :
    f <$> first = .ok result ↔ ∃ value, first = .ok value ∧ f value = result := by
  cases first <;> simp

theorem exists_ok_iff_not_error {result : Except ε α} :
    (∃ value, result = .ok value) ↔ ∀ error, result ≠ .error error := by
  cases result <;> simp

/-! Two computations -/

inductive Agree {δ : Type} (related : α → β → Prop) : Except ε α → Except δ β → Prop
  | error (error : ε) (other : δ) : Agree related (.error error) (.error other)
  | ok {value : α} {other : β} (both : related value other) : Agree related (.ok value) (.ok other)

namespace Agree

variable {δ α' β' : Type} {related : α → β → Prop} {results : α' → β' → Prop}
  {first : Except ε α} {second : Except δ β}

theorem refl {related : α → α → Prop} (same : ∀ value, related value value)
    (result : Except ε α) : Agree related result result := by
  cases result with
  | error error => exact .error error error
  | ok value => exact .ok (same value)

theorem bind {next : α → Except ε α'} {other : β → Except δ β'}
    (agree : Agree related first second)
    (later : ∀ value known, related value known → Agree results (next value) (other known)) :
    Agree results (first >>= next) (second >>= other) := by
  cases agree with
  | error error another => exact .error error another
  | ok both => exact later _ _ both

theorem map {f : α → α'} {g : β → β'} (agree : Agree related first second)
    (each : ∀ value other, related value other → results (f value) (g other)) :
    Agree results (f <$> first) (g <$> second) := by
  cases agree with
  | error error another => exact .error error another
  | ok both => exact .ok (each _ _ both)

theorem trans {ζ γ : Type} {third : Except ζ γ} {others : β → γ → Prop} {composed : α → γ → Prop}
    (agree : Agree related first second) (later : Agree others second third)
    (compose : ∀ value other last, related value other → others other last →
      composed value last) : Agree composed first third := by
  cases agree with
  | error error another =>
      cases later with
      | error _ last => exact .error error last
  | ok both =>
      cases later with
      | ok next => exact .ok (compose _ _ _ both next)

theorem of_iff (same : (∃ value, first = .ok value) ↔ ∃ other, second = .ok other)
    (both : ∀ value other, first = .ok value → second = .ok other → related value other) :
    Agree related first second := by
  cases first with
  | error error =>
      cases second with
      | error other => exact .error error other
      | ok other => simp at same
  | ok value =>
      cases second with
      | error other => simp at same
      | ok other => exact .ok (both value other rfl rfl)

theorem exists_ok_iff (agree : Agree related first second) :
    (∃ value, first = .ok value) ↔ ∃ other, second = .ok other := by
  cases agree <;> simp

theorem of_ok (agree : Agree related first second) {value : α} {other : β}
    (succeeds : first = .ok value) (succeedsToo : second = .ok other) : related value other := by
  subst succeeds succeedsToo
  cases agree with
  | ok both => exact both

end Agree

/-! Sequences -/

def FailsFirst (f : α → Except ε β) (items : List α) (error : ε) : Prop :=
  ∃ before item after, items = before ++ item :: after ∧
    (∀ earlier ∈ before, ∃ value, f earlier = .ok value) ∧ f item = .error error

namespace FailsFirst

variable {f : α → Except ε β} {item : α} {rest : List α} {error fault : ε} {value : β}

theorem not_nil : ¬ FailsFirst f [] error := by
  rintro ⟨before, item, after, split, -⟩
  simp at split

theorem cons_of_error (failed : f item = .error fault) :
    FailsFirst f (item :: rest) error ↔ fault = error := by
  constructor
  · rintro ⟨before, first, after, split, succeed, fails⟩
    cases before with
    | nil =>
        cases split
        exact Except.error.inj (failed.symm.trans fails)
    | cons earlier before =>
        cases split
        obtain ⟨value, succeeded⟩ := succeed item List.mem_cons_self
        simp [failed] at succeeded
  · rintro rfl
    exact ⟨[], item, rest, rfl, by simp, failed⟩

theorem cons_of_ok (succeeded : f item = .ok value) :
    FailsFirst f (item :: rest) error ↔ FailsFirst f rest error := by
  constructor
  · rintro ⟨before, first, after, split, succeed, fails⟩
    cases before with
    | nil =>
        cases split
        simp [succeeded] at fails
    | cons earlier before =>
        cases split
        exact ⟨before, first, after, rfl, fun known member =>
          succeed known (List.mem_cons_of_mem _ member), fails⟩
  · rintro ⟨before, first, after, rfl, succeed, fails⟩
    exact ⟨item :: before, first, after, rfl,
      List.forall_mem_cons.mpr ⟨⟨value, succeeded⟩, succeed⟩, fails⟩

end FailsFirst

theorem mapM_eq_error_iff {f : α → Except ε β} {items : List α} {error : ε} :
    items.mapM f = .error error ↔ FailsFirst f items error := by
  induction items with
  | nil => simpa using FailsFirst.not_nil
  | cons item rest ih =>
      rw [List.mapM_cons]
      cases found : f item with
      | error fault => simp [FailsFirst.cons_of_error found]
      | ok value =>
          rw [FailsFirst.cons_of_ok found, ← ih]
          cases rest.mapM f <;> simp

theorem mapM_eq_ok_iff {f : α → Except ε β} {items : List α} {results : List β} :
    items.mapM f = .ok results ↔
      List.Forall₂ (fun item result => f item = .ok result) items results := by
  induction items generalizing results with
  | nil => simp [eq_comm]
  | cons item rest ih =>
      rw [List.mapM_cons]
      constructor
      · intro mapped
        obtain ⟨first, mappedFirst, mapped⟩ := bind_eq_ok.mp mapped
        obtain ⟨others, mappedRest, gathered⟩ := bind_eq_ok.mp mapped
        cases gathered
        exact .cons mappedFirst (ih.mp mappedRest)
      · rintro (_ | ⟨mappedFirst, mappedRest⟩)
        simp [mappedFirst, ih.mpr mappedRest]

theorem exists_of_forall₂ {related : α → β → Prop} {items : List α} {results : List β}
    (each : List.Forall₂ related items results) {result : β} (member : result ∈ results) :
    ∃ item ∈ items, related item result := by
  induction each with
  | nil => cases member
  | cons first _ ih =>
      rcases List.mem_cons.mp member with rfl | later
      · exact ⟨_, List.mem_cons_self, first⟩
      · obtain ⟨item, known, source⟩ := ih later
        exact ⟨item, List.mem_cons_of_mem _ known, source⟩

theorem exists_mapM_iff {f : α → Except ε β} {items : List α} :
    (∃ results, items.mapM f = .ok results) ↔ ∀ item ∈ items, ∃ result, f item = .ok result := by
  induction items with
  | nil => simp
  | cons item rest ih =>
      rw [List.forall_mem_cons, ← ih, List.mapM_cons]
      cases f item with
      | error fault => simp
      | ok value => cases rest.mapM f <;> simp

/-! Sequences of optional values -/

theorem exists_mapM_eq_some_iff {f : α → Option β} {items : List α} :
    (∃ results, items.mapM f = some results) ↔ ∀ item ∈ items, ∃ result, f item = some result := by
  induction items with
  | nil => simp
  | cons item rest ih =>
      rw [List.forall_mem_cons, ← ih, List.mapM_cons]
      cases f item with
      | none => simp
      | some value => cases rest.mapM f <;> simp

theorem forall_mem_mapM_iff {f : α → Option β} {items : List α} {results : List β}
    (mapped : items.mapM f = some results) {good : β → Prop} :
    (∀ result ∈ results, good result) ↔ ∀ item ∈ items, ∃ result, f item = some result ∧
      good result := by
  induction items generalizing results with
  | nil =>
      cases mapped
      simp
  | cons item rest ih =>
      simp only [List.mapM_cons, Option.bind_eq_bind, Option.bind_eq_some_iff, Option.pure_def,
        Option.some.injEq] at mapped
      obtain ⟨first, mappedFirst, others, mappedRest, rfl⟩ := mapped
      simp [mappedFirst, ih mappedRest]

theorem mem_of_mapM_eq_some {f : α → Option β} {items : List α} {results : List β}
    (mapped : items.mapM f = some results) {result : β} (member : result ∈ results) :
    ∃ item ∈ items, f item = some result := by
  have each : ∀ item ∈ items, ∃ value, f item = some value :=
    exists_mapM_eq_some_iff.mp ⟨results, mapped⟩
  have sourced : ∀ result ∈ results, ∃ item ∈ items, f item = some result := by
    refine (forall_mem_mapM_iff mapped).mpr fun item known => ?_
    obtain ⟨value, found⟩ := each item known
    exact ⟨value, found, item, known, found⟩
  exact sourced result member

theorem mapM_map_eq_some {γ : Type} {f : β → Option γ} {g : α → β} {h : α → γ} {items : List α}
    (each : ∀ item ∈ items, f (g item) = some (h item)) :
    (items.map g).mapM f = some (items.map h) := by
  induction items with
  | nil => rfl
  | cons item rest ih =>
      obtain ⟨first, others⟩ := List.forall_mem_cons.mp each
      simp [first, ih others]

/-- A result is checked by evaluation. -/
theorem exists_ok (result : Except ε α) (good : α → Bool)
    (checked : result.toOption.any good = true) :
    ∃ value, result = .ok value ∧ good value = true := by
  cases result with
  | error error => simp [Except.toOption] at checked
  | ok value => exact ⟨value, rfl, by simpa [Except.toOption] using checked⟩

theorem exists_error (result : Except ε α) (failed : result.toOption.isNone = true) :
    ∃ error, result = .error error := by
  cases result with
  | error error => exact ⟨error, rfl⟩
  | ok value => simp [Except.toOption] at failed

end ConfigContract
