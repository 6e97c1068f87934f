import ConfigContract.Proofs.Except
import ConfigContract.Proofs.OrderedMap
import Mathlib.Data.List.Forall2
import Mathlib.Data.List.Perm.Basic

/-!
Maps that hold the same keys in the same places, with values that are related key by key.
-/

namespace ConfigContract

namespace OrderedMap

variable {κ α β γ δ : Type}

def Pointwise (related : κ → α → β → Prop) : OrderedMap κ α → OrderedMap κ β → Prop :=
  List.Forall₂ fun entry other => entry.1 = other.1 ∧ related entry.1 entry.2 other.2

def OnlyAt [DecidableEq κ] (key : κ) (related : α → α → Prop) (candidate : κ) (value other : α) :
    Prop :=
  if candidate = key then related value other else value = other

namespace OnlyAt

variable [DecidableEq κ] {key candidate : κ} {related : α → α → Prop} {value other : α}

theorem refl (same : ∀ value, related value value) (key candidate : κ) (value : α) :
    OnlyAt key related candidate value value := by
  unfold OnlyAt
  split
  next => exact same value
  next => rfl

theorem eq (differ : OnlyAt key related candidate value other) (different : candidate ≠ key) :
    value = other := by
  rwa [OnlyAt, if_neg different] at differ

theorem at_key (differ : OnlyAt key related key value other) : related value other := by
  rwa [OnlyAt, if_pos rfl] at differ

theorem intro (elsewhere : candidate ≠ key → value = other)
    (here : candidate = key → related value other) : OnlyAt key related candidate value other := by
  unfold OnlyAt
  split
  next hit => exact here hit
  next miss => exact elsewhere miss

end OnlyAt

namespace Pointwise

variable {related : κ → α → β → Prop} {results : κ → γ → δ → Prop} {entries newer : OrderedMap κ α}
  {others newerOthers : OrderedMap κ β}

theorem refl {related : κ → α → α → Prop} (same : ∀ key value, related key value value)
    (entries : OrderedMap κ α) : Pointwise related entries entries :=
  List.forall₂_same.mpr fun entry _ => ⟨rfl, same entry.1 entry.2⟩

/-- Entry by entry, with one key for both values. -/
@[elab_as_elim]
theorem entry_induction
    {motive : ∀ (entries : OrderedMap κ α) (others : OrderedMap κ β),
      Pointwise related entries others → Prop}
    (nil : motive [] [] .nil)
    (cons : ∀ (key : κ) (value : α) (other : β) (rest : OrderedMap κ α) (later : OrderedMap κ β)
      (both : related key value other) (tail : Pointwise related rest later),
      motive rest later tail →
        motive ((key, value) :: rest) ((key, other) :: later) (.cons ⟨rfl, both⟩ tail))
    (pointwise : Pointwise related entries others) : motive entries others pointwise := by
  induction pointwise with
  | nil => exact nil
  | @cons entry another rest later first tail ih =>
      obtain ⟨key, value⟩ := entry
      obtain ⟨name, other⟩ := another
      have same : key = name := first.1
      subst same
      exact cons key value other rest later first.2 tail ih

theorem nil_iff : Pointwise related [] others ↔ others = [] := List.forall₂_nil_left_iff

theorem cons_iff {entry : κ × α} : Pointwise related (entry :: entries) others ↔
    ∃ other later, others = (entry.1, other) :: later ∧ related entry.1 entry.2 other ∧
      Pointwise related entries later := by
  constructor
  · intro pointwise
    cases pointwise with
    | @cons _ another _ later first rest =>
        obtain ⟨name, other⟩ := another
        obtain ⟨rfl, both⟩ := first
        exact ⟨other, later, rfl, both, rest⟩
  · rintro ⟨other, later, rfl, both, rest⟩
    exact .cons ⟨rfl, both⟩ rest

theorem keys (pointwise : Pointwise related entries others) :
    OrderedMap.keys entries = OrderedMap.keys others := by
  induction pointwise using entry_induction with
  | nil => rfl
  | cons key _ _ _ _ _ _ ih => rw [keys_cons, keys_cons, ih]

theorem eq {related : κ → α → α → Prop} {entries others : OrderedMap κ α}
    (pointwise : Pointwise related entries others)
    (same : ∀ key ∈ OrderedMap.keys entries, ∀ value other, related key value other →
      value = other) : entries = others := by
  induction pointwise using entry_induction with
  | nil => rfl
  | cons key value other _ _ both _ ih =>
      rw [same key List.mem_cons_self value other both,
        ih fun key known => same key (List.mem_cons_of_mem _ known)]

theorem append (pointwise : Pointwise related entries others)
    (later : Pointwise related newer newerOthers) :
    Pointwise related (entries ++ newer) (others ++ newerOthers) :=
  List.rel_append pointwise later

theorem imp {implied : κ → α → β → Prop} (pointwise : Pointwise related entries others)
    (implies : ∀ key value other, (key, value) ∈ entries → related key value other →
      implied key value other) : Pointwise implied entries others := by
  have listed := (List.forall₂_and_left entries others).mpr ⟨fun _ member => member, pointwise⟩
  exact listed.imp fun _ _ both => ⟨both.2.1, implies _ _ _ both.1 both.2.2⟩

theorem map {f : κ × α → γ} {g : κ × β → δ} (pointwise : Pointwise related entries others)
    (each : ∀ key value other, related key value other →
      results key (f (key, value)) (g (key, other))) :
    Pointwise results (entries.map fun entry => (entry.1, f entry))
      (others.map fun entry => (entry.1, g entry)) := by
  refine List.rel_map ?_ pointwise
  rintro ⟨key, value⟩ ⟨name, other⟩ ⟨rfl, both⟩
  exact ⟨rfl, each key value other both⟩

theorem mapValues {f : α → γ} {g : β → δ} (pointwise : Pointwise related entries others)
    (each : ∀ key value other, related key value other → results key (f value) (g other)) :
    Pointwise results (OrderedMap.mapValues f entries) (OrderedMap.mapValues g others) :=
  pointwise.map each

theorem flatMap {σ : Type} {f : σ → OrderedMap κ α} {g : σ → OrderedMap κ β} {sources : List σ}
    (each : ∀ source ∈ sources, Pointwise related (f source) (g source)) :
    Pointwise related (sources.flatMap f) (sources.flatMap g) := by
  induction sources with
  | nil => exact .nil
  | cons source rest ih =>
      obtain ⟨first, later⟩ := List.forall_mem_cons.mp each
      exact first.append (ih later)

theorem flatMap_eq {σ : Type} {f : κ × α → List σ} {g : κ × β → List σ}
    (pointwise : Pointwise related entries others)
    (each : ∀ key value other, related key value other → f (key, value) = g (key, other)) :
    List.flatMap f entries = List.flatMap g others := by
  induction pointwise using entry_induction with
  | nil => rfl
  | cons key value other _ _ both _ ih =>
      rw [List.flatMap_cons, List.flatMap_cons, ih, each key value other both]

theorem flatMap_perm {f : κ × α → List γ} {g : κ × β → List γ}
    (pointwise : Pointwise related entries others)
    (each : ∀ key value other, related key value other →
      (f (key, value)).Perm (g (key, other))) :
    (List.flatMap f entries).Perm (List.flatMap g others) := by
  induction pointwise using entry_induction with
  | nil => exact .refl []
  | cons key value other _ _ both _ ih => exact (each key value other both).append ih

theorem mapM {ε ζ : Type} {f : κ × α → Except ε (κ × γ)} {g : κ × β → Except ζ (κ × δ)}
    (pointwise : Pointwise related entries others)
    (each : ∀ key value other, related key value other →
      Agree (fun first second => first.1 = key ∧ second.1 = key ∧ results key first.2 second.2)
        (f (key, value)) (g (key, other))) :
    Agree (fun parts newer => OrderedMap.keys parts = OrderedMap.keys entries ∧
      Pointwise results parts newer) (List.mapM f entries) (List.mapM g others) := by
  induction pointwise using entry_induction with
  | nil => exact .ok ⟨rfl, .nil⟩
  | cons key value other _ _ both _ ih =>
      rw [List.mapM_cons, List.mapM_cons]
      refine (each key value other both).bind fun part newer made => ?_
      refine ih.map fun parts newerParts later => ⟨?_, .cons ⟨?_, ?_⟩ later.2⟩
      · show part.1 :: OrderedMap.keys parts = _
        rw [made.1, later.1, keys_cons]
      · exact made.1.trans made.2.1.symm
      · exact made.1 ▸ made.2.2

variable [DecidableEq κ]

theorem get? (pointwise : Pointwise related entries others) (key : κ) :
    (OrderedMap.get? key entries = none ∧ OrderedMap.get? key others = none) ∨
      ∃ value other, OrderedMap.get? key entries = some value ∧
        OrderedMap.get? key others = some other ∧ related key value other := by
  induction pointwise using entry_induction with
  | nil => exact .inl ⟨rfl, rfl⟩
  | cons candidate value other _ _ both _ ih =>
      by_cases hit : candidate = key
      · subst hit
        exact .inr ⟨value, other, by simp [OrderedMap.get?], by simp [OrderedMap.get?], both⟩
      · simpa [OrderedMap.get?, hit] using ih

theorem insert {key : κ} {value : α} {other : β} (pointwise : Pointwise related entries others)
    (both : related key value other) :
    Pointwise related (OrderedMap.insert key value entries)
      (OrderedMap.insert key other others) := by
  induction pointwise using entry_induction with
  | nil => exact .cons ⟨rfl, both⟩ .nil
  | cons candidate _ _ _ _ known later ih =>
      by_cases hit : candidate = key
      · subst hit
        simp only [OrderedMap.insert, ↓reduceIte]
        exact .cons ⟨rfl, both⟩ later
      · simp only [OrderedMap.insert, hit, ↓reduceIte]
        exact .cons ⟨rfl, known⟩ ih

theorem insertAll (pointwise : Pointwise related entries others)
    (later : Pointwise related newer newerOthers) :
    Pointwise related (OrderedMap.insertAll entries newer)
      (OrderedMap.insertAll others newerOthers) := by
  induction later using entry_induction generalizing entries others with
  | nil => exact pointwise
  | cons _ _ _ _ _ both _ ih => exact ih (pointwise.insert both)

theorem modify_eq {key : κ} {related : α → α → Prop} {f : α → α} {entries others : OrderedMap κ α}
    (pointwise : Pointwise (OnlyAt key related) entries others) (distinct : Distinct entries)
    (blind : ∀ value other, related value other → f value = f other) :
    modify key f entries = modify key f others := by
  induction pointwise using entry_induction with
  | nil => rfl
  | cons candidate value other rest others both tail ih =>
      obtain ⟨absent, distinctRest⟩ := List.nodup_cons.mp distinct
      by_cases hit : candidate = key
      · subst hit
        have same : rest = others := tail.eq fun name known value other both =>
          both.eq fun equal => absent (equal ▸ known)
        simp [modify, blind value other both.at_key, same]
      · have same : value = other := OnlyAt.eq both hit
        simp [modify, hit, same, ih distinctRest]

end Pointwise

end OrderedMap

end ConfigContract
