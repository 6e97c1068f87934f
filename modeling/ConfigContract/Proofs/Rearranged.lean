import ConfigContract.Proofs.Pointwise

/-!
Maps that hold the same keys in whatever order, with values that are related key by key.
-/

namespace ConfigContract

/-- The order of a sequence of computations decides which failure comes first, and nothing else. -/
theorem agree_mapM_of_perm {ε α β : Type} (f : α → Except ε β) {items others : List α}
    (perm : items.Perm others) : Agree List.Perm (items.mapM f) (others.mapM f) := by
  have same (result : Except ε β) : Agree (· = ·) result result := .refl (fun _ => rfl) result
  induction perm with
  | nil => exact .ok (.refl [])
  | cons item _ ih =>
      rw [List.mapM_cons, List.mapM_cons]
      refine (same (f item)).bind fun value _ equal => ?_
      subst equal
      exact ih.map fun _ _ => .cons value
  | swap first second rest =>
      simp only [List.mapM_cons]
      cases f first with
      | error error =>
          cases f second with
          | error other => exact .error other error
          | ok value => exact .error error error
      | ok value =>
          cases f second with
          | error other => exact .error other other
          | ok other =>
              cases rest.mapM f with
              | error error => exact .error error error
              | ok results => exact .ok (.swap value other results)
  | trans _ _ ih later => exact ih.trans later fun _ _ _ => .trans

namespace OrderedMap

variable {κ α β γ δ : Type}

structure Rearranged (related : κ → α → β → Prop) (entries : OrderedMap κ α)
    (others : OrderedMap κ β) : Prop where
  distinct : Distinct entries
  arranged : ∃ arranged, Pointwise related entries arranged ∧ arranged.Perm others

namespace Rearranged

variable {related : κ → α → β → Prop} {results : κ → γ → δ → Prop}
  {entries newer : OrderedMap κ α} {others newerOthers : OrderedMap κ β}

theorem keys_perm (rearranged : Rearranged related entries others) :
    (keys entries).Perm (keys others) := by
  obtain ⟨arranged, pointwise, perm⟩ := rearranged.arranged
  rw [pointwise.keys]
  exact perm.map Prod.fst

theorem distinct_others (rearranged : Rearranged related entries others) : Distinct others :=
  rearranged.keys_perm.nodup_iff.mp rearranged.distinct

theorem isEmpty (rearranged : Rearranged related entries others) :
    entries.isEmpty = others.isEmpty := by
  have same := rearranged.keys_perm.isEmpty_eq
  simpa only [keys, List.isEmpty_map] using same

theorem imp {implied : κ → α → β → Prop} (rearranged : Rearranged related entries others)
    (implies : ∀ key value other, (key, value) ∈ entries → related key value other →
      implied key value other) : Rearranged implied entries others := by
  obtain ⟨arranged, pointwise, perm⟩ := rearranged.arranged
  exact ⟨rearranged.distinct, arranged, pointwise.imp implies, perm⟩

theorem map {f : κ × α → γ} {g : κ × β → δ} (rearranged : Rearranged related entries others)
    (each : ∀ key value other, related key value other →
      results key (f (key, value)) (g (key, other))) :
    Rearranged results (entries.map fun entry => (entry.1, f entry))
      (others.map fun entry => (entry.1, g entry)) := by
  obtain ⟨arranged, pointwise, perm⟩ := rearranged.arranged
  refine ⟨Distinct.of_keys ?_ rearranged.distinct, _, pointwise.map each, perm.map _⟩
  simp [keys, Function.comp_def]

theorem flatMap_perm {f : κ × α → List γ} {g : κ × β → List γ}
    (rearranged : Rearranged related entries others)
    (each : ∀ key value other, related key value other →
      (f (key, value)).Perm (g (key, other))) :
    (List.flatMap f entries).Perm (List.flatMap g others) := by
  obtain ⟨arranged, pointwise, perm⟩ := rearranged.arranged
  exact (pointwise.flatMap_perm each).trans (perm.flatMap_right g)

theorem mapM {ε ζ : Type} {f : κ × α → Except ε (κ × γ)} {g : κ × β → Except ζ (κ × δ)}
    (rearranged : Rearranged related entries others)
    (each : ∀ key value other, related key value other →
      Agree (fun first second => first.1 = key ∧ second.1 = key ∧ results key first.2 second.2)
        (f (key, value)) (g (key, other))) :
    Agree (Rearranged results) (List.mapM f entries) (List.mapM g others) := by
  obtain ⟨arranged, pointwise, perm⟩ := rearranged.arranged
  refine (pointwise.mapM each).trans (agree_mapM_of_perm g perm) fun parts _ _ both later => ?_
  exact ⟨Distinct.of_keys both.1 rearranged.distinct, _, both.2, later⟩

variable [DecidableEq κ]

theorem get? (rearranged : Rearranged related entries others) (key : κ) :
    Option.Rel (related key) (OrderedMap.get? key entries) (OrderedMap.get? key others) := by
  obtain ⟨arranged, pointwise, perm⟩ := rearranged.arranged
  have distinct : Distinct arranged := .of_keys pointwise.keys.symm rearranged.distinct
  rw [← get?_of_perm distinct perm key]
  rcases pointwise.get? key with ⟨absent, absentOther⟩ | ⟨value, other, found, foundOther, both⟩
  · rw [absent, absentOther]
    exact .none
  · rw [found, foundOther]
    exact .some both

theorem exists_of_rel {related : α → β → Prop} {value : α} {found : Option β}
    (both : Option.Rel related (some value) found) :
    ∃ other, found = some other ∧ related value other := by
  cases both with
  | some both => exact ⟨_, rfl, both⟩

theorem of_get? (distinct : Distinct entries) (distinctOthers : Distinct others)
    (each : ∀ key, Option.Rel (related key) (OrderedMap.get? key entries)
      (OrderedMap.get? key others)) : Rearranged related entries others := by
  refine ⟨distinct, ?_⟩
  induction entries generalizing others with
  | nil =>
      cases others with
      | nil => exact ⟨[], .nil, .refl []⟩
      | cons entry rest =>
          have missing := each entry.1
          simp only [OrderedMap.get?, ↓reduceIte] at missing
          cases missing
  | cons entry rest ih =>
      obtain ⟨key, value⟩ := entry
      obtain ⟨absent, distinctRest⟩ := List.nodup_cons.mp distinct
      have here := each key
      simp only [OrderedMap.get?, ↓reduceIte] at here
      obtain ⟨other, found, both⟩ := exists_of_rel here
      -- the entry for the first key is moved to the front of the other map
      obtain ⟨before, after, rfl⟩ := List.append_of_mem (mem_of_get? found)
      have moved : ((key, other) :: (before ++ after)).Perm (before ++ (key, other) :: after) :=
        List.perm_middle.symm
      have distinctMoved : Distinct ((key, other) :: (before ++ after)) :=
        distinctOthers.of_perm moved.symm
      obtain ⟨absentOther, distinctLater⟩ := List.nodup_cons.mp distinctMoved
      obtain ⟨arranged, pointwise, perm⟩ := ih distinctRest distinctLater fun name => by
        by_cases same : key = name
        · subst same
          rw [get?_eq_none_iff.mpr absent, get?_eq_none_iff.mpr absentOther]
          exact .none
        · have there := each name
          rw [← get?_of_perm distinctMoved moved name] at there
          simpa only [OrderedMap.get?, same, ↓reduceIte] using there
      exact ⟨(key, other) :: arranged, .cons ⟨rfl, both⟩ pointwise, (perm.cons _).trans moved⟩

theorem or_rel {related : α → β → Prop} {first second : Option α} {other another : Option β}
    (both : Option.Rel related first other) (later : Option.Rel related second another) :
    Option.Rel related (first.or second) (other.or another) := by
  cases both with
  | none => exact later
  | some both => exact .some both

theorem insertAll (rearranged : Rearranged related entries others)
    (later : Rearranged related newer newerOthers) :
    Rearranged related (OrderedMap.insertAll entries newer)
      (OrderedMap.insertAll others newerOthers) := by
  refine of_get? (distinct_insertAll rearranged.distinct newer)
    (distinct_insertAll rearranged.distinct_others newerOthers) fun key => ?_
  rw [get?_insertAll, get?_insertAll, get?_reverse key later.distinct,
    get?_reverse key later.distinct_others]
  exact or_rel (later.get? key) (rearranged.get? key)

end Rearranged

end OrderedMap

end ConfigContract
