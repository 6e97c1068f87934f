import ConfigContract.OrderedMap
import Mathlib.Data.List.Basic
import Mathlib.Data.List.Nodup

/-!
Looking keys up in maps that were written entry by entry: the last value written for a key counts,
and the entries come from what was written.
-/

namespace ConfigContract

namespace OrderedMap

variable {κ α β : Type}

@[simp] theorem distinct_nil : Distinct ([] : OrderedMap κ α) := List.nodup_nil

@[simp] theorem distinct_cons (key : κ) (value : α) (rest : OrderedMap κ α) :
    Distinct ((key, value) :: rest) ↔ key ∉ keys rest ∧ Distinct rest := List.nodup_cons

theorem Distinct.of_keys {entries : OrderedMap κ α} {others : OrderedMap κ β}
    (same : keys entries = keys others) (distinct : Distinct others) : Distinct entries := by
  rw [Distinct, same]
  exact distinct

theorem Distinct.of_perm {entries others : OrderedMap κ α} (perm : entries.Perm others)
    (distinct : Distinct entries) : Distinct others :=
  (perm.map Prod.fst).nodup_iff.mp distinct

theorem keys_append (first second : OrderedMap κ α) :
    keys (first ++ second) = keys first ++ keys second := by
  simp [keys]

theorem mapValues_cons (f : α → β) (entry : κ × α) (entries : OrderedMap κ α) :
    mapValues f (entry :: entries) = (entry.1, f entry.2) :: mapValues f entries := rfl

theorem keys_mapValues (f : α → β) (entries : OrderedMap κ α) :
    keys (mapValues f entries) = keys entries := by
  simp [keys, mapValues, Function.comp_def]

theorem mem_keys_flatMap {key : κ} {sources : List β} {f : β → OrderedMap κ α} :
    key ∈ keys (sources.flatMap f) ↔ ∃ source ∈ sources, key ∈ keys (f source) := by
  simp only [keys, List.map_flatMap, List.mem_flatMap]

variable [DecidableEq κ]

theorem mem_of_get? {key : κ} {value : α} {entries : OrderedMap κ α}
    (found : get? key entries = some value) : (key, value) ∈ entries := by
  induction entries with
  | nil => simp [get?] at found
  | cons entry rest ih =>
      obtain ⟨candidate, first⟩ := entry
      by_cases same : candidate = key
      · simp only [get?, same, ↓reduceIte, Option.some.injEq] at found
        simp [same, found]
      · simp only [get?, same, ↓reduceIte] at found
        exact List.mem_cons_of_mem _ (ih found)

theorem get?_eq_none_iff {key : κ} {entries : OrderedMap κ α} :
    get? key entries = none ↔ key ∉ keys entries := by
  induction entries with
  | nil => simp [get?]
  | cons entry rest ih =>
      obtain ⟨candidate, first⟩ := entry
      by_cases same : candidate = key
      · simp [get?, same]
      · have other : ¬ key = candidate := fun equal => same equal.symm
        simp [get?, same, other, ih]

theorem get?_eq_find? (key : κ) (entries : OrderedMap κ α) :
    get? key entries = (entries.find? fun entry => entry.1 == key).map Prod.snd := by
  induction entries with
  | nil => rfl
  | cons entry rest ih =>
      obtain ⟨candidate, value⟩ := entry
      by_cases same : candidate = key <;> simp [get?, same, ih]

theorem contains_iff {key : κ} {entries : OrderedMap κ α} :
    contains key entries = true ↔ key ∈ keys entries := by
  rw [contains, Option.isSome_iff_ne_none, ne_eq, get?_eq_none_iff, not_not]

theorem exists_of_mem_keys {key : κ} {entries : OrderedMap κ α} (known : key ∈ keys entries) :
    ∃ value, get? key entries = some value := by
  cases found : get? key entries with
  | none => exact absurd known (get?_eq_none_iff.mp found)
  | some value => exact ⟨value, rfl⟩

theorem get?_of_mem {key : κ} {value : α} {entries : OrderedMap κ α}
    (distinct : Distinct entries) (member : (key, value) ∈ entries) :
    get? key entries = some value := by
  induction entries with
  | nil => simp at member
  | cons entry rest ih =>
      obtain ⟨candidate, first⟩ := entry
      obtain ⟨absent, distinctRest⟩ := List.nodup_cons.mp distinct
      rcases List.mem_cons.mp member with here | later
      · cases here
        simp [get?]
      · have known : key ∈ keys rest := List.mem_map_of_mem later
        have different : ¬ candidate = key := fun same => absent (same ▸ known)
        simp [get?, different, ih distinctRest later]

theorem get?_of_perm {entries others : OrderedMap κ α} (distinct : Distinct entries)
    (perm : entries.Perm others) (key : κ) : get? key entries = get? key others := by
  cases found : get? key others with
  | none =>
      rw [get?_eq_none_iff] at found ⊢
      exact fun known => found ((perm.map Prod.fst).mem_iff.mp known)
  | some value => exact get?_of_mem distinct (perm.mem_iff.mpr (mem_of_get? found))

/-- Maps with the same keys in the same places are equal if every key finds the same. -/
theorem eq_of_get? {entries others : OrderedMap κ α} (distinct : Distinct entries)
    (sameKeys : keys entries = keys others)
    (same : ∀ key, get? key entries = get? key others) : entries = others := by
  induction entries generalizing others with
  | nil =>
      cases others with
      | nil => rfl
      | cons another later => simp [keys] at sameKeys
  | cons entry rest ih =>
      cases others with
      | nil => simp [keys] at sameKeys
      | cons another later =>
          obtain ⟨key, value⟩ := entry
          obtain ⟨name, other⟩ := another
          obtain ⟨rfl, sameLater⟩ := List.cons.inj sameKeys
          obtain ⟨absent, distinctRest⟩ := List.nodup_cons.mp distinct
          have here : value = other := by simpa [get?] using same key
          have rests : rest = later := ih distinctRest sameLater fun name => by
            by_cases hit : key = name
            · subst hit
              have absentLater : key ∉ keys later := fun known => absent (sameLater ▸ known)
              rw [get?_eq_none_iff.mpr absent, get?_eq_none_iff.mpr absentLater]
            · simpa [get?, hit] using same name
          rw [here, rests]

theorem get?_of_same_value (key : κ) (value : α) (names : List κ) :
    get? key (names.map fun name => (name, value)) = if key ∈ names then some value else none := by
  induction names with
  | nil => rfl
  | cons name rest ih =>
      by_cases same : name = key
      · simp [get?, same]
      · have other : ¬ key = name := fun equal => same equal.symm
        simp [get?, same, other, ih]

theorem flatMap_keys {entries : OrderedMap κ α} (distinct : Distinct entries) (f : κ × α → List β)
    (g : κ → List β) (agree : ∀ key value, get? key entries = some value → f (key, value) = g key) :
    entries.flatMap f = (keys entries).flatMap g := by
  rw [keys, List.flatMap_map]
  apply List.flatMap_congr
  rintro ⟨key, value⟩ member
  exact agree key value (get?_of_mem distinct member)

theorem get?_append (key : κ) (first second : OrderedMap κ α) :
    get? key (first ++ second) = (get? key first).or (get? key second) := by
  induction first with
  | nil => simp [get?]
  | cons entry rest ih =>
      obtain ⟨candidate, value⟩ := entry
      by_cases same : candidate = key <;> simp [get?, same, ih]

theorem get?_mapValues (key : κ) (f : α → β) (entries : OrderedMap κ α) :
    get? key (mapValues f entries) = (get? key entries).map f := by
  induction entries with
  | nil => rfl
  | cons entry rest ih =>
      obtain ⟨candidate, value⟩ := entry
      by_cases same : candidate = key <;> simp [mapValues_cons, get?, same, ih]

theorem mapValues_insert (f : α → β) (key : κ) (value : α) (entries : OrderedMap κ α) :
    mapValues f (insert key value entries) = insert key (f value) (mapValues f entries) := by
  induction entries with
  | nil => rfl
  | cons entry rest ih =>
      obtain ⟨candidate, old⟩ := entry
      by_cases same : candidate = key <;> simp [mapValues_cons, insert, same, ih]

theorem get?_reverse (key : κ) {entries : OrderedMap κ α} (distinct : Distinct entries) :
    get? key entries.reverse = get? key entries := by
  cases found : get? key entries with
  | none =>
      rw [get?_eq_none_iff] at found ⊢
      simpa [keys] using found
  | some value =>
      have reversed : Distinct entries.reverse := by
        simpa [Distinct, keys, List.nodup_reverse] using distinct
      exact get?_of_mem reversed (List.mem_reverse.mpr (mem_of_get? found))

/-- Of several maps that are written one after another, the last one with the key counts. -/
theorem get?_reverse_flatMap (key : κ) {sources : List β} {f : β → OrderedMap κ α}
    (distinct : ∀ source ∈ sources, Distinct (f source)) :
    get? key (sources.flatMap f).reverse =
      sources.reverse.findSome? fun source => get? key (f source) := by
  induction sources with
  | nil => rfl
  | cons source rest ih =>
      obtain ⟨first, others⟩ := List.forall_mem_cons.mp distinct
      rw [List.flatMap_cons, List.reverse_append, get?_append, ih others, get?_reverse key first,
        List.reverse_cons, List.findSome?_append]
      simp

@[simp] theorem insertAll_nil (entries : OrderedMap κ α) : insertAll entries [] = entries := rfl

@[simp] theorem insertAll_cons (key : κ) (value : α) (entries rest : OrderedMap κ α) :
    insertAll entries ((key, value) :: rest) = insertAll (insert key value entries) rest := rfl

theorem insertAll_append (entries first second : OrderedMap κ α) :
    insertAll entries (first ++ second) = insertAll (insertAll entries first) second := by
  simp [insertAll, List.foldl_append]

theorem mem_insert {entry : κ × α} {key : κ} {value : α} {entries : OrderedMap κ α}
    (member : entry ∈ insert key value entries) : entry = (key, value) ∨ entry ∈ entries := by
  induction entries with
  | nil => simpa [insert] using member
  | cons first rest ih =>
      obtain ⟨candidate, old⟩ := first
      by_cases same : candidate = key
      · simp only [insert, same, ↓reduceIte, List.mem_cons] at member
        exact member.imp_right (List.mem_cons_of_mem _)
      · simp only [insert, same, ↓reduceIte, List.mem_cons] at member ⊢
        rcases member with here | later
        · exact .inr (.inl here)
        · exact (ih later).imp_right .inr

theorem get?_insertAll (key : κ) (entries newer : OrderedMap κ α) :
    get? key (insertAll entries newer) = (get? key newer.reverse).or (get? key entries) := by
  induction newer generalizing entries with
  | nil => simp [get?]
  | cons first rest ih =>
      obtain ⟨candidate, value⟩ := first
      rw [insertAll_cons, ih, get?_insert, List.reverse_cons, get?_append, Option.or_assoc]
      by_cases same : candidate = key <;> simp [get?, same]

theorem distinct_insertAll {entries : OrderedMap κ α} (distinct : Distinct entries)
    (newer : OrderedMap κ α) : Distinct (insertAll entries newer) := by
  induction newer generalizing entries with
  | nil => exact distinct
  | cons first rest ih => exact ih (distinct_insert first.1 first.2 distinct)

theorem insertAll_of_distinct (entries newer : OrderedMap κ α)
    (distinct : Distinct (entries ++ newer)) : insertAll entries newer = entries ++ newer := by
  induction newer generalizing entries with
  | nil => simp
  | cons first rest ih =>
      obtain ⟨key, value⟩ := first
      have absent : key ∉ keys entries := by
        intro known
        rw [Distinct, keys_append, List.nodup_append] at distinct
        exact distinct.2.2 key known key (by simp) rfl
      have appended : insert key value entries = entries ++ [(key, value)] := by
        clear distinct ih
        induction entries with
        | nil => rfl
        | cons entry tail ih =>
            obtain ⟨candidate, old⟩ := entry
            simp only [keys_cons, List.mem_cons, not_or] at absent
            have different : ¬ candidate = key := fun same => absent.1 same.symm
            simp [insert, different, ih absent.2]
      rw [insertAll_cons, appended, ih _ (by simpa using distinct)]
      simp

theorem insert_insert_same (key : κ) (value old : α) (entries : OrderedMap κ α) :
    insert key value (insert key old entries) = insert key value entries := by
  induction entries with
  | nil => simp [insert]
  | cons entry rest ih =>
      obtain ⟨candidate, first⟩ := entry
      by_cases same : candidate = key <;> simp [insert, same, ih]

theorem insert_comm {key other : κ} (different : key ≠ other) (value second : α)
    {entries : OrderedMap κ α} (known : key ∈ keys entries) :
    insert key value (insert other second entries) =
      insert other second (insert key value entries) := by
  induction entries with
  | nil => simp at known
  | cons entry rest ih =>
      obtain ⟨candidate, first⟩ := entry
      by_cases same : candidate = key
      · subst same
        simp [insert, different]
      · have later : key ∈ keys rest := by
          simpa [show ¬ key = candidate from fun equal => same equal.symm] using known
        by_cases hit : candidate = other
        · subst hit
          simp [insert, same]
        · simp [insert, same, hit, ih later]

theorem mem_keys_insert {key other : κ} (value : α) {entries : OrderedMap κ α}
    (known : key ∈ keys entries) : key ∈ keys (insert other value entries) := by
  rw [keys_insert]
  split
  next => exact known
  next => exact List.mem_append_left _ known

theorem insertAll_insert_known {key : κ} (value : α) {entries newer : OrderedMap κ α}
    (known : key ∈ keys entries) (absent : key ∉ keys newer) :
    insertAll (insert key value entries) newer = insert key value (insertAll entries newer) := by
  induction newer generalizing entries with
  | nil => rfl
  | cons first rest ih =>
      obtain ⟨candidate, second⟩ := first
      simp only [keys_cons, List.mem_cons, not_or] at absent
      rw [insertAll_cons, insertAll_cons, ← insert_comm absent.1 value second known,
        ih (mem_keys_insert second known) absent.2]

theorem insertAll_insert (key : κ) (value : α) (entries : OrderedMap κ α) {newer : OrderedMap κ α}
    (distinct : Distinct newer) :
    insertAll entries (insert key value newer) = insert key value (insertAll entries newer) := by
  induction newer generalizing entries with
  | nil => rfl
  | cons first rest ih =>
      obtain ⟨candidate, old⟩ := first
      obtain ⟨absent, distinctRest⟩ := List.nodup_cons.mp distinct
      by_cases same : candidate = key
      · subst same
        have known : candidate ∈ keys (insert candidate old entries) := by
          rw [keys_insert]
          split <;> simp_all
        simp only [insert, ↓reduceIte, insertAll_cons]
        rw [← insertAll_insert_known value known absent, insert_insert_same]
      · simp [insert, same, ih _ distinctRest]

/-- Entries may be written into a map of their own before they are written over another. -/
theorem insertAll_insertAll (entries : OrderedMap κ α) {own : OrderedMap κ α}
    (distinct : Distinct own) (newer : OrderedMap κ α) :
    insertAll entries (insertAll own newer) = insertAll (insertAll entries own) newer := by
  induction newer generalizing own with
  | nil => rfl
  | cons first rest ih =>
      obtain ⟨key, value⟩ := first
      rw [insertAll_cons, ih (distinct_insert key value distinct),
        insertAll_insert key value entries distinct, insertAll_cons]

theorem eraseDups_of_nodup {keys : List κ} (distinct : keys.Nodup) : keys.eraseDups = keys := by
  induction keys with
  | nil => rfl
  | cons key rest ih =>
      obtain ⟨absent, distinctRest⟩ := List.nodup_cons.mp distinct
      have kept : rest.filter (fun other => !other == key) = rest := by
        rw [List.filter_eq_self]
        intro other member
        have different : other ≠ key := fun same => absent (same ▸ member)
        simpa using different
      rw [List.eraseDups_cons, kept, ih distinctRest]

theorem keys_insertAll {entries : OrderedMap κ α} (distinct : Distinct entries)
    (newer : OrderedMap κ α) :
    keys (insertAll entries newer) = (keys entries ++ keys newer).eraseDups := by
  induction newer generalizing entries with
  | nil => simp [eraseDups_of_nodup distinct]
  | cons first rest ih =>
      obtain ⟨key, value⟩ := first
      rw [insertAll_cons, ih (distinct_insert key value distinct), keys_insert, keys_cons]
      split
      next known => simp [List.eraseDups_append, List.removeAll, known]
      next absent => simp

theorem modify_of_distinct (key : κ) (f : α → α) {entries : OrderedMap κ α}
    (distinct : Distinct entries) :
    modify key f entries =
      entries.map fun entry => (entry.1, if entry.1 = key then f entry.2 else entry.2) := by
  induction entries with
  | nil => rfl
  | cons entry rest ih =>
      obtain ⟨candidate, value⟩ := entry
      obtain ⟨absent, distinctRest⟩ := List.nodup_cons.mp distinct
      by_cases same : candidate = key
      · subst same
        have kept : rest.map (fun entry =>
            (entry.1, if entry.1 = candidate then f entry.2 else entry.2)) = rest := by
          refine (List.map_congr_left fun entry member => ?_).trans (List.map_id rest)
          have known : entry.1 ∈ keys rest := List.mem_map_of_mem member
          have different : entry.1 ≠ candidate := fun same => absent (same ▸ known)
          simp [different]
        simp [modify, kept]
      · simp [modify, same, ih distinctRest]

theorem nodup_eraseDups (names : List κ) : names.eraseDups.Nodup := by
  have written := distinct_insertAll distinct_nil (names.map fun name => (name, ()))
  rw [Distinct, keys_insertAll distinct_nil] at written
  simpa [keys, Function.comp_def] using written

end OrderedMap

end ConfigContract
