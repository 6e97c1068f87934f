/-!
Maps that keep their keys in the order of first insertion. Writing a key again replaces its value
and leaves it where it stood.
-/

namespace ConfigContract

abbrev OrderedMap (κ α : Type) := List (κ × α)

namespace OrderedMap

variable {κ α β : Type}

def keys (entries : OrderedMap κ α) : List κ := entries.map Prod.fst

def values (entries : OrderedMap κ α) : List α := entries.map Prod.snd

def mapValues (f : α → β) (entries : OrderedMap κ α) : OrderedMap κ β :=
  entries.map fun (key, value) => (key, f value)

/-- No key is written twice. -/
def Distinct (entries : OrderedMap κ α) : Prop := (keys entries).Nodup

@[simp] theorem keys_nil : keys ([] : OrderedMap κ α) = [] := rfl

@[simp] theorem keys_cons (key : κ) (value : α) (rest : OrderedMap κ α) :
    keys ((key, value) :: rest) = key :: keys rest := rfl

variable [DecidableEq κ]

def get? (key : κ) : OrderedMap κ α → Option α
  | [] => none
  | (candidate, value) :: rest => if candidate = key then some value else get? key rest

def contains (key : κ) (entries : OrderedMap κ α) : Bool := (get? key entries).isSome

/-- A known key keeps its place, a new key goes to the end. -/
def insert (key : κ) (value : α) : OrderedMap κ α → OrderedMap κ α
  | [] => [(key, value)]
  | (candidate, old) :: rest =>
      if candidate = key then (candidate, value) :: rest
      else (candidate, old) :: insert key value rest

def modify (key : κ) (f : α → α) : OrderedMap κ α → OrderedMap κ α
  | [] => []
  | (candidate, value) :: rest =>
      if candidate = key then (candidate, f value) :: rest
      else (candidate, value) :: modify key f rest

def insertAll (entries newer : OrderedMap κ α) : OrderedMap κ α :=
  newer.foldl (fun merged (key, value) => insert key value merged) entries

theorem keys_insert (key : κ) (value : α) (entries : OrderedMap κ α) :
    keys (insert key value entries) =
      if key ∈ keys entries then keys entries else keys entries ++ [key] := by
  induction entries with
  | nil => simp [insert]
  | cons entry rest ih =>
      obtain ⟨candidate, old⟩ := entry
      by_cases same : candidate = key
      · simp [insert, same]
      · have different : ¬ key = candidate := fun eq => same eq.symm
        simp only [insert, same, ↓reduceIte, keys_cons, ih, List.mem_cons, different, false_or]
        split <;> simp

theorem get?_insert (key query : κ) (value : α) (entries : OrderedMap κ α) :
    get? query (insert key value entries) =
      if key = query then some value else get? query entries := by
  induction entries with
  | nil => simp [insert, get?]
  | cons entry rest ih =>
      obtain ⟨candidate, old⟩ := entry
      by_cases same : candidate = key
      · by_cases hit : key = query <;> simp [insert, get?, same, hit]
      · by_cases hit : candidate = query
        · subst hit
          have other : ¬ key = candidate := fun eq => same eq.symm
          simp [insert, get?, same, other]
        · simp [insert, get?, same, hit, ih]

theorem distinct_insert (key : κ) (value : α) {entries : OrderedMap κ α}
    (distinct : Distinct entries) : Distinct (insert key value entries) := by
  unfold Distinct at *
  rw [keys_insert]
  split
  next => exact distinct
  next absent =>
    rw [List.nodup_append]
    exact ⟨distinct, by simp, by
      intro earlier member last same
      rw [List.mem_singleton] at same
      rintro rfl
      exact absent (same ▸ member)⟩

end OrderedMap

end ConfigContract
