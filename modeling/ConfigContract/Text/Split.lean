/-!
Dividing a text at every occurrence of a character.
-/

namespace ConfigContract

/-- The parts between the separators, at least one. -/
def splitAtChar (separator : Char) : List Char → List (List Char)
  | [] => [[]]
  | c :: rest =>
      if c = separator then [] :: splitAtChar separator rest
      else
        match splitAtChar separator rest with
        | [] => [[c]]
        | part :: parts => (c :: part) :: parts

theorem splitAtChar_ne_nil (separator : Char) (s : List Char) : splitAtChar separator s ≠ [] := by
  cases s with
  | nil => simp [splitAtChar]
  | cons c rest =>
      simp only [splitAtChar]
      split
      · simp
      · split <;> simp

/-- Nothing but the separators is lost. -/
theorem intercalate_splitAtChar (separator : Char) (s : List Char) :
    [separator].intercalate (splitAtChar separator s) = s := by
  induction s with
  | nil => rfl
  | cons c rest ih =>
      simp only [splitAtChar]
      cases parts : splitAtChar separator rest with
      | nil => exact absurd parts (splitAtChar_ne_nil separator rest)
      | cons part more =>
          rw [parts] at ih
          split
          next same =>
            subst same
            rw [← ih]
            rfl
          next =>
            rw [← ih]
            cases more <;> rfl

theorem mem_intercalate {separator c : Char} {parts : List (List Char)}
    (member : c ∈ [separator].intercalate parts) : c = separator ∨ ∃ part ∈ parts, c ∈ part := by
  induction parts with
  | nil => simp at member
  | cons part more ih =>
      cases more with
      | nil => exact .inr ⟨part, List.mem_cons_self, by simpa using member⟩
      | cons next more =>
          rw [List.intercalate_cons_cons, List.mem_append, List.mem_append,
            List.mem_singleton] at member
          rcases member with (inside | same) | later
          · exact .inr ⟨part, List.mem_cons_self, inside⟩
          · exact .inl same
          · rcases ih later with same | ⟨other, listed, inside⟩
            · exact .inl same
            · exact .inr ⟨other, List.mem_cons_of_mem _ listed, inside⟩

theorem length_splitAtChar (separator : Char) (s : List Char) :
    (splitAtChar separator s).length = s.count separator + 1 := by
  induction s with
  | nil => rfl
  | cons c rest ih =>
      simp only [splitAtChar]
      cases parts : splitAtChar separator rest with
      | nil => exact absurd parts (splitAtChar_ne_nil separator rest)
      | cons part more =>
          rw [parts] at ih
          split
          next same => simp [same, ← ih]
          next different => simp [different, ← ih]

theorem splitAtChar_of_not_mem {separator : Char} {s : List Char} (absent : separator ∉ s) :
    splitAtChar separator s = [s] := by
  induction s with
  | nil => rfl
  | cons c rest ih =>
      simp only [List.mem_cons, not_or] at absent
      have different : ¬ c = separator := fun same => absent.1 same.symm
      simp [splitAtChar, different, ih absent.2]

/-- A separator divides what is before it from what is after it. -/
theorem splitAtChar_append_cons (separator : Char) (before rest : List Char) :
    splitAtChar separator (before ++ separator :: rest) =
      splitAtChar separator before ++ splitAtChar separator rest := by
  induction before with
  | nil => simp [splitAtChar]
  | cons c before ih =>
      simp only [List.cons_append, splitAtChar, ih]
      cases parts : splitAtChar separator before with
      | nil => exact absurd parts (splitAtChar_ne_nil separator before)
      | cons part more => split <;> rfl

theorem splitAtChar_append {separator : Char} {part : List Char} (absent : separator ∉ part)
    (rest : List Char) :
    splitAtChar separator (part ++ separator :: rest) = part :: splitAtChar separator rest := by
  rw [splitAtChar_append_cons, splitAtChar_of_not_mem absent, List.singleton_append]

/-- What is joined by a separator and a gap is divided again; the gap stays with what follows. -/
theorem splitAtChar_intercalate {separator : Char} {gap first : List Char} {rest : List (List Char)}
    (gapPlain : separator ∉ gap) (plain : ∀ part ∈ first :: rest, separator ∉ part) :
    splitAtChar separator ((separator :: gap).intercalate (first :: rest)) =
      first :: rest.map (gap ++ ·) := by
  have divided (before : List Char) (beforePlain : separator ∉ before) :
      splitAtChar separator (before ++ (separator :: gap).intercalate (first :: rest)) =
        (before ++ first) :: rest.map (gap ++ ·) := by
    induction rest generalizing before first with
    | nil =>
        have firstPlain := plain first (by simp)
        rw [List.intercalate_singleton,
          splitAtChar_of_not_mem (by simp [beforePlain, firstPlain]), List.map_nil]
    | cons next rest ih =>
        have firstPlain := plain first (by simp)
        have later := ih (fun part member => plain part (List.mem_cons_of_mem _ member)) gap
          gapPlain
        rw [List.intercalate_cons_cons, List.append_assoc, List.cons_append, ← List.append_assoc,
          splitAtChar_append (by simp [beforePlain, firstPlain]), later, List.map_cons]
  exact divided [] (List.not_mem_nil)

end ConfigContract
