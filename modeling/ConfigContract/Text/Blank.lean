/-!
White space in the sense of the Unicode property of that name, and its removal at both ends of a
text.
-/

namespace ConfigContract

def isBlank (c : Char) : Bool :=
  let code := c.toNat
  (9 ≤ code && code ≤ 13) || code == 0x20 || code == 0x85 || code == 0xA0 || code == 0x1680 ||
    (0x2000 ≤ code && code ≤ 0x200A) || code == 0x2028 || code == 0x2029 || code == 0x202F ||
    code == 0x205F || code == 0x3000

def trimBlank (s : List Char) : List Char :=
  ((s.dropWhile isBlank).reverse.dropWhile isBlank).reverse

theorem dropWhile_isBlank_of_front {s : List Char} (front : ∀ c ∈ s.head?, isBlank c = false) :
    s.dropWhile isBlank = s := by
  cases s with
  | nil => rfl
  | cons c rest => simp [front c rfl]

theorem trimBlank_of_visible {s : List Char} (visible : ∀ c ∈ s, isBlank c = false) :
    trimBlank s = s := by
  have reversed : ∀ c ∈ s.reverse.head?, isBlank c = false := fun c front =>
    visible c (List.mem_reverse.mp (List.mem_of_mem_head? front))
  rw [trimBlank, dropWhile_isBlank_of_front fun c front => visible c (List.mem_of_mem_head? front),
    dropWhile_isBlank_of_front reversed, List.reverse_reverse]

theorem trimBlank_cons {c : Char} (blank : isBlank c = true) (s : List Char) :
    trimBlank (c :: s) = trimBlank s := by
  simp [trimBlank, blank]

theorem trimBlank_eq_nil_iff {s : List Char} : trimBlank s = [] ↔ ∀ c ∈ s, isBlank c = true := by
  induction s with
  | nil => simp [trimBlank]
  | cons c rest ih =>
      cases blank : isBlank c with
      | true => rw [trimBlank_cons blank, ih, List.forall_mem_cons, and_iff_right blank]
      | false =>
          have kept : trimBlank (c :: rest) ≠ [] := by
            simp only [trimBlank, List.dropWhile_cons, blank, Bool.false_eq_true, ↓reduceIte,
              List.reverse_cons, List.dropWhile_append]
            split <;> simp
          simp [kept, blank]

/-- Only white space is removed. -/
theorem exists_surrounding (s : List Char) : ∃ lead trail, (∀ c ∈ lead, isBlank c = true) ∧
    (∀ c ∈ trail, isBlank c = true) ∧ s = lead ++ (trimBlank s ++ trail) := by
  refine ⟨s.takeWhile isBlank, ((s.dropWhile isBlank).reverse.takeWhile isBlank).reverse,
    ?_, ?_, ?_⟩
  · intro c member
    exact List.all_eq_true.mp List.all_takeWhile c member
  · intro c member
    exact List.all_eq_true.mp List.all_takeWhile c (List.mem_reverse.mp member)
  · rw [trimBlank, ← List.reverse_append, List.takeWhile_append_dropWhile, List.reverse_reverse,
      List.takeWhile_append_dropWhile]

/-- White space around a text that does not begin or end with any is what is removed. -/
theorem trimBlank_surrounded {lead s trail : List Char} (blankLead : ∀ c ∈ lead, isBlank c = true)
    (blankTrail : ∀ c ∈ trail, isBlank c = true) (nonempty : s ≠ [])
    (front : ∀ c ∈ s.head?, isBlank c = false) (back : ∀ c ∈ s.getLast?, isBlank c = false) :
    trimBlank (lead ++ (s ++ trail)) = s := by
  have nonblank : ∀ c ∈ (s ++ trail).head?, isBlank c = false := by
    cases s with
    | nil => exact absurd rfl nonempty
    | cons c rest => exact front
  have trailing : ∀ c ∈ trail.reverse, isBlank c = true := fun c member =>
    blankTrail c (List.mem_reverse.mp member)
  rw [trimBlank, List.dropWhile_append_of_pos blankLead, dropWhile_isBlank_of_front nonblank,
    List.reverse_append, List.dropWhile_append_of_pos trailing,
    dropWhile_isBlank_of_front (by simpa using back), List.reverse_reverse]

end ConfigContract
