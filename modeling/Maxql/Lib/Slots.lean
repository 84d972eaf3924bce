import Maxql.Lib.Program

/-!
# Arrays that are used up to some point

`Slots xs used cap`: the array `xs` has `cap` slots, the first ones hold `used`
and nothing is known about the rest.  The lemmas say what the array holds after
a write, a copy or a move, and that the access stays inside it.
-/

namespace Program

variable {α : Type}

/-- The first slots of `xs` hold `used`. -/
structure Slots (xs used : List α) (cap : Nat) : Prop where
  eq : ∃ junk, xs = used ++ junk
  len : xs.length = cap

namespace Slots

variable {xs ys used A B : List α} {cap cap' : Nat} {a x : α}

theorem length_le (h : Slots xs used cap) : used.length ≤ cap := by
  obtain ⟨junk, rfl⟩ := h.eq
  have hlen := h.len
  rw [List.length_append] at hlen
  omega

/-- A slot that is not in use. -/
theorem exists_free (h : Slots xs used cap) (hroom : used.length < cap) :
    ∃ j junk, xs = used ++ j :: junk := by
  obtain ⟨junk, rfl⟩ := h.eq
  have hlen := h.len
  rw [List.length_append] at hlen
  obtain ⟨j, junk, rfl⟩ := List.exists_cons_of_length_pos (l := junk) (by omega)
  exact ⟨j, junk, rfl⟩

theorem read (h : Slots xs used cap) {i : Nat} (hi : used[i]? = some a) :
    readAt xs i = .ok a := by
  obtain ⟨junk, rfl⟩ := h.eq
  apply readAt_of_getElem?
  rw [List.getElem?_append_left (List.getElem?_eq_some_iff.1 hi).1]
  exact hi

/-- Slots may be given up at the end. -/
theorem take (h : Slots xs (A ++ B) cap) : Slots xs A cap := by
  obtain ⟨junk, hxs⟩ := h.eq
  exact ⟨⟨B ++ junk, by rw [hxs, List.append_assoc]⟩, h.len⟩

theorem set (h : Slots xs (A ++ x :: B) cap) (a : α) :
    ∃ zs, writeAt xs A.length a = .ok zs ∧ Slots zs (A ++ a :: B) cap := by
  obtain ⟨junk, rfl⟩ := h.eq
  have hlen := h.len
  have hwrite := writeAt_append_cons A (B ++ junk) x a
  refine ⟨A ++ a :: (B ++ junk), by simpa using hwrite, ⟨junk, by simp⟩, ?_⟩
  simpa using hlen

/-- One more slot is used at the end. -/
theorem append (h : Slots xs used cap) (hroom : used.length < cap) (a : α) :
    ∃ zs, writeAt xs used.length a = .ok zs ∧ Slots zs (used ++ [a]) cap := by
  obtain ⟨j, junk, rfl⟩ := h.exists_free hroom
  have hlen := h.len
  exact ⟨used ++ a :: junk, writeAt_append_cons used junk j a, ⟨junk, by simp⟩,
    by simpa using hlen⟩

/-- One more slot is used at the front. -/
theorem prepend (h : Slots xs used cap) (hroom : used.length < cap) (a : α) :
    ∃ ys zs, copySlots xs 1 xs 0 used.length = .ok ys ∧ writeAt ys 0 a = .ok zs ∧
      Slots zs (a :: used) cap := by
  obtain ⟨j, junk, rfl⟩ := h.exists_free hroom
  obtain ⟨ys, hcopy, hwrite⟩ := copySlots_prepend used j junk a
  have hlen := h.len
  exact ⟨ys, _, hcopy, hwrite, ⟨junk, by simp⟩, by simpa [Nat.add_assoc] using hlen⟩

/-- The slots behind one that goes move down. -/
theorem remove (h : Slots xs (A ++ x :: B) cap) :
    ∃ zs, copySlots xs A.length xs (A.length + 1) B.length = .ok zs ∧
      Slots zs (A ++ B) cap := by
  obtain ⟨junk, rfl⟩ := h.eq
  have hlen := h.len
  obtain ⟨last, hcopy⟩ := copySlots_remove A x B junk
  refine ⟨A ++ (B ++ last :: junk), by simpa using hcopy, ⟨last :: junk, by simp⟩, ?_⟩
  simp only [List.length_append, List.length_cons] at hlen ⊢
  omega

/-- The same with one slot more than there are used ones, which must exist. -/
theorem remove_first (h : Slots xs (x :: B) cap) (hroom : (x :: B).length < cap) :
    ∃ zs, copySlots xs 0 xs 1 (x :: B).length = .ok zs ∧ Slots zs B cap := by
  obtain ⟨j, junk, rfl⟩ := h.exists_free hroom
  have hlen := h.len
  obtain ⟨last, hcopy⟩ := copySlots_remove [] x (B ++ [j]) junk
  refine ⟨B ++ [j] ++ last :: junk, by simpa using hcopy, ⟨j :: last :: junk, by simp⟩, ?_⟩
  simp only [List.length_append, List.length_cons] at hlen ⊢
  simpa [Nat.add_comm, Nat.add_left_comm, Nat.add_assoc] using hlen

/-- The used part of another array behind the used part of this one. -/
theorem copy (h : Slots xs A cap) (h' : Slots ys B cap') (hroom : A.length + B.length ≤ cap) :
    ∃ zs, copySlots xs A.length ys 0 B.length = .ok zs ∧ Slots zs (A ++ B) cap := by
  obtain ⟨junk, rfl⟩ := h.eq
  obtain ⟨junk', rfl⟩ := h'.eq
  have hlen := h.len
  rw [List.length_append] at hlen
  have hcut : A ++ junk = A ++ junk.take B.length ++ junk.drop B.length := by simp
  have hcopy := copySlots_parts A (junk.take B.length) (junk.drop B.length) [] B junk'
    (by rw [List.length_take]; omega)
  rw [← hcut] at hcopy
  refine ⟨A ++ B ++ junk.drop B.length, by simpa using hcopy, ⟨_, rfl⟩, ?_⟩
  simp only [List.length_append, List.length_drop]
  omega

end Slots

end Program
