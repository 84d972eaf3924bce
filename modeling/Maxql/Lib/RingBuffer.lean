import Maxql.Lib.Program

/-!
# Ring buffers

An array that is written round and round, seen as the list of its entries, the
newest one first.  An entry is found by how far it is back from the place that
is written next.

* `RingBuffer.read`, `RingBuffer.readOldest`: an entry, counted from either end;
* `RingBuffer.push`: a new entry, for which the oldest one of a full ring goes.
-/

namespace Program

/-- The slot that is `back` places behind the one that is written next. -/
def ringIndex (cap write back : Nat) : Nat := (write + cap - back) % cap

section Index

variable {cap write back : Nat}

theorem ringIndex_of_le (hwrite : write < cap) (hback : back ≤ write) :
    ringIndex cap write back = write - back := by
  have hsum : write + cap - back = write - back + cap := by omega
  rw [ringIndex, hsum, Nat.add_mod_right, Nat.mod_eq_of_lt (by omega)]

theorem ringIndex_of_lt (hback : write < back) (hcap : back ≤ cap) :
    ringIndex cap write back = write + cap - back := by
  rw [ringIndex, Nat.mod_eq_of_lt (by omega)]

/-- The place behind the one that is written next. -/
theorem write_succ (hwrite : write < cap) :
    (write + 1) % cap = if write + 1 = cap then 0 else write + 1 := by
  split
  · next hend => rw [hend, Nat.mod_self]
  · exact Nat.mod_eq_of_lt (by omega)

/-- What was written last is one place back. -/
theorem ringIndex_newest (hwrite : write < cap) :
    ringIndex cap ((write + 1) % cap) 1 = write := by
  rw [write_succ hwrite]
  split
  · rw [ringIndex_of_lt (by omega) (by omega)]
    omega
  · rw [ringIndex_of_le (by omega) (by omega)]
    omega

/-- Everything else is one place further back than before. -/
theorem ringIndex_older (hwrite : write < cap) (hback : back < cap) :
    ringIndex cap ((write + 1) % cap) (back + 1) = ringIndex cap write back := by
  rw [write_succ hwrite]
  split
  · by_cases hle : back ≤ write
    · rw [ringIndex_of_lt (by omega) (by omega), ringIndex_of_le hwrite hle]
      omega
    · omega
  · by_cases hle : back ≤ write
    · rw [ringIndex_of_le (by omega) (by omega), ringIndex_of_le hwrite hle]
      omega
    · rw [ringIndex_of_lt (by omega) (by omega), ringIndex_of_lt (by omega) (by omega)]
      omega

theorem ringIndex_ne (hwrite : write < cap) (hpos : 0 < back) (hback : back < cap) :
    ringIndex cap write back ≠ write := by
  by_cases hle : back ≤ write
  · rw [ringIndex_of_le hwrite hle]
    omega
  · rw [ringIndex_of_lt (by omega) (by omega)]
    omega

/-- Forward from a slot that is further back. -/
theorem ringIndex_add {i : Nat} (hi : i ≤ back) (hback : back ≤ cap) :
    (ringIndex cap write back + i) % cap = ringIndex cap write (back - i) := by
  have hsum : write + cap - back + i = write + cap - (back - i) := by omega
  rw [ringIndex, ringIndex, Nat.mod_add_mod, hsum]

end Index

/-- The first `count` slots back from `write` hold `recent`, the newest entry first. -/
structure RingBuffer {α : Type} (slots : List α) (cap count write : Nat) (recent : List α)
    : Prop where
  len : slots.length = cap
  write_lt : write < cap
  count_eq : count = recent.length
  length_le : recent.length ≤ cap
  get : ∀ k < recent.length, slots[ringIndex cap write (k + 1)]? = recent[k]?

namespace RingBuffer

variable {α : Type} {slots recent : List α} {cap count write : Nat}

theorem empty (hlen : slots.length = cap) (hcap : 0 < cap) : RingBuffer slots cap 0 0 [] where
  len := hlen
  write_lt := hcap
  count_eq := rfl
  length_le := Nat.zero_le cap
  get := fun k hk => absurd hk (Nat.not_lt_zero k)

variable (h : RingBuffer slots cap count write recent)

include h

/-- An entry by how many newer ones there are. -/
theorem read {k : Nat} {a : α} (ha : recent[k]? = some a) :
    readAt slots (ringIndex cap write (k + 1)) = .ok a := by
  have hk := (List.getElem?_eq_some_iff.1 ha).1
  exact readAt_of_getElem? ((h.get k hk).trans ha)

/-- An entry by how many older ones there are. -/
theorem readOldest {i : Nat} {a : α} (ha : recent.reverse[i]? = some a) :
    readAt slots ((ringIndex cap write count + i) % cap) = .ok a := by
  have hi := (List.getElem?_eq_some_iff.1 ha).1
  rw [List.length_reverse] at hi
  rw [List.getElem?_reverse hi] at ha
  have hcount := h.count_eq
  have hle := h.length_le
  have hread := h.read ha
  have hback : recent.length - 1 - i + 1 = count - i := by omega
  rw [ringIndex_add (by omega) (by omega), ← hback]
  exact hread

/-- A new entry; of a full ring the oldest one goes. -/
theorem push (a : α) : ∃ slots', writeAt slots write a = .ok slots' ∧
    RingBuffer slots' cap (if count < cap then count + 1 else count) ((write + 1) % cap)
      ((a :: recent).take cap) := by
  have hwrite : write < slots.length := h.len ▸ h.write_lt
  have hcount := h.count_eq
  have hle := h.length_le
  refine ⟨slots.set write a, if_pos hwrite, (List.length_set).trans h.len,
    Nat.mod_lt _ (Nat.zero_lt_of_lt h.write_lt), ?_, List.length_take_le cap _, ?_⟩
  · rw [List.length_take, List.length_cons, hcount]
    split <;> omega
  · intro k hk
    rw [List.length_take, List.length_cons] at hk
    rw [List.getElem?_take_of_lt (by omega)]
    cases k with
    | zero =>
      rw [ringIndex_newest h.write_lt, List.getElem?_set_self hwrite]
      rfl
    | succ k =>
      have hne : ringIndex cap write (k + 1) ≠ write :=
        ringIndex_ne h.write_lt (Nat.succ_pos k) (by omega)
      rw [ringIndex_older h.write_lt (by omega), List.getElem?_set_ne hne.symm,
        h.get k (by omega)]
      rfl

end RingBuffer

end Program
