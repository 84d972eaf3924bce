import Mathlib.Logic.Function.Basic

/-!
# Unique indexes

A table is a map from places to rows, and a unique index of it is a map from
keys to places.  The index inverts the table if it has exactly one entry for
each row, under the key of the row.  The lemmas say which updates of the two
maps keep this.
-/

namespace UniqueIndex

variable {P R K : Type} {key : R → K} {rows : P → Option R} {index : K → Option P}

/-- What the values of a map have in common, after an update. -/
theorem update_some {A B : Type} [DecidableEq A] {f : A → Option B} {Q : B → Prop}
    (h : ∀ a b, f a = some b → Q b) (new : A) (value : Option B)
    (hvalue : ∀ b, value = some b → Q b) :
    ∀ a b, Function.update f new value a = some b → Q b := by
  intro a b hb
  by_cases ha : a = new
  · subst ha
    rw [Function.update_self] at hb
    exact hvalue b hb
  · rw [Function.update_of_ne ha] at hb
    exact h a b hb

/-- The entries of the index are the keys of the rows with their places. -/
def Inverts (key : R → K) (rows : P → Option R) (index : K → Option P) : Prop :=
  ∀ k p, index k = some p ↔ ∃ r, rows p = some r ∧ key r = k

theorem inverts_empty : Inverts key (fun _ : P => none) fun _ => none := fun _ _ => by simp

theorem Inverts.lookup (h : Inverts key rows index) {p : P} {r : R} (hr : rows p = some r) :
    index (key r) = some p := (h _ _).2 ⟨r, hr, rfl⟩

/-- Rows of an inverted table have different keys. -/
theorem Inverts.eq_of_key_eq (h : Inverts key rows index) {p q : P} {r s : R}
    (hr : rows p = some r) (hs : rows q = some s) (heq : key r = key s) : p = q := by
  have hp := h.lookup hr
  rw [heq, h.lookup hs] at hp
  exact (Option.some.inj hp).symm

variable [DecidableEq P] [DecidableEq K]

/-- A new row at a free place, with a new key. -/
theorem Inverts.insert (h : Inverts key rows index) {p : P} {r : R} (hp : rows p = none)
    (hk : index (key r) = none) :
    Inverts key (Function.update rows p (some r)) (Function.update index (key r) (some p)) := by
  intro k q
  by_cases hkey : k = key r
  · subst hkey
    rw [Function.update_self]
    by_cases hq : q = p
    · subst hq
      simp
    · rw [Function.update_of_ne hq, ← h]
      simp [hk, Ne.symm hq]
  · rw [Function.update_of_ne hkey]
    by_cases hq : q = p
    · subst hq
      rw [Function.update_self, h]
      simp [hp, Ne.symm hkey]
    · rw [Function.update_of_ne hq, h]

/-- A row goes, and its key with it. -/
theorem Inverts.delete (h : Inverts key rows index) {p : P} {r : R} (hr : rows p = some r) :
    Inverts key (Function.update rows p none) (Function.update index (key r) none) := by
  intro k q
  by_cases hq : q = p
  · subst hq
    rw [Function.update_self]
    by_cases hkey : k = key r
    · subst hkey
      simp
    · rw [Function.update_of_ne hkey, h]
      simp [hr, Ne.symm hkey]
  · rw [Function.update_of_ne hq]
    by_cases hkey : k = key r
    · subst hkey
      rw [Function.update_self]
      refine ⟨fun h => absurd h (by simp), fun ⟨s, hs, heq⟩ => ?_⟩
      exact absurd (h.eq_of_key_eq hs hr heq) hq
    · rw [Function.update_of_ne hkey, h]

end UniqueIndex
