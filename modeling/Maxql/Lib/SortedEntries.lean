import Mathlib.Data.List.Sort

/-!
# Entries in key order

A three-way comparator `cmp : K → K → Int` in the manner of C: negative,
zero or positive.  `TotalCmp cmp` says that it is a strict total order whose
only equal keys are the same key.  The second part of the file is about lists
of entries that ascend under such a comparator: how they are looked up,
extended and shrunk, and that all three act inside a context of smaller
entries on the left and greater ones on the right.
-/

namespace SortedEntries

variable {K V : Type}

/-- `cmp` is a three-way total order on `K`. -/
structure TotalCmp (cmp : K → K → Int) : Prop where
  eq_zero : ∀ {a b : K}, cmp a b = 0 ↔ a = b
  neg_iff : ∀ {a b : K}, cmp a b < 0 ↔ 0 < cmp b a
  trans : ∀ {a b c : K}, cmp a b < 0 → cmp b c < 0 → cmp a c < 0

namespace TotalCmp

variable {cmp : K → K → Int} (h : TotalCmp cmp)

include h

theorem self (a : K) : cmp a a = 0 := h.eq_zero.2 rfl

theorem asymm {a b : K} (hab : cmp a b < 0) : ¬cmp b a < 0 := by
  have := h.neg_iff.1 hab
  omega

theorem ne_of_lt {a b : K} (hab : cmp a b < 0) : a ≠ b := by
  rintro rfl
  rw [h.self] at hab
  omega

theorem trichotomy (a b : K) : cmp a b < 0 ∨ a = b ∨ cmp b a < 0 := by
  rcases Int.lt_trichotomy (cmp a b) 0 with hlt | heq | hgt
  · exact Or.inl hlt
  · exact Or.inr (Or.inl (h.eq_zero.1 heq))
  · exact Or.inr (Or.inr (h.neg_iff.2 hgt))

end TotalCmp

/-- The entries are in strictly ascending key order. -/
def Ascending (cmp : K → K → Int) (L : List (K × V)) : Prop :=
  L.Pairwise fun x y => cmp x.1 y.1 < 0

/-- Every key of `L` is smaller than `k`. -/
def Below (cmp : K → K → Int) (L : List (K × V)) (k : K) : Prop :=
  ∀ x ∈ L, cmp x.1 k < 0

/-- Every key of `L` is greater than `k`. -/
def Above (cmp : K → K → Int) (L : List (K × V)) (k : K) : Prop :=
  ∀ x ∈ L, cmp k x.1 < 0

/-- The value under `k`. -/
def lookup (cmp : K → K → Int) (L : List (K × V)) (k : K) : Option V :=
  (L.find? fun x => cmp k x.1 = 0).map Prod.snd

/-- Key order of entries, for `List.orderedInsert`. -/
def KeyLe (cmp : K → K → Int) (x y : K × V) : Prop := cmp x.1 y.1 ≤ 0

instance (cmp : K → K → Int) : DecidableRel (KeyLe (V := V) cmp) :=
  fun x y => inferInstanceAs (Decidable (cmp x.1 y.1 ≤ 0))

/-- The entries with `e` at its place. -/
def insertEntry (cmp : K → K → Int) (e : K × V) (L : List (K × V)) :
    List (K × V) :=
  L.orderedInsert (KeyLe cmp) e

/-- The entries without those under `k`. -/
def eraseKey (cmp : K → K → Int) (k : K) (L : List (K × V)) : List (K × V) :=
  L.filter fun x => cmp k x.1 ≠ 0

section Lists

variable {cmp : K → K → Int} {A B L : List (K × V)} {k : K} {v : V}

theorem ascending_append :
    Ascending cmp (A ++ B) ↔ Ascending cmp A ∧ Ascending cmp B ∧
      ∀ x ∈ A, ∀ y ∈ B, cmp x.1 y.1 < 0 :=
  List.pairwise_append

theorem ascending_cons {e : K × V} :
    Ascending cmp (e :: L) ↔ Above cmp L e.1 ∧ Ascending cmp L :=
  List.pairwise_cons

theorem Ascending.sublist (h : Ascending cmp L) (hs : A.Sublist L) :
    Ascending cmp A :=
  List.Pairwise.sublist hs h

/-- Around an entry of an ascending list, the keys are smaller on the left and
greater on the right. -/
theorem Ascending.split {e : K × V} (h : Ascending cmp (A ++ e :: B)) :
    Below cmp A e.1 ∧ Above cmp B e.1 := by
  obtain ⟨_, hright, hcross⟩ := ascending_append.1 h
  exact ⟨fun x hx => hcross x hx e (by simp), (ascending_cons.1 hright).1⟩

@[simp] theorem below_append : Below cmp (A ++ B) k ↔ Below cmp A k ∧ Below cmp B k := by
  simp [Below, or_imp, forall_and]

@[simp] theorem above_append : Above cmp (A ++ B) k ↔ Above cmp A k ∧ Above cmp B k := by
  simp [Above, or_imp, forall_and]

@[simp] theorem below_cons {e : K × V} :
    Below cmp (e :: A) k ↔ cmp e.1 k < 0 ∧ Below cmp A k := by
  simp [Below]

@[simp] theorem above_cons {e : K × V} :
    Above cmp (e :: A) k ↔ cmp k e.1 < 0 ∧ Above cmp A k := by
  simp [Above]

@[simp] theorem below_nil : Below cmp ([] : List (K × V)) k := by simp [Below]

@[simp] theorem above_nil : Above cmp ([] : List (K × V)) k := by simp [Above]

theorem Below.sublist (h : Below cmp L k) (hs : A.Sublist L) : Below cmp A k :=
  fun x hx => h x (hs.subset hx)

theorem Above.sublist (h : Above cmp L k) (hs : A.Sublist L) : Above cmp A k :=
  fun x hx => h x (hs.subset hx)

variable (hc : TotalCmp cmp)

include hc

theorem Below.trans {k' : K} (h : Below cmp A k) (hk : cmp k k' < 0) :
    Below cmp A k' :=
  fun x hx => hc.trans (h x hx) hk

theorem Above.trans {k' : K} (h : Above cmp A k) (hk : cmp k' k < 0) :
    Above cmp A k' :=
  fun x hx => hc.trans hk (h x hx)

theorem Below.not_mem (h : Below cmp A k) : k ∉ A.map Prod.fst := by
  intro hk
  obtain ⟨x, hx, rfl⟩ := List.mem_map.1 hk
  exact hc.ne_of_lt (h x hx) rfl

theorem Above.not_mem (h : Above cmp A k) : k ∉ A.map Prod.fst := by
  intro hk
  obtain ⟨x, hx, rfl⟩ := List.mem_map.1 hk
  exact hc.ne_of_lt (h x hx) rfl

/-! ## Lookup -/

theorem lookup_eq_none (h : k ∉ L.map Prod.fst) : lookup cmp L k = none := by
  rw [lookup, Option.map_eq_none_iff, List.find?_eq_none]
  intro x hx hk
  have hkx : k = x.1 := hc.eq_zero.1 (by simpa using hk)
  exact h (List.mem_map.2 ⟨x, hx, hkx.symm⟩)

theorem lookup_append_of_not_mem (h : k ∉ A.map Prod.fst) :
    lookup cmp (A ++ L) k = lookup cmp L k := by
  have hnone : A.find? (fun x => cmp k x.1 = 0) = none := by
    simpa [lookup] using lookup_eq_none (V := V) hc h
  simp [lookup, List.find?_append, hnone]

theorem lookup_cons_self : lookup cmp ((k, v) :: L) k = some v := by
  simp [lookup, hc.self]

theorem lookup_at (h : Below cmp A k) : lookup cmp (A ++ (k, v) :: B) k = some v := by
  rw [lookup_append_of_not_mem hc (h.not_mem hc), lookup_cons_self hc]

/-- Only the part between smaller and greater entries matters. -/
theorem lookup_context (hA : Below cmp A k) (hB : Above cmp B k) :
    lookup cmp (A ++ L ++ B) k = lookup cmp L k := by
  rw [List.append_assoc, lookup_append_of_not_mem hc (hA.not_mem hc)]
  have hnone : B.find? (fun x => cmp k x.1 = 0) = none := by
    simpa [lookup] using lookup_eq_none (V := V) hc (hB.not_mem hc)
  simp [lookup, List.find?_append, hnone]

theorem mem_of_lookup (h : lookup cmp L k = some v) : (k, v) ∈ L := by
  obtain ⟨x, hx, rfl⟩ := Option.map_eq_some_iff.1 h
  have hk : cmp k x.1 = 0 := by simpa using List.find?_some hx
  rw [hc.eq_zero.1 hk]
  exact List.mem_of_find?_eq_some hx

theorem lookup_of_mem (hL : Ascending cmp L) (h : (k, v) ∈ L) :
    lookup cmp L k = some v := by
  obtain ⟨A, B, rfl⟩ := List.append_of_mem h
  exact lookup_at hc hL.split.1

theorem lookup_eq_some (hL : Ascending cmp L) :
    lookup cmp L k = some v ↔ (k, v) ∈ L :=
  ⟨mem_of_lookup hc, lookup_of_mem hc hL⟩

/-! ## Insertion -/

theorem insertEntry_at (hA : Below cmp A k) (hB : Above cmp B k) :
    insertEntry cmp (k, v) (A ++ B) = A ++ (k, v) :: B := by
  induction A with
  | nil =>
    cases B with
    | nil => rfl
    | cons b B =>
      have hb : cmp k b.1 < 0 := (above_cons.1 hB).1
      exact List.orderedInsert_cons_of_le _ B (show KeyLe cmp (k, v) b from Int.le_of_lt hb)
  | cons a A ih =>
    obtain ⟨ha, hA⟩ := below_cons.1 hA
    have hna : ¬KeyLe cmp (k, v) a := by
      have := hc.neg_iff.1 ha
      simpa [KeyLe] using this
    rw [List.cons_append, insertEntry, List.orderedInsert_of_not_le _ _ hna]
    exact congrArg _ (ih hA)

theorem exists_split (hL : Ascending cmp L) (h : k ∉ L.map Prod.fst) :
    ∃ A B, L = A ++ B ∧ Below cmp A k ∧ Above cmp B k := by
  induction L with
  | nil => exact ⟨[], [], rfl, below_nil, above_nil⟩
  | cons a L ih =>
    obtain ⟨ha, hL⟩ := ascending_cons.1 hL
    simp only [List.map_cons, List.mem_cons, not_or] at h
    rcases hc.trichotomy k a.1 with hlt | heq | hgt
    · exact ⟨[], a :: L, rfl, below_nil, above_cons.2 ⟨hlt, Above.trans hc ha hlt⟩⟩
    · exact absurd heq h.1
    · obtain ⟨A, B, rfl, hA, hB⟩ := ih hL h.2
      exact ⟨a :: A, B, rfl, below_cons.2 ⟨hgt, hA⟩, hB⟩

/-- Insertion takes place between the smaller and the greater entries. -/
theorem insertEntry_context (hL : Ascending cmp L) (h : k ∉ L.map Prod.fst)
    (hA : Below cmp A k) (hB : Above cmp B k) :
    insertEntry cmp (k, v) (A ++ L ++ B) = A ++ insertEntry cmp (k, v) L ++ B := by
  obtain ⟨C, D, rfl, hC, hD⟩ := exists_split hc hL h
  have hAC : Below cmp (A ++ C) k := below_append.2 ⟨hA, hC⟩
  have hDB : Above cmp (D ++ B) k := above_append.2 ⟨hD, hB⟩
  have hsplit : A ++ (C ++ D) ++ B = (A ++ C) ++ (D ++ B) := by simp
  rw [hsplit, insertEntry_at hc hAC hDB, insertEntry_at hc hC hD]
  simp

theorem ascending_insertEntry (hL : Ascending cmp L) (h : k ∉ L.map Prod.fst) :
    Ascending cmp (insertEntry cmp (k, v) L) := by
  obtain ⟨A, B, rfl, hA, hB⟩ := exists_split hc hL h
  rw [insertEntry_at hc hA hB]
  obtain ⟨hAa, hBa, hAB⟩ := ascending_append.1 hL
  refine ascending_append.2 ⟨hAa, ascending_cons.2 ⟨hB, hBa⟩, ?_⟩
  intro x hx y hy
  rcases List.mem_cons.1 hy with rfl | hy
  · exact hA x hx
  · exact hAB x hx y hy

omit hc in
theorem mem_insertEntry {e x : K × V} : x ∈ insertEntry cmp e L ↔ x = e ∨ x ∈ L :=
  List.mem_orderedInsert _

theorem lookup_insertEntry [DecidableEq K] (hL : Ascending cmp L)
    (h : k ∉ L.map Prod.fst) :
    lookup cmp (insertEntry cmp (k, v) L)
      = Function.update (lookup cmp L) k (some v) := by
  funext k'
  have hasc := ascending_insertEntry (v := v) hc hL h
  by_cases hk : k' = k
  · subst hk
    rw [Function.update_self]
    exact lookup_of_mem hc hasc (mem_insertEntry.2 (Or.inl rfl))
  · rw [Function.update_of_ne hk]
    refine Option.ext fun w => ?_
    rw [lookup_eq_some hc hasc, lookup_eq_some hc hL, mem_insertEntry]
    simp [hk]

/-! ## Removal -/

omit hc in
theorem mem_eraseKey {x : K × V} : x ∈ eraseKey cmp k L ↔ x ∈ L ∧ cmp k x.1 ≠ 0 := by
  simp [eraseKey]

omit hc in
theorem eraseKey_append : eraseKey cmp k (A ++ B) = eraseKey cmp k A ++ eraseKey cmp k B :=
  List.filter_append _ _

theorem eraseKey_cons_self : eraseKey cmp k ((k, v) :: L) = eraseKey cmp k L := by
  simp [eraseKey, hc.self]

theorem eraseKey_of_not_mem (h : k ∉ L.map Prod.fst) : eraseKey cmp k L = L := by
  rw [eraseKey, List.filter_eq_self]
  intro x hx
  have hne : k ≠ x.1 := fun hk => h (List.mem_map.2 ⟨x, hx, hk.symm⟩)
  simpa [hc.eq_zero] using hne

theorem eraseKey_at (hA : Below cmp A k) (hB : Above cmp B k) :
    eraseKey cmp k (A ++ (k, v) :: B) = A ++ B := by
  rw [eraseKey_append, eraseKey_cons_self hc, eraseKey_of_not_mem hc (hA.not_mem hc),
    eraseKey_of_not_mem hc (hB.not_mem hc)]

theorem eraseKey_context (hA : Below cmp A k) (hB : Above cmp B k) :
    eraseKey cmp k (A ++ L ++ B) = A ++ eraseKey cmp k L ++ B := by
  rw [eraseKey_append, eraseKey_append, eraseKey_of_not_mem hc (hA.not_mem hc),
    eraseKey_of_not_mem hc (hB.not_mem hc)]

omit hc in
theorem ascending_eraseKey (hL : Ascending cmp L) : Ascending cmp (eraseKey cmp k L) :=
  hL.sublist List.filter_sublist

theorem lookup_eraseKey [DecidableEq K] (hL : Ascending cmp L) :
    lookup cmp (eraseKey cmp k L) = Function.update (lookup cmp L) k none := by
  funext k'
  by_cases hk : k' = k
  · subst hk
    rw [Function.update_self]
    refine lookup_eq_none hc fun hmem => ?_
    obtain ⟨x, hx, rfl⟩ := List.mem_map.1 hmem
    exact (mem_eraseKey.1 hx).2 (hc.self _)
  · rw [Function.update_of_ne hk]
    refine Option.ext fun w => ?_
    rw [lookup_eq_some hc (ascending_eraseKey hL), lookup_eq_some hc hL, mem_eraseKey]
    have hne : cmp k k' ≠ 0 := fun h0 => hk (hc.eq_zero.1 h0).symm
    simp [hne]

end Lists

end SortedEntries
