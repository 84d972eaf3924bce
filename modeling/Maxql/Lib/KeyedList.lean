import Mathlib.Data.List.Nodup

/-!
# Lists under unique keys

A table as SQL sees it: a list of rows, and a list of unique indexes.  An index
gives every row a key, and no two rows have one key in an index.  The last is
a field of the table, so an operation that would break it must refuse.

The groups are the tables, the operations, and what they refuse.
-/

namespace KeyedList

variable {I R K : Type}

/-! ## Tables -/

/-- Rows in their order, no two of them with one key in an index. -/
@[ext] structure Keyed (key : I → R → K) where
  indexes : List I
  rows : List R
  distinct : ∀ i ∈ indexes, (rows.map (key i)).Nodup

variable {key : I → R → K}

namespace Keyed

def empty (key : I → R → K) : Keyed key where
  indexes := []
  rows := []
  distinct := fun _ h => absurd h List.not_mem_nil

/-- Rows with one key are one row. -/
theorem eq_of_key_eq (t : Keyed key) {i : I} (hi : i ∈ t.indexes) {r s : R} (hr : r ∈ t.rows)
    (hs : s ∈ t.rows) (h : key i r = key i s) : r = s :=
  List.inj_on_of_nodup_map (t.distinct i hi) hr hs h

/-! ## Operations -/

variable [DecidableEq K]

/-- Some row has the key of `r`. -/
def taken (t : Keyed key) (i : I) (r : R) : Bool := t.rows.any fun s => key i s == key i r

theorem taken_iff {t : Keyed key} {i : I} {r : R} :
    t.taken i r = true ↔ ∃ s ∈ t.rows, key i s = key i r := by
  unfold taken
  rw [List.any_eq_true]
  exact exists_congr fun s => and_congr_right fun _ => beq_iff_eq

/-- A new row is refused by the first index that has its key. -/
def insert (t : Keyed key) (r : R) : Except I (Keyed key) :=
  match h : t.indexes.find? fun i => t.taken i r with
  | some i => .error i
  | none => .ok {
      indexes := t.indexes
      rows := t.rows ++ [r]
      distinct := by
        intro i hi
        have hfree := List.find?_eq_none.1 h i hi
        rw [taken_iff] at hfree
        rw [List.map_append, List.map_singleton, ← List.concat_eq_append]
        apply List.Nodup.concat _ (t.distinct i hi)
        intro hmem
        obtain ⟨s, hs, heq⟩ := List.mem_map.1 hmem
        exact hfree ⟨s, hs, heq⟩ }

/-- The rows with the property go. -/
def delete (t : Keyed key) (p : R → Bool) : Keyed key where
  indexes := t.indexes
  rows := t.rows.filter fun r => !p r
  distinct := fun i hi => (t.distinct i hi).sublist (List.filter_sublist.map _)

/-- Why an update is refused. -/
inductive Refusal (I : Type) where
  /-- A row would get a key in the index that a row has. -/
  | taken (i : I)
  /-- Two rows would get one key in the index. -/
  | shared (i : I)
  deriving DecidableEq, Repr

/-- The key of `r` would change to one that a row has. -/
def moves (t : Keyed key) (f : R → R) (r : R) (i : I) : Bool :=
  key i (f r) != key i r && t.taken i (f r)

theorem moves_iff {t : Keyed key} {f : R → R} {r : R} {i : I} :
    t.moves f r i = true ↔ key i (f r) ≠ key i r ∧ t.taken i (f r) = true := by
  unfold moves
  rw [Bool.and_eq_true, bne_iff_ne]

/-- The first row, and for it the first index, that refuses the update of the rows with the
property. -/
def firstMoved (t : Keyed key) (p : R → Bool) (f : R → R) : Option I :=
  (t.rows.filter p).findSome? fun r => t.indexes.find? (t.moves f r)

/-- The first index in which two updated rows would have one key. -/
def firstShared (t : Keyed key) (p : R → Bool) (f : R → R) : Option I :=
  t.indexes.find? fun i => !decide (((t.rows.filter p).map fun r => key i (f r)).Nodup)

theorem distinct_update (t : Keyed key) {p : R → Bool} {f : R → R}
    (hmoved : t.firstMoved p f = none) (hshared : t.firstShared p f = none) {i : I}
    (hi : i ∈ t.indexes) :
    (((t.rows.filter fun r => !p r) ++ (t.rows.filter p).map f).map (key i)).Nodup := by
  rw [List.map_append, List.map_map]
  apply List.Nodup.append
  · exact (t.distinct i hi).sublist (List.filter_sublist.map _)
  · have hnot := List.find?_eq_none.1 hshared i hi
    simp only [Bool.not_eq_true', decide_eq_false_iff_not, not_not] at hnot
    exact hnot
  · intro k hkept hnew
    obtain ⟨a, ha, rfl⟩ := List.mem_map.1 hkept
    obtain ⟨r, hr, heq⟩ := List.mem_map.1 hnew
    obtain ⟨ha, hpa⟩ := List.mem_filter.1 ha
    have hpr := (List.mem_filter.1 hr).2
    have hnone := List.findSome?_eq_none_iff.1 hmoved r hr
    have hstill := List.find?_eq_none.1 hnone i hi
    -- the key of `a` is taken, so `r` had it before
    have htaken : t.taken i (f r) = true := taken_iff.2 ⟨a, ha, heq.symm⟩
    have hsame : key i (f r) = key i r := by simpa [moves, htaken] using hstill
    have hrow := t.eq_of_key_eq hi ha (List.mem_of_mem_filter hr) (heq.symm.trans hsame)
    rw [hrow, hpr] at hpa
    cases hpa

/-- The rows with the property are replaced behind all others. -/
def update (t : Keyed key) (p : R → Bool) (f : R → R) : Except (Refusal I) (Keyed key) :=
  match hmoved : t.firstMoved p f with
  | some i => .error (.taken i)
  | none =>
    match hshared : t.firstShared p f with
    | some i => .error (.shared i)
    | none => .ok {
        indexes := t.indexes
        rows := (t.rows.filter fun r => !p r) ++ (t.rows.filter p).map f
        distinct := fun _ hi => t.distinct_update hmoved hshared hi }

/-- A new index is refused if two rows have one key in it. -/
def addIndex (t : Keyed key) (i : I) : Except I (Keyed key) :=
  if h : (t.rows.map (key i)).Nodup then .ok {
    indexes := t.indexes ++ [i]
    rows := t.rows
    distinct := by
      intro j hj
      rcases List.mem_append.1 hj with hj | hj
      · exact t.distinct j hj
      · obtain rfl := List.mem_singleton.1 hj
        exact h }
  else .error i

def dropIndex (t : Keyed key) (pos : Nat) : Keyed key where
  indexes := t.indexes.eraseIdx pos
  rows := t.rows
  distinct := fun i hi => t.distinct i (List.mem_of_mem_eraseIdx hi)

def clear (t : Keyed key) : Keyed key where
  indexes := t.indexes
  rows := []
  distinct := fun _ _ => List.nodup_nil

/-! ## Results -/

variable {t : Keyed key} {r : R} {p : R → Bool} {f : R → R}

theorem insert_of_taken {i : I} (h : (t.indexes.find? fun i => t.taken i r) = some i) :
    t.insert r = .error i := by
  unfold insert
  split
  · next j hj => rw [Option.some.inj (hj.symm.trans h)]
  · next hnone => rw [h] at hnone; cases hnone

theorem exists_insert (h : (t.indexes.find? fun i => t.taken i r) = none) :
    ∃ t', t.insert r = .ok t' ∧ t'.indexes = t.indexes ∧ t'.rows = t.rows ++ [r] := by
  unfold insert
  split
  · next j hj => rw [h] at hj; cases hj
  · exact ⟨_, rfl, rfl, rfl⟩

theorem update_of_moved {i : I} (h : t.firstMoved p f = some i) :
    t.update p f = .error (.taken i) := by
  unfold update
  split
  · next j hj => rw [Option.some.inj (hj.symm.trans h)]
  · next hnone => rw [h] at hnone; cases hnone

theorem update_of_shared {i : I} (hmoved : t.firstMoved p f = none)
    (h : t.firstShared p f = some i) : t.update p f = .error (.shared i) := by
  unfold update
  split
  · next j hj => rw [hmoved] at hj; cases hj
  · split
    · next j hj => rw [Option.some.inj (hj.symm.trans h)]
    · next hnone => rw [h] at hnone; cases hnone

theorem exists_update (hmoved : t.firstMoved p f = none) (hshared : t.firstShared p f = none) :
    ∃ t', t.update p f = .ok t' ∧ t'.indexes = t.indexes ∧
      t'.rows = (t.rows.filter fun r => !p r) ++ (t.rows.filter p).map f := by
  unfold update
  split
  · next j hj => rw [hmoved] at hj; cases hj
  · split
    · next j hj => rw [hshared] at hj; cases hj
    · exact ⟨_, rfl, rfl, rfl⟩

theorem addIndex_of_shared {i : I} (h : ¬(t.rows.map (key i)).Nodup) :
    t.addIndex i = .error i := by
  unfold addIndex
  rw [dif_neg h]

theorem exists_addIndex {i : I} (h : (t.rows.map (key i)).Nodup) :
    ∃ t', t.addIndex i = .ok t' ∧ t'.indexes = t.indexes ++ [i] ∧ t'.rows = t.rows := by
  unfold addIndex
  rw [dif_pos h]
  exact ⟨_, rfl, rfl, rfl⟩

theorem indexes_of_insert {t' : Keyed key} (h : t.insert r = .ok t') : t'.indexes = t.indexes := by
  cases hfind : t.indexes.find? fun i => t.taken i r with
  | some i =>
    rw [insert_of_taken hfind] at h
    cases h
  | none =>
    obtain ⟨t'', hrun, hindexes, -⟩ := exists_insert hfind
    rw [hrun] at h
    cases h
    exact hindexes

theorem indexes_of_update {t' : Keyed key} (h : t.update p f = .ok t') :
    t'.indexes = t.indexes := by
  cases hmoved : t.firstMoved p f with
  | some i =>
    rw [update_of_moved hmoved] at h
    cases h
  | none =>
    cases hshared : t.firstShared p f with
    | some i =>
      rw [update_of_shared hmoved hshared] at h
      cases h
    | none =>
      obtain ⟨t'', hrun, hindexes, -⟩ := exists_update hmoved hshared
      rw [hrun] at h
      cases h
      exact hindexes

theorem indexes_of_addIndex {i : I} {t' : Keyed key} (h : t.addIndex i = .ok t') :
    t'.indexes = t.indexes ++ [i] := by
  by_cases hnodup : (t.rows.map (key i)).Nodup
  · obtain ⟨t'', hrun, hindexes, -⟩ := exists_addIndex hnodup
    rw [hrun] at h
    cases h
    exact hindexes
  · rw [addIndex_of_shared hnodup] at h
    cases h

end Keyed

end KeyedList
