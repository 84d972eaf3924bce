import Maxql.Engine.Assign

/-!
# The new rows of UPDATE

`fill_update_row` sets the assigned values one after the other.  Its result is
stated at once here: `assignedRow` is the row with the assigned values, and
`changesRow` says whether one of them compares unequal to the value that was
there, of whatever types the values are.

The groups are the new rows, what `analyze_update` assigns, and the loop of
`execute_update` over the rows that match.
-/

namespace Maxql

open Program Bytes

section NewRows

variable [UnionMemory]

/-! ## New rows -/

/-- The row with the values of an assignment.  A value that compares equal to the old one
is not set. -/
def assignedRow (values : List (Nat × DataValue)) (row : DataRow) : DataRow :=
  row.mapIdx fun i v =>
    match values.find? fun q => q.1 == i with
    | some q => if compareValue q.2 v = .ok 0 then v else q.2
    | none => v

/-- Some assigned value compares unequal to the value of the row. -/
def changesRow (values : List (Nat × DataValue)) (row : DataRow) : Bool :=
  values.any fun q => decide (compareValue q.2 (row.getD q.1 .null) ≠ .ok 0)

/-- The row matches and changes. -/
def isChanged (plan : UpdateExecPlan) (row : DataRow) : Bool :=
  passes plan.filter row && changesRow plan.values row

/-- The rows that change, each with its new row. -/
def filledPairs (values : List (Nat × DataValue)) (rows : List StoredRow) : List UpdatePair :=
  (rows.filter fun x => changesRow values x.row).map fun x =>
    { original := x, updated := assignedRow values x.row }

@[simp] theorem length_assignedRow (values : List (Nat × DataValue)) (row : DataRow) :
    (assignedRow values row).length = row.length := by
  unfold assignedRow
  rw [List.length_mapIdx]

theorem assignedRow_nil (row : DataRow) : assignedRow [] row = row := by
  unfold assignedRow
  apply List.ext_getElem?
  intro i
  simp

/-- A column that is not assigned keeps its value. -/
theorem assignedRow_other {values : List (Nat × DataValue)} {i : Nat}
    (hother : ∀ q ∈ values, q.1 ≠ i) (row : DataRow) :
    (assignedRow values row)[i]? = row[i]? := by
  have hnone : (values.find? fun q => q.1 == i) = none := by
    rw [List.find?_eq_none]
    intro q hq
    simpa using hother q hq
  unfold assignedRow
  rw [List.getElem?_mapIdx, hnone, Option.map_id']

/-- A row that does not change is its own new row. -/
theorem assignedRow_unchanged {values : List (Nat × DataValue)} {row : DataRow}
    (h : changesRow values row = false) : assignedRow values row = row := by
  unfold assignedRow
  apply List.ext_getElem?
  intro i
  rw [List.getElem?_mapIdx]
  cases hget : row[i]? with
  | none => rfl
  | some v =>
    rw [Option.map_some]
    split
    · next q hfind =>
      have hpos : q.1 = i := by simpa using List.find?_some hfind
      have hq := List.any_eq_false.1 h q (List.mem_of_find?_eq_some hfind)
      rw [List.getD_eq_getElem?_getD, hpos, hget] at hq
      rw [if_pos (by simpa using hq)]
    · rfl

theorem mem_filledPairs {values : List (Nat × DataValue)} {rows : List StoredRow}
    {pair : UpdatePair} : pair ∈ filledPairs values rows ↔ ∃ x ∈ rows,
      changesRow values x.row = true ∧
        pair = { original := x, updated := assignedRow values x.row } := by
  unfold filledPairs
  rw [List.mem_map]
  constructor
  · rintro ⟨x, hx, rfl⟩
    obtain ⟨hx, hchanged⟩ := List.mem_filter.1 hx
    exact ⟨x, hx, hchanged, rfl⟩
  · rintro ⟨x, hx, hchanged, rfl⟩
    exact ⟨x, List.mem_filter.2 ⟨hx, hchanged⟩, rfl⟩

theorem filledPairs_ascending {values : List (Nat × DataValue)} {rows : List StoredRow}
    (hasc : rows.Pairwise fun x y => x.offset < y.offset) :
    (filledPairs values rows).Pairwise fun a b => a.original.offset < b.original.offset := by
  unfold filledPairs
  rw [List.pairwise_map]
  exact hasc.sublist List.filter_sublist

/-! ## What is assigned -/

/-- Values for different columns of a table, of whatever types. -/
structure AssignsApart (columns : List Column) (values : List (Nat × DataValue)) : Prop where
  distinct : (values.map (·.1)).Nodup
  inside : ∀ q ∈ values, q.1 < columns.length
  present : ∀ q ∈ values, q.2.type ≠ .null

omit [UnionMemory]

theorem AssignsApart.tail {columns : List Column} {q : Nat × DataValue}
    {values : List (Nat × DataValue)} (h : AssignsApart columns (q :: values)) :
    AssignsApart columns values where
  distinct := (List.nodup_cons.1 h.distinct).2
  inside := (List.forall_mem_cons.1 h.inside).2
  present := (List.forall_mem_cons.1 h.present).2

theorem AssignsApart.ne {columns : List Column} {q p : Nat × DataValue}
    {values : List (Nat × DataValue)} (h : AssignsApart columns (q :: values))
    (hp : p ∈ values) : p.1 ≠ q.1 := by
  intro heq
  apply (List.nodup_cons.1 h.distinct).1
  show q.1 ∈ values.map (·.1)
  rw [← heq]
  exact List.mem_map_of_mem hp

/-- There is one value for a column at most. -/
theorem AssignsApart.find_eq {columns : List Column} {values : List (Nat × DataValue)}
    (h : AssignsApart columns values) {q : Nat × DataValue} (hq : q ∈ values) :
    (values.find? fun p => p.1 == q.1) = some q := by
  induction values with
  | nil => cases hq
  | cons p values ih =>
    rcases List.mem_cons.1 hq with rfl | hq
    · rw [List.find?_cons_of_pos (by simp)]
    · rw [List.find?_cons_of_neg (by simpa using Ne.symm (h.ne hq))]
      exact ih h.tail hq

theorem convertValue_type {strtof : Strtof} {value : RawValue} {v : DataValue}
    (h : convertValue strtof value = .ok v) : v.type ≠ .null := by
  rintro htype
  cases v with
  | null =>
    unfold convertValue at h
    split at h
    · unfold convertNumber convertFloat convertInt at h
      simp only at h
      repeat' split at h
      all_goals cases h
    · unfold convertString at h
      split at h <;> cases h
    · unfold convertHex at h
      split at h
      · cases h
      · obtain ⟨bytes, -, h⟩ := bind_eq_ok.1 h
        split at h <;> cases h
  | _ => cases htype

theorem hasDuplicate_eq_false {names : List Text} (h : hasDuplicate names = false) :
    names.Nodup := by
  induction names with
  | nil => exact List.nodup_nil
  | cons name names ih =>
    rw [hasDuplicate, Bool.or_eq_false_iff] at h
    rw [List.nodup_cons]
    refine ⟨?_, ih h.2⟩
    intro hmem
    have hnot := h.1
    rw [List.contains_iff_mem.2 hmem] at hnot
    cases hnot

/-- Two names with one position are one name. -/
theorem findColumnIndex_inj {schema : TableSchema} {a b : Text} {pos : Nat}
    (ha : findColumnIndex schema a = .ok pos) (hb : findColumnIndex schema b = .ok pos) :
    a = b := by
  obtain ⟨column, hcolumn, rfl⟩ := findColumnIndex_spec ha
  obtain ⟨column', hcolumn', rfl⟩ := findColumnIndex_spec hb
  rw [Option.some.inj (hcolumn.symm.trans hcolumn')]

section Analyze

variable {strtof : Strtof} {t : TableState}

theorem analyzeUpdateAssignment_spec {schema : TableSchema} {assignment : Assignment}
    {q : Nat × DataValue} (h : analyzeUpdateAssignment strtof schema assignment = .ok q) :
    findColumnIndex schema assignment.column = .ok q.1 ∧ q.2.type ≠ .null := by
  obtain ⟨pos, hpos, h⟩ := bind_eq_ok.1 h
  obtain ⟨value, hvalue, h⟩ := bind_eq_ok.1 h
  cases h
  refine ⟨hpos, ?_⟩
  unfold convertFor at hvalue
  split at hvalue
  · next v hv =>
    cases hvalue
    exact convertValue_type hv
  · cases hvalue

theorem assignments_distinct {schema : TableSchema} {assignments : List Assignment}
    {values : List (Nat × DataValue)}
    (h : List.Forall₂ (fun a q => analyzeUpdateAssignment strtof schema a = .ok q)
      assignments values)
    (hnames : (assignments.map (·.column)).Nodup) : (values.map (·.1)).Nodup := by
  induction h with
  | nil => exact List.nodup_nil
  | @cons a q assignments values hfirst hrest ih =>
    rw [List.map_cons, List.nodup_cons] at hnames ⊢
    refine ⟨?_, ih hnames.2⟩
    intro hmem
    obtain ⟨q', hq', heq⟩ := List.mem_map.1 hmem
    obtain ⟨i, hi, rfl⟩ := List.mem_iff_getElem.1 hq'
    have hother := (analyzeUpdateAssignment_spec (hrest.get (hrest.length_eq ▸ hi) hi)).1
    rw [List.get_eq_getElem, List.get_eq_getElem, heq] at hother
    apply hnames.1
    rw [findColumnIndex_inj (analyzeUpdateAssignment_spec hfirst).1 hother]
    exact List.mem_map_of_mem (List.getElem_mem _)

/-- The values of an UPDATE that has passed its validator and its analyzer. -/
theorem analyzeUpdate_apart {stmt : UpdateStmt} {plan : UpdateExecPlan}
    (hplan : (do validateUpdate stmt; analyzeUpdate strtof t stmt) = .ok plan) :
    FilterTyped t.schema plan.filter ∧ AssignsApart t.schema.columns plan.values := by
  obtain ⟨_, hvalidate, hanalyze⟩ := bind_eq_ok.1 hplan
  obtain ⟨-, -, hanalyze⟩ := bind_eq_ok.1 hanalyze
  obtain ⟨values, hvalues, hanalyze⟩ := bind_eq_ok.1 hanalyze
  obtain ⟨filter, hfilter, hanalyze⟩ := bind_eq_ok.1 hanalyze
  cases hanalyze
  have hall := mapM_eq_ok.1 hvalues
  have hvalue : ∀ q ∈ values, ∃ column name, t.schema.columns[q.1]? = some column ∧
      findColumnIndex t.schema name = .ok q.1 ∧ q.2.type ≠ .null := by
    intro q hq
    obtain ⟨i, hi, rfl⟩ := List.mem_iff_getElem.1 hq
    obtain ⟨hpos, htype⟩ := analyzeUpdateAssignment_spec
      (List.Forall₂.get hall (hall.length_eq ▸ hi) hi)
    obtain ⟨column, hcolumn, -⟩ := findColumnIndex_spec hpos
    exact ⟨column, _, hcolumn, hpos, htype⟩
  refine ⟨analyzeWhere_typed hfilter, ?_, fun q hq => ?_, fun q hq => ?_⟩
  · apply assignments_distinct hall
    apply hasDuplicate_eq_false
    rw [← Bool.not_eq_true]
    intro hdup
    unfold validateUpdate at hvalidate
    rw [if_pos hdup] at hvalidate
    repeat (split at hvalidate; cases hvalidate)
    cases hvalidate
  · obtain ⟨column, _, hcolumn, -⟩ := hvalue q hq
    exact (List.getElem?_eq_some_iff.1 hcolumn).1
  · obtain ⟨_, _, -, -, htype⟩ := hvalue q hq
    exact htype

end Analyze

/-! ## The loop -/

variable [UnionMemory] {columns : List Column} {values : List (Nat × DataValue)} {row : DataRow}

/-- A column that is assigned keeps its value only if the two compare equal. -/
theorem assignedRow_assigned (h : AssignsApart columns values) {q : Nat × DataValue}
    (hq : q ∈ values) {v : DataValue} (hv : row[q.1]? = some v) :
    (assignedRow values row)[q.1]? = some (if compareValue q.2 v = .ok 0 then v else q.2) := by
  unfold assignedRow
  rw [List.getElem?_mapIdx, hv, Option.map_some, h.find_eq hq]

/-- A row has what its values and the values that are set have in common. -/
theorem forall₂_assignedRow {R : Column → DataValue → Prop} (h : AssignsApart columns values)
    (hrow : List.Forall₂ R columns row)
    (hvalues : ∀ q ∈ values, ∀ column, columns[q.1]? = some column →
      R column q.2 ∨ Equals q.2 (row.getD q.1 .null)) :
    List.Forall₂ R columns (assignedRow values row) := by
  refine List.forall₂_iff_get.2 ⟨by rw [length_assignedRow, hrow.length_eq], ?_⟩
  intro i hi hi'
  rw [length_assignedRow] at hi'
  have hv : row[i]? = some row[i] := List.getElem?_eq_getElem hi'
  have hR := List.Forall₂.get hrow hi hi'
  have hcolumn : columns[i]? = some columns[i] := List.getElem?_eq_getElem hi
  have hnew : ∀ w, (assignedRow values row)[i]? = some w → R (columns.get ⟨i, hi⟩) w →
      R (columns.get ⟨i, hi⟩) ((assignedRow values row).get ⟨i, by rwa [length_assignedRow]⟩) := by
    intro w hw hRw
    have hget : (assignedRow values row).get ⟨i, by rwa [length_assignedRow]⟩ = w :=
      (List.getElem_eq_iff _).2 hw
    rwa [hget]
  by_cases hassigned : ∃ q ∈ values, q.1 = i
  · obtain ⟨q, hq, rfl⟩ := hassigned
    apply hnew _ (assignedRow_assigned h hq hv)
    split
    · exact hR
    · next hne =>
      rcases hvalues q hq _ hcolumn with hfits | hsame
      · exact hfits
      · rw [List.getD_eq_getElem?_getD, hv, Option.getD_some] at hsame
        exact absurd hsame hne
  · apply hnew _ ((assignedRow_other (fun q hq heq => hassigned ⟨q, hq, heq⟩) row).trans hv)
    exact hR

/-- The values behind the first one do not touch its column. -/
theorem assignedRow_set {q : Nat × DataValue} (h : AssignsApart columns (q :: values))
    {current : DataValue} (hcurrent : row[q.1]? = some current)
    (hne : compareValue q.2 current ≠ .ok 0) :
    assignedRow values (row.set q.1 q.2) = assignedRow (q :: values) row := by
  have hnone : (values.find? fun p => p.1 == q.1) = none := by
    rw [List.find?_eq_none]
    intro p hp
    simpa using h.ne hp
  unfold assignedRow
  apply List.ext_getElem?
  intro i
  rw [List.getElem?_mapIdx, List.getElem?_mapIdx]
  by_cases hi : q.1 = i
  · subst hi
    obtain ⟨hlt, _⟩ := List.getElem?_eq_some_iff.1 hcurrent
    rw [List.getElem?_set_self hlt, hcurrent]
    simp [hnone, hne]
  · rw [List.getElem?_set_ne hi]
    have hbeq : (q.1 == i) = false := by simpa using hi
    simp [hbeq]

theorem assignedRow_same {q : Nat × DataValue} (h : AssignsApart columns (q :: values))
    {current : DataValue} (hcurrent : row[q.1]? = some current)
    (heq : compareValue q.2 current = .ok 0) :
    assignedRow values row = assignedRow (q :: values) row := by
  have hnone : (values.find? fun p => p.1 == q.1) = none := by
    rw [List.find?_eq_none]
    intro p hp
    simpa using h.ne hp
  unfold assignedRow
  apply List.ext_getElem?
  intro i
  rw [List.getElem?_mapIdx, List.getElem?_mapIdx]
  by_cases hi : q.1 = i
  · subst hi
    rw [hcurrent]
    simp [hnone, heq]
  · have hbeq : (q.1 == i) = false := by simpa using hi
    simp [hbeq]

/-- Assignments to other columns change what they would have changed before. -/
theorem changesRow_set {q : Nat × DataValue} (h : AssignsApart columns (q :: values))
    (row : DataRow) (v : DataValue) :
    changesRow values (row.set q.1 v) = changesRow values row := by
  unfold changesRow
  rw [Bool.eq_iff_iff, List.any_eq_true, List.any_eq_true]
  have hsame : ∀ p ∈ values, (row.set q.1 v).getD p.1 .null = row.getD p.1 .null := by
    intro p hp
    rw [List.getD_eq_getElem?_getD, List.getD_eq_getElem?_getD,
      List.getElem?_set_ne (Ne.symm (h.ne hp))]
  constructor
  · rintro ⟨p, hp, hne⟩
    rw [hsame p hp] at hne
    exact ⟨p, hp, hne⟩
  · rintro ⟨p, hp, hne⟩
    rw [← hsame p hp] at hne
    exact ⟨p, hp, hne⟩

/-- `fill_update_row` never fails, whatever the types of the values. -/
theorem fillUpdateRow_eq {values : List (Nat × DataValue)} :
    ∀ {row : DataRow} (changed : Bool), AssignsApart columns values →
      row.length = columns.length → fillUpdateRow values row changed
        = .ok (assignedRow values row, changed || changesRow values row) := by
  induction values with
  | nil =>
    intro row changed _ _
    rw [assignedRow_nil, fillUpdateRow, changesRow, List.any_nil, Bool.or_false]
  | cons q values ih =>
    intro row changed hvalues hrow
    have hlt : q.1 < row.length := hrow ▸ hvalues.inside q List.mem_cons_self
    have hcurrent : row[q.1]? = some row[q.1] := List.getElem?_eq_getElem hlt
    obtain ⟨n, hn⟩ := exists_compareValue (hvalues.present q List.mem_cons_self) row[q.1]
    have hget : row.getD q.1 .null = row[q.1] := by
      rw [List.getD_eq_getElem?_getD, hcurrent, Option.getD_some]
    obtain ⟨pos, value⟩ := q
    rw [fillUpdateRow, readAt_of_getElem? hcurrent, Checked.ok_bind, hn, Checked.ok_bind]
    have hfirst : changesRow ((pos, value) :: values) row
        = (decide (n ≠ 0) || changesRow values row) := by
      unfold changesRow
      simp only [List.any_cons, hget, hn, ne_eq, Except.ok.injEq]
    by_cases hzero : n = 0
    · subst hzero
      rw [if_neg (by simp), ih changed hvalues.tail hrow, assignedRow_same hvalues hcurrent hn,
        hfirst]
      simp
    · rw [if_pos hzero, writeAt, if_pos hlt, Checked.ok_bind,
        ih true hvalues.tail (by rw [List.length_set, hrow]),
        assignedRow_set hvalues hcurrent (by rw [hn]; simpa using hzero),
        changesRow_set hvalues, hfirst]
      simp [hzero]

/-- The pairs of an UPDATE: the rows that change, each with its new row. -/
theorem updatePairs_eq (hvalues : AssignsApart columns values) {rows : List StoredRow}
    (hrows : ∀ x ∈ rows, x.row.length = columns.length) :
    updatePairs values rows = .ok (filledPairs values rows) := by
  induction rows with
  | nil => rfl
  | cons x rows ih =>
    obtain ⟨hx, hrest⟩ := List.forall_mem_cons.1 hrows
    rw [updatePairs, fillUpdateRow_eq false hvalues hx, Checked.ok_bind]
    simp only [ih hrest, Checked.ok_bind, Bool.false_or]
    unfold filledPairs
    rw [List.filter_cons]
    cases changesRow values x.row <;> rfl

end NewRows

end Maxql
