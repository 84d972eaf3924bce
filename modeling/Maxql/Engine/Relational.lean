import Maxql.Engine.UpdateUnique
import Maxql.FileRun

/-!
# What UPDATE and DELETE do to the rows of a table

Both executors read all rows that match before they write the first one, so a
row that an UPDATE appends is never read again.  On a table scan a DELETE
removes exactly the rows that match, and an UPDATE moves exactly the matching
rows that change to the end of the file, with their new values.

The groups are the rows that they collect, the data file, and the results.
-/

namespace Maxql

open Program Bytes

/-! ## Rows that are collected -/

/-- Well typed values for different columns. -/
structure AssignsColumns (columns : List Column) (values : List (Nat × DataValue)) : Prop where
  distinct : (values.map (·.1)).Nodup
  typed : ∀ q ∈ values, ∃ column, columns[q.1]? = some column ∧
    resolvedTypeValidate column.resolvedType q.2 = .ok

/-- The number that `execute_update` prints. -/
def updateAffectedRows [UnionMemory] (t : TableState) (plan : UpdateExecPlan)
    (decision : Option IndexDecision) : Checked Nat := do
  let pairs ← collectUpdates t plan decision
  .ok pairs.length

/-- The number that `execute_delete` prints. -/
def deleteAffectedRows [UnionMemory] (t : TableState) (filter : WhereFilter)
    (decision : Option IndexDecision) : Checked Nat := do
  let rows ← matchedRows t filter decision
  .ok rows.length

theorem AssignsColumns.apart {columns : List Column} {values : List (Nat × DataValue)}
    (h : AssignsColumns columns values) : AssignsApart columns values where
  distinct := h.distinct
  inside := fun q hq => by
    obtain ⟨c, hc, _⟩ := h.typed q hq
    exact (List.getElem?_eq_some_iff.1 hc).1
  present := fun q hq => by
    obtain ⟨c, _, hvalid⟩ := h.typed q hq
    rw [type_of_validate hvalid]
    exact c.resolvedType.valueType_ne_null

theorem AssignsColumns.each {columns : List Column} {values : List (Nat × DataValue)}
    (h : AssignsColumns columns values) :
    AssignsEach (fun c v => resolvedTypeValidate c.resolvedType v = .ok) columns values := by
  intro q hq c hc
  obtain ⟨c', hc', hvalid⟩ := h.typed q hq
  cases hc.symm.trans hc'
  exact hvalid

/-- The new row of a well typed row is well typed. -/
theorem AssignsColumns.rowTyped [UnionMemory] {columns : List Column}
    {values : List (Nat × DataValue)} (h : AssignsColumns columns values) {row : DataRow}
    (hrow : RowTyped columns row) : RowTyped columns (assignedRow values row) :=
  forall₂_assignedRow h.apart hrow fun q hq column hcolumn => Or.inl (h.each q hq column hcolumn)

/-- The pairs of an UPDATE that scans the table. -/
theorem collectUpdates_scan [UnionMemory] {t : TableState} {plan : UpdateExecPlan}
    {live : List StoredRow} (hscan : tableScan t.dataFile t.schema = .ok live)
    (hlive : ∀ x ∈ live, RowOfTypes t.schema.columns x.row)
    (hfilter : FilterTyped t.schema plan.filter)
    (hvalues : AssignsColumns t.schema.columns plan.values) :
    collectUpdates t plan none = .ok ((live.filter fun x => isChanged plan x.row).map
      fun x => { original := x, updated := assignedRow plan.values x.row }) := by
  have hmatched : ∀ x ∈ live.filter (fun x => passes plan.filter x.row),
      RowOfTypes t.schema.columns x.row := fun x hx => hlive x (List.mem_of_mem_filter hx)
  unfold collectUpdates matchedRows
  show (do
    let rows ← (do
      let source ← tableScan t.dataFile t.schema
      matchingRows plan.filter source)
    updatePairs plan.values rows) = _
  rw [hscan, Checked.ok_bind, matchingRows_eq hfilter hlive, Checked.ok_bind,
    updatePairs_eq hvalues.apart fun x hx => (hmatched x hx).length_eq.symm]
  unfold filledPairs
  rw [List.filter_filter]
  unfold isChanged
  simp only [Bool.and_comm]

/-! ## The data file -/

/-- A table whose data file holds the rows, all of them well typed. -/
structure TypedFile (schema : TableSchema) (dataFile : List UInt8)
    (rows : Nat → Option DataRow) : Prop where
  count : schema.columns.length ≤ maxColumnsPerTable
  columns : ∀ c ∈ schema.columns, c.resolvedType.Sound
  file : FileRows schema dataFile rows
  typed : ∀ offset row, rows offset = some row → RowTyped schema.columns row

section File

variable {schema : TableSchema} {dataFile : List UInt8} {rows : Nat → Option DataRow}

theorem length_storageDeleteRow (dataFile : List UInt8) (offset : Nat) :
    dataFile.length ≤ (storageDeleteRow dataFile offset).length := by
  unfold storageDeleteRow fwriteAt
  simp only [List.length_append, List.length_take, List.length_replicate, List.length_drop,
    List.length_cons, List.length_nil]
  omega

theorem TypedFile.delete (h : TypedFile schema dataFile rows) {offset : Nat} {row : DataRow}
    (hrow : rows offset = some row) :
    TypedFile schema (storageDeleteRow dataFile offset) (Function.update rows offset none) where
  count := h.count
  columns := h.columns
  file := h.file.delete hrow
  typed := UniqueIndex.update_some h.typed offset none fun r hr => by cases hr

theorem TypedFile.insert [UnionMemory] (h : TypedFile schema dataFile rows) {values : DataRow}
    (hrow : RowTyped schema.columns values) {dataFile' : List UInt8} {offset : Nat}
    (hstore : storageInsertRow dataFile values schema = .ok (dataFile', offset)) :
    offset = dataFile.length ∧ dataFile.length < dataFile'.length ∧
      TypedFile schema dataFile'
        (Function.update rows dataFile.length (some (storedRow schema.columns values))) := by
  obtain ⟨dataFile'', hstore', hfile⟩ := h.file.insert h.count h.columns hrow
  cases hstore.symm.trans hstore'
  refine ⟨rfl, ?_, h.count, h.columns, hfile, ?_⟩
  · by_contra hle
    have hnone := hfile.fresh (Nat.not_lt.1 hle)
    rw [Function.update_self] at hnone
    cases hnone
  · apply UniqueIndex.update_some h.typed
    intro r hr
    cases hr
    exact (hrow.stored h.columns).1

/-- The rows that a loop of `storage_delete_row` deletes. -/
theorem TypedFile.deleteRows {xs : List StoredRow} :
    ∀ {dataFile : List UInt8} {rows : Nat → Option DataRow}, TypedFile schema dataFile rows →
      (∀ x ∈ xs, rows x.offset = some x.row) →
      xs.Pairwise (fun x y => x.offset < y.offset) →
      ∃ rows', TypedFile schema (storageDeleteRows dataFile (xs.map (·.offset))) rows' ∧
        ∀ offset row, rows' offset = some row ↔
          rows offset = some row ∧ ∀ x ∈ xs, x.offset ≠ offset := by
  induction xs with
  | nil =>
    intro dataFile rows h _ _
    exact ⟨rows, h, fun offset row => by simp⟩
  | cons x xs ih =>
    intro dataFile rows h hrows hasc
    obtain ⟨hx, hxs⟩ := List.forall_mem_cons.1 hrows
    obtain ⟨hlt, hasc⟩ := List.pairwise_cons.1 hasc
    have hrest : ∀ y ∈ xs, Function.update rows x.offset none y.offset = some y.row := by
      intro y hy
      rw [Function.update_of_ne (Nat.ne_of_gt (hlt y hy))]
      exact hxs y hy
    obtain ⟨rows', h', hiff⟩ := ih (h.delete hx) hrest hasc
    refine ⟨rows', h', ?_⟩
    intro offset row
    rw [hiff, List.forall_mem_cons]
    by_cases hoffset : offset = x.offset
    · subst hoffset
      simp
    · rw [Function.update_of_ne hoffset]
      have hne : x.offset ≠ offset := Ne.symm hoffset
      tauto

/-- What the loop of `execute_update` leaves: the rows of the pairs are gone from their
offsets, and their new rows are behind the old end of the file. -/
theorem TypedFile.writeUpdates [UnionMemory] {pairs : List UpdatePair} :
    ∀ {t t' : TableState} {rows : Nat → Option DataRow}, TypedFile t.schema t.dataFile rows →
      (∀ pair ∈ pairs, rows pair.original.offset = some pair.original.row) →
      (∀ pair ∈ pairs, RowTyped t.schema.columns pair.updated) →
      pairs.Pairwise (fun a b => a.original.offset < b.original.offset) →
      Maxql.writeUpdates pairs t = .ok t' →
      ∃ rows', ∃ replaced : List StoredRow, t'.schema = t.schema ∧
        TypedFile t.schema t'.dataFile rows' ∧ replaced.map (·.row)
          = pairs.map (fun pair => storedRow t.schema.columns pair.updated) ∧
        (∀ y ∈ replaced, t.dataFile.length ≤ y.offset) ∧
        replaced.Pairwise (fun x y => x.offset < y.offset) ∧
        ∀ offset row, rows' offset = some row ↔
          (rows offset = some row ∧ ∀ pair ∈ pairs, pair.original.offset ≠ offset) ∨
            { row, offset } ∈ replaced := by
  induction pairs with
  | nil =>
    intro t t' rows h _ _ _ hrun
    cases hrun
    exact ⟨rows, [], rfl, h, rfl, fun _ hy => absurd hy List.not_mem_nil, .nil,
      fun offset row => by simp⟩
  | cons pair pairs ih =>
    intro t t' rows h hpresent htyped hasc hrun
    obtain ⟨hpair, hpresent⟩ := List.forall_mem_cons.1 hpresent
    obtain ⟨hrow, htyped⟩ := List.forall_mem_cons.1 htyped
    obtain ⟨hlt, hasc⟩ := List.pairwise_cons.1 hasc
    rw [Maxql.writeUpdates] at hrun
    obtain ⟨⟨dataFile, offset⟩, hstore, h₁⟩ := bind_eq_ok.1 hrun
    obtain ⟨⟨all, indexes₁⟩, _, h₂⟩ := bind_eq_ok.1 h₁
    obtain ⟨indexes₂, _, h₃⟩ := bind_eq_ok.1 h₂
    have hlen := length_storageDeleteRow t.dataFile pair.original.offset
    generalize hdeleted : storageDeleteRow t.dataFile pair.original.offset = deleted at hstore hlen
    obtain ⟨rfl, hgrow, h'⟩ := (hdeleted ▸ h.delete hpair).insert hrow hstore
    have hfresh : rows deleted.length = none := h.file.fresh hlen
    have hkept : ∀ q ∈ pairs, Function.update (Function.update rows pair.original.offset none)
        deleted.length (some (storedRow t.schema.columns pair.updated)) q.original.offset
        = some q.original.row := by
      intro q hq
      have hne : q.original.offset ≠ deleted.length := by
        intro heq
        have hsome := hpresent q hq
        rw [heq, hfresh] at hsome
        cases hsome
      rw [Function.update_of_ne hne, Function.update_of_ne (Nat.ne_of_gt (hlt q hq))]
      exact hpresent q hq
    obtain ⟨rows', replaced, hschema, hfile, hmap, hbelow, hreplaced, hiff⟩ :=
      @ih { t with dataFile, indexes := indexes₂ } _ _ h' hkept htyped hasc h₃
    refine ⟨rows', ⟨storedRow t.schema.columns pair.updated, deleted.length⟩ :: replaced,
      hschema, hfile, by rw [List.map_cons, hmap, List.map_cons], ?_, ?_, ?_⟩
    · intro y hy
      rcases List.mem_cons.1 hy with rfl | hy
      · exact hlen
      · have hle := hbelow y hy
        show t.dataFile.length ≤ y.offset
        simp only at hle
        omega
    · rw [List.pairwise_cons]
      refine ⟨?_, hreplaced⟩
      intro y hy
      have hle := hbelow y hy
      simp only at hle
      show deleted.length < y.offset
      omega
    · intro o row
      rw [hiff, List.forall_mem_cons, List.mem_cons, StoredRow.mk.injEq]
      by_cases ho : o = deleted.length
      · subst ho
        have hnot : ∀ q ∈ pairs, q.original.offset ≠ deleted.length := by
          intro q hq heq
          have hsome := hpresent q hq
          rw [heq, hfresh] at hsome
          cases hsome
        rw [Function.update_self, hfresh, Option.some.injEq]
        constructor
        · rintro (⟨rfl, _⟩ | hmem)
          · exact Or.inr (Or.inl ⟨rfl, rfl⟩)
          · exact Or.inr (Or.inr hmem)
        · rintro (⟨hnone, _⟩ | ⟨rfl, _⟩ | hmem)
          · cases hnone
          · exact Or.inl ⟨rfl, hnot⟩
          · exact Or.inr hmem
      · rw [Function.update_of_ne ho]
        by_cases hold : o = pair.original.offset
        · subst hold
          simp [ho]
        · rw [Function.update_of_ne hold]
          have hne : pair.original.offset ≠ o := Ne.symm hold
          tauto

end File

/-! ## Results -/

/-- A list of rows in the order of their offsets is determined by what it contains. -/
theorem eq_of_ascending {xs ys : List StoredRow}
    (hxs : xs.Pairwise fun x y => x.offset < y.offset)
    (hys : ys.Pairwise fun x y => x.offset < y.offset) (h : ∀ x, x ∈ xs ↔ x ∈ ys) : xs = ys := by
  have hirrefl : ∀ {zs : List StoredRow}, zs.Pairwise (fun x y => x.offset < y.offset) →
      zs.Nodup := by
    intro zs hzs
    apply hzs.imp
    intro x y hlt heq
    rw [heq] at hlt
    exact Nat.lt_irrefl _ hlt
  refine List.Perm.eq_of_pairwise ?_ hxs hys
    ((List.perm_ext_iff_of_nodup (hirrefl hxs) (hirrefl hys)).2 h)
  intro x y _ _ hxy hyx
  omega

/-- The scan of a file gives the list, if its rows are those of the file and in order. -/
theorem TypedFile.scan_eq {schema : TableSchema} {dataFile : List UInt8}
    {rows : Nat → Option DataRow} (h : TypedFile schema dataFile rows) {xs : List StoredRow}
    (hxs : xs.Pairwise fun x y => x.offset < y.offset)
    (hmem : ∀ offset row, rows offset = some row ↔ { row, offset } ∈ xs) :
    tableScan dataFile schema = .ok xs := by
  obtain ⟨live, hscan, hlive, hasc⟩ := h.file.scan
  rw [hscan, eq_of_ascending hasc hxs]
  intro x
  exact (hlive x.offset x.row).symm.trans (hmem x.offset x.row)

section Indexes

variable {schema : TableSchema}

theorem exists_indexSetDelete [UnionMemory] {indexes : IndexSet} {values : DataRow}
    (h : HasKeys indexes values) : ∃ all indexes', indexSetDelete indexes values
      = .ok (all, indexes') ∧ indexes'.map Prod.fst = indexes.map Prod.fst := by
  induction indexes with
  | nil => exact ⟨true, [], rfl, rfl⟩
  | cons entry indexes ih =>
    obtain ⟨⟨_, hkey⟩, hrest⟩ := List.forall_mem_cons.1 h
    obtain ⟨all, indexes', hdelete, hmeta⟩ := ih hrest
    rw [indexSetDelete, indexDelete, hkey, Checked.ok_bind, Checked.ok_bind]
    simp only
    split
    · exact ⟨_, _, rfl, rfl⟩
    · rw [hdelete, Checked.ok_bind]
      exact ⟨_, _, rfl, by rw [List.map_cons, hmeta, List.map_cons]⟩

theorem exists_deleteFromIndexes [UnionMemory] {xs : List StoredRow} :
    ∀ {indexes : IndexSet}, (∀ d ∈ indexes.map Prod.fst, d.Valid schema) →
      (∀ c ∈ schema.columns, c.resolvedType.Sound) →
      (∀ x ∈ xs, RowTyped schema.columns x.row) →
      ∃ indexes', deleteFromIndexes xs indexes = .ok indexes' := by
  induction xs with
  | nil => exact fun {indexes} _ _ _ => ⟨indexes, rfl⟩
  | cons x xs ih =>
    intro indexes hvalid hcolumns hxs
    obtain ⟨hx, hxs⟩ := List.forall_mem_cons.1 hxs
    have hkeys : HasKeys indexes x.row := by
      intro entry hentry
      have hd := hvalid entry.1 (List.mem_map_of_mem hentry)
      exact ⟨hd.unique, rowKey_eq hd hcolumns hx.ofTypes⟩
    obtain ⟨all, indexes', hdelete, hmeta⟩ := exists_indexSetDelete hkeys
    obtain ⟨indexes'', hrest⟩ := ih (by rwa [hmeta]) hcolumns hxs
    refine ⟨indexes'', ?_⟩
    rw [deleteFromIndexes, hdelete, Checked.ok_bind]
    exact hrest

end Indexes

section Statements

variable {t t' : TableState} {rows : Nat → Option DataRow} {live : List StoredRow}

theorem TypedFile.typedRows (h : TypedFile t.schema t.dataFile rows)
    (hlive : ∀ offset row, rows offset = some row ↔ { row, offset } ∈ live) :
    ∀ x ∈ live, rows x.offset = some x.row ∧ RowTyped t.schema.columns x.row := by
  intro x hx
  have hrow := (hlive x.offset x.row).2 hx
  exact ⟨hrow, h.typed _ _ hrow⟩

/-- The rows that a DELETE leaves. -/
theorem TypedFile.executeDelete [UnionMemory] (h : TypedFile t.schema t.dataFile rows)
    (hindexes : ∀ d ∈ t.indexMeta, d.Valid t.schema)
    (hscan : tableScan t.dataFile t.schema = .ok live)
    (hlive : ∀ offset row, rows offset = some row ↔ { row, offset } ∈ live)
    {filter : WhereFilter} (hfilter : FilterTyped t.schema filter) :
    (∃ t', Maxql.executeDelete t filter none = .ok (.ok t') ∧ t'.schema = t.schema ∧
      tableScan t'.dataFile t'.schema = .ok (live.filter fun x => !passes filter x.row)) ∧
    deleteAffectedRows t filter none
      = .ok (live.filter fun x => passes filter x.row).length := by
  have htyped := h.typedRows hlive
  have hasc := tableScan_ascending hscan
  have hmatched : matchedRows t filter none
      = .ok (live.filter fun x => passes filter x.row) := by
    unfold matchedRows
    show (do
      let source ← tableScan t.dataFile t.schema
      matchingRows filter source) = _
    rw [hscan, Checked.ok_bind, matchingRows_eq hfilter fun x hx => (htyped x hx).2.ofTypes]
  have hsub : ∀ x ∈ live.filter (fun x => passes filter x.row), x ∈ live := fun x hx =>
    List.mem_of_mem_filter hx
  obtain ⟨indexes, hdelete⟩ : ∃ indexes, deleteFromIndexes
      (live.filter fun x => passes filter x.row) t.indexes = .ok indexes :=
    exists_deleteFromIndexes hindexes h.columns fun x hx => (htyped x (hsub x hx)).2
  obtain ⟨rows', hfile, hiff⟩ := h.deleteRows (fun x hx => (htyped x (hsub x hx)).1)
    (hasc.sublist List.filter_sublist)
  constructor
  · unfold Maxql.executeDelete
    rw [hmatched, Checked.ok_bind, hdelete, Checked.ok_bind]
    split
    · next hnone =>
      refine ⟨t, rfl, rfl, ?_⟩
      rw [hscan, List.filter_eq_self.2]
      intro x hx
      have hnot := List.filter_eq_nil_iff.1 hnone x hx
      simpa using hnot
    · refine ⟨_, rfl, rfl, hfile.scan_eq (hasc.sublist List.filter_sublist) ?_⟩
      intro offset row
      rw [hiff, hlive, List.mem_filter]
      constructor
      · rintro ⟨hmem, hnot⟩
        refine ⟨hmem, ?_⟩
        by_contra hpass
        exact hnot ⟨row, offset⟩ (List.mem_filter.2 ⟨hmem, by simpa using hpass⟩) rfl
      · rintro ⟨hmem, hpass⟩
        refine ⟨hmem, ?_⟩
        intro x hx heq
        obtain ⟨hx, hxpass⟩ := List.mem_filter.1 hx
        obtain rfl := eq_of_offset_eq hasc hx hmem heq
        rw [hxpass] at hpass
        cases hpass
  · unfold deleteAffectedRows
    rw [hmatched, Checked.ok_bind]

/-- The rows that an UPDATE leaves. -/
theorem TypedFile.executeUpdate [UnionMemory] (h : TypedFile t.schema t.dataFile rows)
    (hscan : tableScan t.dataFile t.schema = .ok live)
    (hlive : ∀ offset row, rows offset = some row ↔ { row, offset } ∈ live)
    (plan : UpdateExecPlan) (hfilter : FilterTyped t.schema plan.filter)
    (hvalues : AssignsColumns t.schema.columns plan.values)
    (hrun : Maxql.executeUpdate t plan none = .ok (.ok t')) :
    ∃ replaced : List StoredRow, t'.schema = t.schema ∧
      tableScan t'.dataFile t'.schema
        = .ok ((live.filter fun x => !isChanged plan x.row) ++ replaced) ∧
      replaced.map (·.row) = (live.filter fun x => isChanged plan x.row).map
        (fun x => storedRow t.schema.columns (assignedRow plan.values x.row)) ∧
      ∀ y ∈ replaced, t.dataFile.length ≤ y.offset := by
  have htyped := h.typedRows hlive
  have hasc := tableScan_ascending hscan
  have hpairs := collectUpdates_scan hscan (fun x hx => (htyped x hx).2.ofTypes) hfilter hvalues
  unfold Maxql.executeUpdate at hrun
  rw [hpairs, Checked.ok_bind] at hrun
  obtain ⟨checked, _, hwrite⟩ := bind_eq_ok.1 hrun
  cases checked with
  | error e => cases hwrite
  | ok _ =>
    obtain ⟨t'', hwrite, hsame⟩ := bind_eq_ok.1 hwrite
    cases hsame
    have hsub : ∀ x ∈ live.filter (fun x => isChanged plan x.row), x ∈ live := fun x hx =>
      List.mem_of_mem_filter hx
    obtain ⟨rows', replaced, hschema, hfile, hmap, hbelow, hreplaced, hiff⟩ :=
      h.writeUpdates (by
        intro pair hpair
        obtain ⟨x, hx, rfl⟩ := List.mem_map.1 hpair
        exact (htyped x (hsub x hx)).1) (by
        intro pair hpair
        obtain ⟨x, hx, rfl⟩ := List.mem_map.1 hpair
        exact hvalues.rowTyped (htyped x (hsub x hx)).2) (by
        rw [List.pairwise_map]
        exact hasc.sublist List.filter_sublist) hwrite
    refine ⟨replaced, hschema, ?_, by rw [hmap, List.map_map]; rfl, hbelow⟩
    rw [hschema]
    apply hfile.scan_eq
    · rw [List.pairwise_append]
      refine ⟨hasc.sublist List.filter_sublist, hreplaced, ?_⟩
      -- the rows that stay are before the old end of the file
      intro x hx y hy
      have hle := hbelow y hy
      have hlt : x.offset < t.dataFile.length := by
        by_contra hge
        have hnone := h.file.fresh (Nat.not_lt.1 hge)
        rw [(htyped x (List.mem_of_mem_filter hx)).1] at hnone
        cases hnone
      omega
    · intro offset row
      rw [hiff, hlive, List.mem_append, List.mem_filter]
      constructor
      · rintro (⟨hmem, hnot⟩ | hmem)
        · refine Or.inl ⟨hmem, ?_⟩
          by_contra hchanged
          refine hnot ⟨⟨row, offset⟩, assignedRow plan.values row⟩ ?_ rfl
          exact List.mem_map.2
            ⟨⟨row, offset⟩, List.mem_filter.2 ⟨hmem, by simpa using hchanged⟩, rfl⟩
        · exact Or.inr hmem
      · rintro (⟨hmem, hsame⟩ | hmem)
        · refine Or.inl ⟨hmem, ?_⟩
          intro pair hpair heq
          obtain ⟨x, hx, rfl⟩ := List.mem_map.1 hpair
          obtain ⟨hx, hchanged⟩ := List.mem_filter.1 hx
          obtain rfl := eq_of_offset_eq hasc hx hmem heq
          rw [hchanged] at hsame
          cases hsame
        · exact Or.inr hmem

theorem TypedFile.updateAffectedRows [UnionMemory] (h : TypedFile t.schema t.dataFile rows)
    (hscan : tableScan t.dataFile t.schema = .ok live)
    (hlive : ∀ offset row, rows offset = some row ↔ { row, offset } ∈ live)
    {plan : UpdateExecPlan} (hfilter : FilterTyped t.schema plan.filter)
    (hvalues : AssignsColumns t.schema.columns plan.values) :
    Maxql.updateAffectedRows t plan none
      = .ok (live.filter fun x => isChanged plan x.row).length := by
  have htyped := h.typedRows hlive
  unfold Maxql.updateAffectedRows
  rw [collectUpdates_scan hscan (fun x hx => (htyped x hx).2.ofTypes) hfilter hvalues,
    Checked.ok_bind, List.length_map]

end Statements

/-- Rows that are replaced one for one, in another order. -/
theorem replaced_perm {rows : List StoredRow} (p : StoredRow → Bool) (f : StoredRow → DataRow) :
    (((rows.filter fun x => !p x).map (·.row)) ++ (rows.filter p).map f).Perm
      (rows.map fun x => if p x then f x else x.row) := by
  have hperm := (List.filter_append_perm p rows).map fun x => if p x then f x else x.row
  have hkept : (rows.filter fun x => !p x).map (fun x => if p x then f x else x.row)
      = (rows.filter fun x => !p x).map (·.row) := by
    apply List.map_congr_left
    intro x hx
    have hnot : p x = false := by simpa using (List.mem_filter.1 hx).2
    rw [hnot]
    rfl
  have hchanged : (rows.filter p).map (fun x => if p x then f x else x.row)
      = (rows.filter p).map f := by
    apply List.map_congr_left
    intro x hx
    rw [if_pos (List.mem_filter.1 hx).2]
  rw [List.map_append, hkept, hchanged] at hperm
  exact List.perm_append_comm.trans hperm

/-- On a table scan, DELETE removes the matching rows, and UPDATE replaces each matching row
that changes once, by its new row behind the old end of the file. -/
theorem update_delete_relational [UnionMemory] {t : TableState} {rows : Nat → Option DataRow}
    (h : TypedFile t.schema t.dataFile rows) (hindexes : ∀ d ∈ t.indexMeta, d.Valid t.schema)
    {filter : WhereFilter} (hfilter : FilterTyped t.schema filter) :
    ∃ live, tableScan t.dataFile t.schema = .ok live ∧
      ((∃ t', executeDelete t filter none = .ok (.ok t') ∧ t'.schema = t.schema ∧
          tableScan t'.dataFile t'.schema
            = .ok (live.filter fun x => !passes filter x.row)) ∧
        deleteAffectedRows t filter none
          = .ok (live.filter fun x => passes filter x.row).length) ∧
      ∀ values t', AssignsColumns t.schema.columns values →
        executeUpdate t ⟨values, filter⟩ none = .ok (.ok t') →
        ∃ after replaced : List StoredRow,
          t'.schema = t.schema ∧ tableScan t'.dataFile t'.schema = .ok after ∧
          after = (live.filter fun x => !isChanged ⟨values, filter⟩ x.row) ++ replaced ∧
          (∀ y ∈ replaced, t.dataFile.length ≤ y.offset) ∧
          (after.map (·.row)).Perm (live.map fun x => if isChanged ⟨values, filter⟩ x.row
            then storedRow t.schema.columns (assignedRow values x.row) else x.row) ∧
          (∀ x ∈ live, passes filter x.row = true → isChanged ⟨values, filter⟩ x.row = false →
            x.row = assignedRow values x.row) ∧
          updateAffectedRows t ⟨values, filter⟩ none
            = .ok (live.filter fun x => isChanged ⟨values, filter⟩ x.row).length := by
  obtain ⟨live, hscan, hlive, _⟩ := h.file.scan
  refine ⟨live, hscan, h.executeDelete hindexes hscan hlive hfilter, ?_⟩
  intro values t' hvalues hrun
  obtain ⟨replaced, hschema, hafter, hmap, hbelow⟩ :=
    h.executeUpdate hscan hlive ⟨values, filter⟩ hfilter hvalues hrun
  refine ⟨_, replaced, hschema, hafter, rfl, hbelow, ?_, ?_,
    h.updateAffectedRows hscan hlive hfilter hvalues⟩
  · rw [List.map_append, hmap]
    exact replaced_perm (fun x => isChanged ⟨values, filter⟩ x.row) _
  · intro x _ hpass hsame
    unfold isChanged at hsame
    rw [hpass, Bool.true_and] at hsame
    exact (assignedRow_unchanged hsame).symm

/-! ## Two small tables -/

open ClearedMemory

/-- The rows 1, 2 and 3. -/
def threeNumbers : TableState :=
  { schema := numbers
    dataFile := [0, 7, 0, 1, 0, 0, 0] ++ [0, 7, 0, 2, 0, 0, 0] ++ [0, 7, 0, 3, 0, 0, 0]
    indexes := [] }

/-- The rows 1 and 3 and, behind them, the row that was 2. -/
def threeNumbersSet : TableState :=
  { schema := numbers
    dataFile := [0, 7, 0, 1, 0, 0, 0] ++ [1, 7, 0, 2, 0, 0, 0] ++ [0, 7, 0, 3, 0, 0, 0]
      ++ [0, 7, 0, 3, 0, 0, 0]
    indexes := [] }

theorem typedFile_threeNumbers : ∃ rows, TypedFile numbers threeNumbers.dataFile rows := by
  have hempty : TypedFile numbers [] fun _ => none := by
    refine ⟨by decide, ?_, fileRows_empty, fun _ _ h => by cases h⟩
    intro c hc
    obtain rfl := List.mem_singleton.1 hc
    rfl
  have hone := (hempty.insert (.cons rfl .nil : RowTyped numbers.columns [.int 1]) rfl).2.2
  have htwo := (hone.insert (.cons rfl .nil : RowTyped numbers.columns [.int 2]) rfl).2.2
  exact ⟨_, (htwo.insert (.cons rfl .nil : RowTyped numbers.columns [.int 3]) rfl).2.2⟩

/-- `c >= 2`, and `c = 3` assigned: of the two rows that match, one changes. -/
theorem update_delete_relational_oneNumber : ∃ live after replaced : List StoredRow,
    tableScan threeNumbers.dataFile numbers = .ok live ∧
    deleteAffectedRows threeNumbers [⟨0, .int 2, .greatOrEqual⟩] none
      = .ok (live.filter fun x => passes [⟨0, .int 2, .greatOrEqual⟩] x.row).length ∧
    tableScan threeNumbersSet.dataFile numbers = .ok after ∧
    after = (live.filter fun x =>
      !isChanged ⟨[(0, .int 3)], [⟨0, .int 2, .greatOrEqual⟩]⟩ x.row) ++ replaced ∧
    (after.map (·.row)).Perm (live.map fun x =>
      if isChanged ⟨[(0, .int 3)], [⟨0, .int 2, .greatOrEqual⟩]⟩ x.row
      then storedRow numbers.columns (assignedRow [(0, .int 3)] x.row) else x.row) ∧
    updateAffectedRows threeNumbers ⟨[(0, .int 3)], [⟨0, .int 2, .greatOrEqual⟩]⟩ none
      = .ok (live.filter fun x =>
        isChanged ⟨[(0, .int 3)], [⟨0, .int 2, .greatOrEqual⟩]⟩ x.row).length := by
  have hfilter : FilterTyped numbers [⟨0, .int 2, .greatOrEqual⟩] := by
    intro p hp
    obtain rfl := List.mem_singleton.1 hp
    exact ⟨_, rfl, rfl⟩
  have hassigns : AssignsColumns numbers.columns [(0, .int 3)] := by
    refine ⟨by decide, ?_⟩
    intro q hq
    obtain rfl := List.mem_singleton.1 hq
    exact ⟨_, rfl, rfl⟩
  have hrun : executeUpdate threeNumbers ⟨[(0, .int 3)], [⟨0, .int 2, .greatOrEqual⟩]⟩ none
      = .ok (.ok threeNumbersSet) := rfl
  obtain ⟨rows, hrows⟩ := typedFile_threeNumbers
  obtain ⟨live, hscan, ⟨_, hdelete⟩, hupdate⟩ :=
    update_delete_relational (t := threeNumbers) hrows (fun d hd => by cases hd) hfilter
  obtain ⟨after, replaced, _, hafter, heq, _, hperm, _, hcount⟩ := hupdate _ _ hassigns hrun
  exact ⟨live, after, replaced, hscan, hdelete, hafter, heq, hperm, hcount⟩

def floats : TableSchema :=
  { tableName := text "t"
    columns := [{
      columnName := text "c", resolvedType := ⟨.float, 4, text "float"⟩, hasDefault := false
      defaultValue := .null }] }

/-- A table with one row that is no number. -/
def oneNan : TableState :=
  { schema := floats, dataFile := [0, 7, 0, 0, 0, 192, 127], indexes := [] }

/-- `update t set c = 1.0 where c = 2.0` leaves a row that is no number as it is: it compares
equal to both. -/
theorem nan_keeps : ∃ rows, TypedFile floats oneNan.dataFile rows ∧
    AssignsColumns floats.columns [(0, .float 0x3f800000)] ∧
    tableScan oneNan.dataFile floats = .ok [⟨[.float 0x7fc00000], 0⟩] ∧
    matchedRows oneNan [⟨0, .float 0x40000000, .equals⟩] none
      = .ok [⟨[.float 0x7fc00000], 0⟩] ∧
    executeUpdate oneNan ⟨[(0, .float 0x3f800000)], [⟨0, .float 0x40000000, .equals⟩]⟩ none
      = .ok (.ok oneNan) := by
  have hempty : TypedFile floats [] fun _ => none := by
    refine ⟨by decide, ?_, fileRows_empty, fun _ _ h => by cases h⟩
    intro c hc
    obtain rfl := List.mem_singleton.1 hc
    rfl
  have hinsert := (hempty.insert
    (.cons rfl .nil : RowTyped floats.columns [.float 0x7fc00000]) rfl).2.2
  refine ⟨_, hinsert, ⟨by decide, ?_⟩, by decide +kernel, by decide +kernel, rfl⟩
  intro q hq
  obtain rfl := List.mem_singleton.1 hq
  exact ⟨_, rfl, rfl⟩

end Maxql
