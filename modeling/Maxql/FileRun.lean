import Maxql.DataFile

/-!
# Runs on a data file

A data file after any inserts and deletes is a row of records, one for each
insert in the order of the inserts, and a delete sets the flag of one of them.
So the scan gives exactly the rows that were inserted and not deleted.

The groups are the runs, the records of a run, its steps, and what is read at
its end.
-/

namespace Maxql

open Program Bytes

/-! ## Runs -/

/-- The data files that calls of the storage functions make from an empty one, with what was
inserted, each with the offset that `storage_insert_row` returned, and the offsets that were
deleted. -/
inductive FileRun [UnionMemory] (schema : TableSchema) :
    List UInt8 → List (Nat × DataRow) → List Nat → Prop
  | create : FileRun schema [] [] []
  | insertRow {dataFile dataFile' : List UInt8} {inserted : List (Nat × DataRow)}
      {deleted : List Nat} {values : DataRow} {offset : Nat}
      (h : FileRun schema dataFile inserted deleted) (hrow : RowTyped schema.columns values)
      (hinsert : storageInsertRow dataFile values schema = .ok (dataFile', offset)) :
      FileRun schema dataFile' (inserted ++ [(offset, values)]) deleted
  | deleteRow {dataFile : List UInt8} {inserted : List (Nat × DataRow)} {deleted : List Nat}
      {offset : Nat} (h : FileRun schema dataFile inserted deleted)
      (hoffset : offset ∈ inserted.map (·.1)) :
      FileRun schema (storageDeleteRow dataFile offset) inserted (deleted ++ [offset])
  | deleteRows {dataFile : List UInt8} {inserted : List (Nat × DataRow)} {deleted : List Nat}
      {offsets : List Nat} (h : FileRun schema dataFile inserted deleted)
      (hoffsets : ∀ offset ∈ offsets, offset ∈ inserted.map (·.1)) :
      FileRun schema (storageDeleteRows dataFile offsets) inserted (deleted ++ offsets)

/-- What a scan has to give: the rows that were inserted and not deleted. -/
def liveRows (schema : TableSchema) (inserted : List (Nat × DataRow)) (deleted : List Nat) :
    List StoredRow :=
  inserted.filterMap fun entry =>
    if entry.1 ∈ deleted then none
    else some { row := storedRow schema.columns entry.2, offset := entry.1 }

/-! ## Records of a run -/

section Marks

variable {columns : List Column}

/-- The records from position `pos` on, those at the given offsets with their flags set. -/
def mark (deleted : List Nat) (pos : Nat) : List (Record columns) → List (Record columns)
  | [] => []
  | r :: rs =>
    (if pos ∈ deleted then r.erase else r) :: mark deleted (pos + r.image.length) rs

variable {deleted : List Nat} {offset : Nat}

theorem length_image_mark (r : Record columns) (pos : Nat) :
    (if pos ∈ deleted then r.erase else r).image.length = r.image.length := by
  split
  · exact r.length_image_erase
  · rfl

theorem length_fileOf_mark (deleted : List Nat) (rs : List (Record columns)) : ∀ pos,
    (fileOf (mark deleted pos rs)).length = (fileOf rs).length := by
  induction rs with
  | nil => intro pos; rfl
  | cons r rs ih =>
    intro pos
    rw [mark, fileOf_cons, fileOf_cons, List.length_append, List.length_append, ih,
      length_image_mark]

theorem mark_append (A B : List (Record columns)) : ∀ pos,
    mark deleted pos (A ++ B) = mark deleted pos A
      ++ mark deleted (pos + (fileOf A).length) B := by
  induction A with
  | nil => intro pos; rfl
  | cons r A ih =>
    intro pos
    rw [List.cons_append, mark, mark, ih, fileOf_cons, List.length_append, Nat.add_assoc]
    rfl

/-- A further offset outside the records changes nothing. -/
theorem mark_concat (rs : List (Record columns)) : ∀ pos,
    offset < pos ∨ pos + (fileOf rs).length ≤ offset →
    mark (deleted ++ [offset]) pos rs = mark deleted pos rs := by
  induction rs with
  | nil => intro pos _; rfl
  | cons r rs ih =>
    intro pos hout
    have hpos := r.length_image_pos
    rw [fileOf_cons, List.length_append] at hout
    have hmem : pos ∈ deleted ++ [offset] ↔ pos ∈ deleted := by
      rw [List.mem_append, List.mem_singleton]
      constructor
      · intro h
        apply h.resolve_right
        omega
      · exact Or.inl
    rw [mark, mark, ih _ (by omega)]
    simp only [hmem]

end Marks

section Records

variable {schema : TableSchema} {inserted : List (Nat × DataRow)} {deleted : List Nat}

/-- One record for each insert, from position `pos` on. -/
inductive RecordsOf (schema : TableSchema) :
    Nat → List (Nat × DataRow) → List (Record schema.columns) → Prop
  | nil (pos : Nat) : RecordsOf schema pos [] []
  | cons {pos : Nat} {values : DataRow} {inserted : List (Nat × DataRow)}
      {r : Record schema.columns} {rs : List (Record schema.columns)}
      (hlive : r.deleted = false) (hrow : r.row = storedRow schema.columns values)
      (hrest : RecordsOf schema (pos + r.image.length) inserted rs) :
      RecordsOf schema pos ((pos, values) :: inserted) (r :: rs)

theorem RecordsOf.concat {pos : Nat} {rs : List (Record schema.columns)}
    (h : RecordsOf schema pos inserted rs) {values : DataRow} {r : Record schema.columns}
    (hlive : r.deleted = false) (hrow : r.row = storedRow schema.columns values) :
    RecordsOf schema pos (inserted ++ [(pos + (fileOf rs).length, values)]) (rs ++ [r]) := by
  induction h with
  | nil pos => exact .cons hlive hrow (.nil _)
  | @cons pos values' inserted r' rs hlive' hrow' _ ih =>
    rw [fileOf_cons, List.length_append, ← Nat.add_assoc]
    exact .cons hlive' hrow' ih

/-- The record of an insert. -/
theorem RecordsOf.split {pos : Nat} {rs : List (Record schema.columns)}
    (h : RecordsOf schema pos inserted rs) {offset : Nat} {values : DataRow}
    (hmem : (offset, values) ∈ inserted) : ∃ A r B, rs = A ++ r :: B ∧ r.deleted = false ∧
      r.row = storedRow schema.columns values ∧ offset = pos + (fileOf A).length := by
  induction h with
  | nil pos => cases hmem
  | @cons pos values' inserted r rs hlive hrow _ ih =>
    rcases List.mem_cons.1 hmem with heq | hmem
    · cases heq
      exact ⟨[], r, rs, rfl, hlive, hrow, rfl⟩
    · obtain ⟨A, r', B, rfl, hlive', hrow', rfl⟩ := ih hmem
      refine ⟨r :: A, r', B, rfl, hlive', hrow', ?_⟩
      rw [fileOf_cons, List.length_append, Nat.add_assoc]

/-- The live rows of the records of a run. -/
theorem RecordsOf.live {pos : Nat} {rs : List (Record schema.columns)}
    (h : RecordsOf schema pos inserted rs) :
    liveFrom pos (mark deleted pos rs) = liveRows schema inserted deleted := by
  induction h with
  | nil pos => rfl
  | @cons pos values inserted r rs hlive hrow _ ih =>
    rw [mark, liveFrom, length_image_mark, ih, liveRows, liveRows, List.filterMap_cons]
    by_cases hdel : pos ∈ deleted
    · simp [hdel, Record.erase]
    · simp [hdel, hlive, hrow]

/-! ## Steps -/

/-- Deletion sets the flag of the record that starts there. -/
theorem storageDeleteRow_mark {A B : List (Record schema.columns)} {r : Record schema.columns} :
    storageDeleteRow (fileOf (mark deleted 0 (A ++ r :: B))) (fileOf A).length
      = fileOf (mark (deleted ++ [(fileOf A).length]) 0 (A ++ r :: B)) := by
  have hpos := r.length_image_pos
  have hA : mark (deleted ++ [(fileOf A).length]) 0 A = mark deleted 0 A := by
    apply mark_concat
    omega
  have hB : mark (deleted ++ [(fileOf A).length]) ((fileOf A).length + r.image.length) B
      = mark deleted ((fileOf A).length + r.image.length) B := by
    apply mark_concat
    omega
  have hlen := length_fileOf_mark deleted A 0
  rw [mark_append, mark_append, Nat.zero_add, mark, mark, hA, hB,
    if_pos (List.mem_append_right _ (List.mem_singleton.2 rfl))]
  generalize hr : (if (fileOf A).length ∈ deleted then r.erase else r) = r'
  have herase : r'.erase = r.erase := by
    rw [← hr]
    split <;> rfl
  rw [← hlen, storageDeleteRow_spec, herase]

/-- The data file holds one record for each insert, with the flags of the deleted rows set. -/
structure HoldsRun (schema : TableSchema) (dataFile : List UInt8)
    (inserted : List (Nat × DataRow)) (deleted : List Nat) : Prop where
  records : ∃ rs, RecordsOf schema 0 inserted rs ∧ dataFile = fileOf (mark deleted 0 rs)
  typed : ∀ entry ∈ inserted, RowTyped schema.columns entry.2
  /-- Every deleted row is inside the file. -/
  inside : ∀ offset ∈ deleted, offset < dataFile.length

section Steps

variable {dataFile : List UInt8}

theorem HoldsRun.insertRow [UnionMemory] (h : HoldsRun schema dataFile inserted deleted)
    (hcount : schema.columns.length ≤ maxColumnsPerTable)
    (hcolumns : ∀ c ∈ schema.columns, c.resolvedType.Sound) {values : DataRow}
    (hrow : RowTyped schema.columns values) :
    ∃ dataFile', storageInsertRow dataFile values schema = .ok (dataFile', dataFile.length) ∧
      HoldsRun schema dataFile' (inserted ++ [(dataFile.length, values)]) deleted := by
  obtain ⟨rs, hrs, hfile⟩ := h.records
  obtain ⟨r, hlive, hr, hinsert⟩ := storageInsertRow_spec hcount hcolumns hrow (mark deleted 0 rs)
  rw [← hfile] at hinsert
  have hlen : dataFile.length = 0 + (fileOf rs).length := by
    rw [hfile, length_fileOf_mark, Nat.zero_add]
  have hfresh : 0 + (fileOf rs).length ∉ deleted := by
    intro hmem
    have hlt := h.inside _ hmem
    omega
  have hmark : mark deleted 0 (rs ++ [r]) = mark deleted 0 rs ++ [r] := by
    rw [mark_append, mark, mark, if_neg hfresh]
  refine ⟨_, hinsert, ⟨rs ++ [r], ?_, by rw [hmark]⟩, ?_, ?_⟩
  · rw [hlen]
    exact hrs.concat hlive hr
  · intro entry hentry
    rcases List.mem_append.1 hentry with hentry | hentry
    · exact h.typed entry hentry
    · obtain rfl := List.mem_singleton.1 hentry
      exact hrow
  · intro offset hoffset
    have hlt := h.inside offset hoffset
    rw [fileOf_append, List.length_append, ← hfile]
    omega

theorem HoldsRun.deleteRow (h : HoldsRun schema dataFile inserted deleted) {offset : Nat}
    (hoffset : offset ∈ inserted.map (·.1)) :
    HoldsRun schema (storageDeleteRow dataFile offset) inserted (deleted ++ [offset]) := by
  obtain ⟨rs, hrs, rfl⟩ := h.records
  obtain ⟨⟨offset, values⟩, hentry, rfl⟩ := List.mem_map.1 hoffset
  obtain ⟨A, r, B, rfl, _, _, heq⟩ := hrs.split hentry
  have hpos := r.length_image_pos
  rw [Nat.zero_add] at heq
  subst heq
  rw [storageDeleteRow_mark]
  refine ⟨⟨_, hrs, rfl⟩, h.typed, ?_⟩
  intro o ho
  rw [length_fileOf_mark]
  rcases List.mem_append.1 ho with ho | ho
  · have hlt := h.inside o ho
    rwa [length_fileOf_mark] at hlt
  · rw [List.mem_singleton.1 ho, fileOf_append, fileOf_cons, List.length_append,
      List.length_append]
    show (fileOf A).length < _
    omega

theorem HoldsRun.deleteRows {offsets : List Nat} :
    ∀ {dataFile : List UInt8} {deleted : List Nat}, HoldsRun schema dataFile inserted deleted →
      (∀ offset ∈ offsets, offset ∈ inserted.map (·.1)) →
      HoldsRun schema (storageDeleteRows dataFile offsets) inserted (deleted ++ offsets) := by
  induction offsets with
  | nil =>
    intro dataFile deleted h _
    rw [List.append_nil]
    exact h
  | cons offset offsets ih =>
    intro dataFile deleted h hoffsets
    obtain ⟨hoffset, hrest⟩ := List.forall_mem_cons.1 hoffsets
    have hnext := ih (h.deleteRow hoffset) hrest
    rwa [List.append_assoc, List.singleton_append] at hnext

theorem FileRun.holds [UnionMemory] (hcount : schema.columns.length ≤ maxColumnsPerTable)
    (hcolumns : ∀ c ∈ schema.columns, c.resolvedType.Sound)
    (h : FileRun schema dataFile inserted deleted) :
    HoldsRun schema dataFile inserted deleted := by
  induction h with
  | create =>
    exact ⟨⟨[], .nil 0, rfl⟩, fun _ hentry => absurd hentry List.not_mem_nil,
      fun _ hoffset => absurd hoffset List.not_mem_nil⟩
  | insertRow _ hrow hinsert ih =>
    obtain ⟨dataFile', hinsert', h'⟩ := ih.insertRow hcount hcolumns hrow
    cases hinsert.symm.trans hinsert'
    exact h'
  | deleteRow _ hoffset ih => exact ih.deleteRow hoffset
  | deleteRows _ hoffsets ih => exact ih.deleteRows hoffsets

end Steps

/-! ## What is read -/

theorem RecordsOf.ascending {pos : Nat} {rs : List (Record schema.columns)}
    (h : RecordsOf schema pos inserted rs) :
    (∀ entry ∈ inserted, pos ≤ entry.1) ∧ (inserted.map (·.1)).Pairwise (· < ·) := by
  induction h with
  | nil pos => exact ⟨fun _ hentry => absurd hentry List.not_mem_nil, .nil⟩
  | @cons pos values inserted r rs _ _ _ ih =>
    obtain ⟨hbelow, hasc⟩ := ih
    have hpos := r.length_image_pos
    constructor
    · intro entry hentry
      rcases List.mem_cons.1 hentry with rfl | hentry
      · exact Nat.le_refl _
      · have hle := hbelow entry hentry
        omega
    · rw [List.map_cons, List.pairwise_cons]
      refine ⟨?_, hasc⟩
      intro offset hoffset
      obtain ⟨entry, hentry, rfl⟩ := List.mem_map.1 hoffset
      have hle := hbelow entry hentry
      show pos < entry.1
      omega

theorem HoldsRun.load {dataFile : List UInt8} (h : HoldsRun schema dataFile inserted deleted)
    {offset : Nat} {values : DataRow} (hentry : (offset, values) ∈ inserted) :
    storageLoadRow dataFile schema offset
      = .ok (if offset ∈ deleted then none else some (storedRow schema.columns values)) := by
  obtain ⟨rs, hrs, rfl⟩ := h.records
  obtain ⟨A, r, B, rfl, hlive, hrow, heq⟩ := hrs.split hentry
  rw [Nat.zero_add] at heq
  subst heq
  have hread := storageReadCurrentRow_spec
    (if (fileOf A).length ∈ deleted then r.erase else r) (fileOf (mark deleted 0 A))
    (fileOf (mark deleted ((fileOf A).length + r.image.length) B))
  rw [length_fileOf_mark] at hread
  rw [storageLoadRow, mark_append, Nat.zero_add, mark, fileOf_append, fileOf_cons, hread]
  by_cases hdel : (fileOf A).length ∈ deleted
  · simp only [if_pos hdel]
    rfl
  · simp only [if_neg hdel, hlive, hrow]
    rfl

/-- A data file is a list of rows: the scan gives the rows that were inserted and not deleted,
in the order of the inserts, and each can be loaded from its offset until it is deleted. -/
theorem dataFile_refines [UnionMemory] (hcount : schema.columns.length ≤ maxColumnsPerTable)
    (hcolumns : ∀ c ∈ schema.columns, c.resolvedType.Sound) {dataFile : List UInt8}
    (h : FileRun schema dataFile inserted deleted) :
    tableScan dataFile schema = .ok (liveRows schema inserted deleted) ∧
    (inserted.map (·.1)).Pairwise (· < ·) ∧
    (∀ entry ∈ inserted,
      (∃ data, serializeRowData schema.columns entry.2 = .ok data ∧
        deserializeRowData schema.columns data = .ok (storedRow schema.columns entry.2)) ∧
      storageLoadRow dataFile schema entry.1
        = .ok (if entry.1 ∈ deleted then none else some (storedRow schema.columns entry.2))) ∧
    ∀ values, RowTyped schema.columns values →
      ∃ dataFile', storageInsertRow dataFile values schema = .ok (dataFile', dataFile.length) := by
  have hrun := h.holds hcount hcolumns
  obtain ⟨rs, hrs, hfile⟩ := hrun.records
  refine ⟨?_, hrs.ascending.2, ?_, ?_⟩
  · rw [hfile, tableScan_spec, hrs.live]
  · intro entry hentry
    obtain ⟨data, hdata, _, hread⟩ := serializeRowData_spec hcolumns (hrun.typed entry hentry)
    exact ⟨⟨data, hdata, hread⟩, hrun.load hentry⟩
  · intro values hrow
    obtain ⟨dataFile', hinsert, _⟩ := hrun.insertRow hcount hcolumns hrow
    exact ⟨dataFile', hinsert⟩

end Records

/-! ## A table with one `int` column -/

open ClearedMemory

def numbers : TableSchema :=
  { tableName := text "t"
    columns := [{
      columnName := text "c", resolvedType := ⟨.int, 4, text "int"⟩, hasDefault := false
      defaultValue := .null }] }

/-- Two rows, the first of which is deleted. -/
theorem dataFile_refines_twoRows :
    tableScan [1, 7, 0, 1, 0, 0, 0, 0, 7, 0, 2, 0, 0, 0] numbers
      = .ok (liveRows numbers [(0, [.int 1]), (7, [.int 2])] [0]) := by
  have hfirst : FileRun numbers [0, 7, 0, 1, 0, 0, 0] [(0, [.int 1])] [] :=
    FileRun.create.insertRow (.cons rfl .nil : RowTyped numbers.columns [.int 1]) rfl
  have hsecond : FileRun numbers [0, 7, 0, 1, 0, 0, 0, 0, 7, 0, 2, 0, 0, 0]
      [(0, [.int 1]), (7, [.int 2])] [] :=
    hfirst.insertRow (.cons rfl .nil : RowTyped numbers.columns [.int 2]) rfl
  have hrun : FileRun numbers [1, 7, 0, 1, 0, 0, 0, 0, 7, 0, 2, 0, 0, 0]
      [(0, [.int 1]), (7, [.int 2])] [0] :=
    hsecond.deleteRow (by decide : 0 ∈ [(0, [DataValue.int 1]), (7, [.int 2])].map (·.1))
  refine (dataFile_refines (by decide) ?_ hrun).1
  intro c hc
  obtain rfl := List.mem_singleton.1 hc
  rfl

end Maxql
