import Maxql.Codec

/-!
# The data file as a map from offsets to rows

A data file is a sequence of records, and what the engine sees of it is the
map from the offset of every live record to its row.  Each operation on the
file is an update of this map.

The groups are what a scan gives, the records, the live rows among them, and the
operations.
-/

namespace Maxql

open Program Bytes

variable {schema : TableSchema}

/-! ## What a scan gives -/

section Scan

variable {dataFile : List UInt8} {fuel pos : Nat} {rows : List StoredRow}

theorem storageReadCurrentRow_next {row : Option DataRow} {next : Nat}
    (h : storageReadCurrentRow dataFile schema pos = .ok (row, next)) : pos < next := by
  have hheader : 0 < headerSize := Nat.zero_lt_succ _
  rw [storageReadCurrentRow] at h
  obtain ⟨header, _, h⟩ := Checked.bind_eq_ok.1 h
  simp only at h
  split at h
  · cases h
    omega
  · split at h
    · cases h
    · obtain ⟨data, _, h⟩ := Checked.bind_eq_ok.1 h
      obtain ⟨values, _, h⟩ := Checked.bind_eq_ok.1 h
      cases h
      omega

/-- Every row of a scan can be loaded from its offset, and the offsets ascend. -/
theorem tableScanFrom_rows (h : tableScanFrom dataFile schema fuel pos = .ok rows) :
    (∀ x ∈ rows, pos ≤ x.offset ∧
      storageLoadRow dataFile schema x.offset = .ok (some x.row)) ∧
    rows.Pairwise fun x y => x.offset < y.offset := by
  induction fuel generalizing pos rows with
  | zero => cases h
  | succ fuel ih =>
    rw [tableScanFrom] at h
    split at h
    · cases h
      exact ⟨fun x hx => absurd hx List.not_mem_nil, .nil⟩
    · obtain ⟨⟨row, next⟩, hread, h⟩ := Checked.bind_eq_ok.1 h
      obtain ⟨rest, hrest, h⟩ := Checked.bind_eq_ok.1 h
      have hlt := storageReadCurrentRow_next hread
      obtain ⟨hload, hasc⟩ := ih hrest
      have hload' : ∀ x ∈ rest, pos < x.offset ∧
          storageLoadRow dataFile schema x.offset = .ok (some x.row) := fun x hx =>
        ⟨Nat.lt_of_lt_of_le hlt (hload x hx).1, (hload x hx).2⟩
      cases row with
      | none =>
        cases h
        exact ⟨fun x hx => ⟨Nat.le_of_lt (hload' x hx).1, (hload' x hx).2⟩, hasc⟩
      | some row =>
        cases h
        refine ⟨fun x hx => ?_, List.pairwise_cons.2 ⟨fun y hy => (hload' y hy).1, hasc⟩⟩
        rcases List.mem_cons.1 hx with rfl | hx
        · exact ⟨Nat.le_refl _, by rw [storageLoadRow, hread]; rfl⟩
        · exact ⟨Nat.le_of_lt (hload' x hx).1, (hload' x hx).2⟩

theorem tableScan_load (h : tableScan dataFile schema = .ok rows) {x : StoredRow}
    (hx : x ∈ rows) : storageLoadRow dataFile schema x.offset = .ok (some x.row) :=
  ((tableScanFrom_rows h).1 x hx).2

theorem tableScan_ascending (h : tableScan dataFile schema = .ok rows) :
    rows.Pairwise fun x y => x.offset < y.offset :=
  (tableScanFrom_rows h).2

theorem eq_of_offset_eq (h : rows.Pairwise fun x y => x.offset < y.offset)
    {x y : StoredRow} (hx : x ∈ rows) (hy : y ∈ rows) (heq : x.offset = y.offset) : x = y := by
  induction rows with
  | nil => cases hx
  | cons z rows ih =>
    obtain ⟨hz, hrows⟩ := List.pairwise_cons.1 h
    rcases List.mem_cons.1 hx with rfl | hx' <;> rcases List.mem_cons.1 hy with rfl | hy'
    · rfl
    · exact absurd heq (Nat.ne_of_lt (hz y hy'))
    · exact absurd heq (Nat.ne_of_gt (hz x hx'))
    · exact ih hrows hx' hy'

end Scan

/-! ## Records -/

/-- One row of a data file, deleted or not, with the row that its data stand for. -/
structure Record (columns : List Column) where
  deleted : Bool
  data : List UInt8
  row : DataRow
  decodes : deserializeRowData columns data = .ok row
  fits : data.length ≤ maxDataSize

/-- The bytes of a record. -/
def Record.image {columns : List Column} (r : Record columns) : List UInt8 :=
  (if r.deleted then 1 else 0) :: (le rowSizeField (headerSize + r.data.length) ++ r.data)

/-- The data file with these records. -/
def fileOf {columns : List Column} (rs : List (Record columns)) : List UInt8 :=
  (rs.map Record.image).flatten

section Records

variable {columns : List Column}

theorem Record.length_image (r : Record columns) :
    r.image.length = headerSize + r.data.length := by
  simp [Record.image, headerSize, rowFlagsSize, rowSizeField]
  omega

theorem Record.length_image_pos (r : Record columns) : 0 < r.image.length := by
  rw [r.length_image, headerSize, rowFlagsSize]
  omega

@[simp] theorem fileOf_nil : fileOf ([] : List (Record columns)) = [] := rfl

theorem fileOf_append (A B : List (Record columns)) :
    fileOf (A ++ B) = fileOf A ++ fileOf B := by
  simp [fileOf]

theorem fileOf_cons (r : Record columns) (B : List (Record columns)) :
    fileOf (r :: B) = r.image ++ fileOf B := by
  simp [fileOf]

/-- A record is read back from its place in the file. -/
theorem storageReadCurrentRow_spec (r : Record schema.columns) (pre post : List UInt8) :
    storageReadCurrentRow (pre ++ (r.image ++ post)) schema pre.length
      = .ok (if r.deleted then none else some r.row, pre.length + r.image.length) := by
  have hfits := r.fits
  unfold maxDataSize maxColumnsPerTable maxVarcharValueSize at hfits
  have hsize : headerSize + r.data.length < 65536 := by
    unfold headerSize rowFlagsSize rowSizeField
    omega
  have hheader : slice (pre ++ (r.image ++ post)) pre.length headerSize
      = .ok ((if r.deleted then 1 else 0) :: le rowSizeField (headerSize + r.data.length)) := by
    have h := slice_parts pre ((if r.deleted then 1 else 0)
      :: le rowSizeField (headerSize + r.data.length)) (r.data ++ post)
    simpa [Record.image, headerSize, rowFlagsSize, rowSizeField, Nat.add_comm] using h
  have hdata : slice (pre ++ (r.image ++ post)) (pre.length + headerSize) r.data.length
      = .ok r.data := by
    have h := slice_parts (pre ++ ((if r.deleted then 1 else 0)
      :: le rowSizeField (headerSize + r.data.length))) r.data post
    simpa [Record.image, headerSize, rowFlagsSize, rowSizeField, Nat.add_comm] using h
  have hrow : (ofLe (le rowSizeField (headerSize + r.data.length)) + 65536 - headerSize) % 65536
      = r.data.length := by
    rw [ofLe_le_of_lt (show headerSize + r.data.length < 256 ^ rowSizeField from hsize)]
    unfold headerSize rowFlagsSize rowSizeField
    omega
  have hmax : ¬r.data.length > maxRowSize := by
    have := r.fits
    unfold maxRowSize
    omega
  rw [storageReadCurrentRow, hheader, Checked.ok_bind]
  simp only [rowFlagsSize, List.drop_succ_cons, List.drop_zero, hrow, List.headD_cons]
  cases hdel : r.deleted
  · simp only [Bool.false_eq_true, if_false, hdata, Checked.ok_bind, r.decodes, if_neg hmax,
      r.length_image, ← Nat.add_assoc]
    rfl
  · simp only [if_true, r.length_image, ← Nat.add_assoc]
    rfl

/-! ## Live rows -/

/-- The live rows of the records, the first of which is at position `pos`. -/
def liveFrom (pos : Nat) : List (Record columns) → List StoredRow
  | [] => []
  | r :: rs =>
    if r.deleted then liveFrom (pos + r.image.length) rs
    else { row := r.row, offset := pos } :: liveFrom (pos + r.image.length) rs

theorem liveFrom_append (A B : List (Record columns)) : ∀ pos,
    liveFrom pos (A ++ B) = liveFrom pos A ++ liveFrom (pos + (fileOf A).length) B := by
  induction A with
  | nil => intro pos; simp [liveFrom]
  | cons r A ih =>
    intro pos
    rw [List.cons_append, liveFrom, liveFrom, ih, fileOf_cons, List.length_append,
      Nat.add_assoc]
    split <;> rfl

theorem liveFrom_bounds (rs : List (Record columns)) : ∀ pos, ∀ x ∈ liveFrom pos rs,
    pos ≤ x.offset ∧ x.offset < pos + (fileOf rs).length := by
  induction rs with
  | nil => intro pos x hx; simp [liveFrom] at hx
  | cons r rs ih =>
    intro pos x hx
    have hpos := r.length_image_pos
    rw [fileOf_cons, List.length_append]
    rw [liveFrom] at hx
    have hrest : x ∈ liveFrom (pos + r.image.length) rs →
        pos ≤ x.offset ∧ x.offset < pos + (r.image.length + (fileOf rs).length) := by
      intro hx
      have := ih _ x hx
      omega
    split at hx
    · exact hrest hx
    · rcases List.mem_cons.1 hx with rfl | hx
      · exact ⟨Nat.le_refl _, Nat.lt_add_of_pos_right (by omega)⟩
      · exact hrest hx

/-- The record of a live row. -/
theorem exists_record {x : StoredRow} (rs : List (Record columns)) : ∀ {pos},
    x ∈ liveFrom pos rs → ∃ A r B, rs = A ++ r :: B ∧ r.deleted = false ∧
      x = { row := r.row, offset := pos + (fileOf A).length } := by
  induction rs with
  | nil => intro pos hx; simp [liveFrom] at hx
  | cons r rs ih =>
    intro pos hx
    have hrest : x ∈ liveFrom (pos + r.image.length) rs →
        ∃ A r' B, r :: rs = A ++ r' :: B ∧ r'.deleted = false ∧
          x = { row := r'.row, offset := pos + (fileOf A).length } := by
      intro hx
      obtain ⟨A, r', B, rfl, hlive, rfl⟩ := ih hx
      exact ⟨r :: A, r', B, rfl, hlive, by
        rw [fileOf_cons, List.length_append, Nat.add_assoc]⟩
    rw [liveFrom] at hx
    split at hx
    · exact hrest hx
    · next hdel =>
      rcases List.mem_cons.1 hx with rfl | hx
      · exact ⟨[], r, rs, rfl, by simpa using hdel, by simp⟩
      · exact hrest hx

end Records

/-- The scan of a data file gives its live rows. -/
theorem tableScanFrom_spec (rs : List (Record schema.columns)) : ∀ (pre : List UInt8) (fuel : Nat),
    (fileOf rs).length < fuel →
    tableScanFrom (pre ++ fileOf rs) schema fuel pre.length = .ok (liveFrom pre.length rs) := by
  induction rs with
  | nil =>
    intro pre fuel hfuel
    obtain ⟨f, rfl⟩ : ∃ f, fuel = f + 1 := ⟨fuel - 1, by omega⟩
    rw [fileOf_nil, List.append_nil, tableScanFrom, if_pos (Nat.le_refl _)]
    rfl
  | cons r rs ih =>
    intro pre fuel hfuel
    have hpos := r.length_image_pos
    rw [fileOf_cons, List.length_append] at hfuel
    obtain ⟨f, rfl⟩ : ∃ f, fuel = f + 1 := ⟨fuel - 1, by omega⟩
    have hmore : ¬pre.length ≥ (pre ++ (r.image ++ fileOf rs)).length := by
      simp only [List.length_append]
      omega
    have hrest := ih (pre ++ r.image) f (by omega)
    rw [List.append_assoc, List.length_append] at hrest
    rw [fileOf_cons, tableScanFrom, if_neg hmore, storageReadCurrentRow_spec, Checked.ok_bind]
    simp only [hrest, Checked.ok_bind, liveFrom]
    cases r.deleted <;> rfl

theorem tableScan_spec (rs : List (Record schema.columns)) :
    tableScan (fileOf rs) schema = .ok (liveFrom 0 rs) :=
  tableScanFrom_spec rs [] _ (Nat.lt_succ_self _)

/-! ## Operations on the records -/

/-- A record starts at the offset. -/
def StartsAt {columns : List Column} (rs : List (Record columns)) (offset : Nat) : Prop :=
  ∃ A r B, rs = A ++ r :: B ∧ (fileOf A).length = offset

/-- The record with its flag set. -/
def Record.erase {columns : List Column} (r : Record columns) : Record columns :=
  { r with deleted := true }

section Operations

variable {rs : List (Record schema.columns)} {offset : Nat}

theorem Record.length_image_erase {columns : List Column} (r : Record columns) :
    r.erase.image.length = r.image.length := by
  rw [Record.length_image, Record.length_image]
  rfl

theorem startsAt_end (rs : List (Record schema.columns)) (r : Record schema.columns) :
    StartsAt (rs ++ [r]) (fileOf rs).length :=
  ⟨rs, r, [], rfl, rfl⟩

theorem StartsAt.append (h : StartsAt rs offset) (more : List (Record schema.columns)) :
    StartsAt (rs ++ more) offset := by
  obtain ⟨A, r, B, rfl, hlen⟩ := h
  exact ⟨A, r, B ++ more, by simp, hlen⟩

theorem StartsAt.erase {A B : List (Record schema.columns)} {r : Record schema.columns}
    (h : StartsAt (A ++ r :: B) offset) : StartsAt (A ++ r.erase :: B) offset := by
  obtain ⟨A', r', B', heq, hlen⟩ := h
  rcases List.append_eq_append_iff.1 heq with ⟨m, rfl, hm⟩ | ⟨m, rfl, hm⟩
  · cases m with
    | nil =>
      rw [List.append_nil] at hlen
      exact ⟨A, r.erase, B, rfl, hlen⟩
    | cons x m =>
      obtain ⟨rfl, rfl⟩ := List.cons.inj hm
      refine ⟨A ++ r.erase :: m, r', B', by simp, ?_⟩
      rw [← hlen, fileOf_append, fileOf_append, fileOf_cons, fileOf_cons]
      simp only [List.length_append, r.length_image_erase]
  · cases m with
    | nil => exact ⟨A', r.erase, B, by simp, hlen⟩
    | cons x m =>
      obtain ⟨rfl, rfl⟩ := List.cons.inj hm
      exact ⟨A', r', m ++ r.erase :: B, by simp, hlen⟩

theorem StartsAt.of_live {x : StoredRow} (hx : x ∈ liveFrom 0 rs) : StartsAt rs x.offset := by
  obtain ⟨A, r, B, rfl, _, rfl⟩ := exists_record rs hx
  exact ⟨A, r, B, rfl, (Nat.zero_add _).symm⟩

/-- What is loaded from the start of a record is its row, unless it is deleted. -/
theorem StartsAt.load (h : StartsAt rs offset) :
    ∃ r ∈ rs, storageLoadRow (fileOf rs) schema offset
      = .ok (if r.deleted then none else some r.row) := by
  obtain ⟨A, r, B, rfl, rfl⟩ := h
  refine ⟨r, by simp, ?_⟩
  rw [storageLoadRow, fileOf_append, fileOf_cons, storageReadCurrentRow_spec]
  rfl

theorem storageDeleteRow_spec (A B : List (Record schema.columns)) (r : Record schema.columns) :
    storageDeleteRow (fileOf (A ++ r :: B)) (fileOf A).length = fileOf (A ++ r.erase :: B) := by
  rw [storageDeleteRow, fwriteAt, fileOf_append, fileOf_cons, fileOf_append, fileOf_cons,
    Record.image, Record.image, Record.erase]
  simp [List.drop_append]

/-- A row of the types of the table becomes the last record. -/
theorem storageInsertRow_spec [UnionMemory] (hcount : schema.columns.length ≤ maxColumnsPerTable)
    (hcolumns : ∀ c ∈ schema.columns, c.resolvedType.Sound) {values : DataRow}
    (hrow : RowTyped schema.columns values) (rs : List (Record schema.columns)) :
    ∃ r : Record schema.columns, r.deleted = false ∧
      r.row = storedRow schema.columns values ∧
      storageInsertRow (fileOf rs) values schema
        = .ok (fileOf (rs ++ [r]), (fileOf rs).length) := by
  obtain ⟨data, hdata, hlen, hread⟩ := serializeRowData_spec hcolumns hrow
  have hfits : data.length ≤ maxDataSize := by
    have : schema.columns.length * (1 + maxVarcharValueSize)
        ≤ maxColumnsPerTable * (1 + maxVarcharValueSize) := Nat.mul_le_mul_right _ hcount
    unfold maxDataSize
    omega
  obtain ⟨r, hr⟩ : ∃ r : Record schema.columns,
      r = ⟨false, data, storedRow schema.columns values, hread, hfits⟩ := ⟨_, rfl⟩
  have himage : (0 :: le rowSizeField ((headerSize + data.length) % 65536) ++ data).take
      ((headerSize + data.length) % 65536) = r.image := by
    have hsize : (headerSize + data.length) % 65536 = headerSize + data.length := by
      unfold maxDataSize maxColumnsPerTable maxVarcharValueSize at hfits
      unfold headerSize rowFlagsSize rowSizeField
      omega
    have hall := r.length_image
    rw [hsize, hr, Record.image]
    rw [hr, Record.image] at hall
    exact List.take_of_length_le (Nat.le_of_eq hall)
  refine ⟨r, by rw [hr], by rw [hr], ?_⟩
  rw [storageInsertRow, hdata, Checked.ok_bind, if_neg (by omega)]
  show Except.ok (fwriteAt _ _ _, _) = _
  rw [himage, fwriteAt_end (Nat.le_refl _), padTo_of_length rfl, fileOf_append, fileOf_cons,
    fileOf_nil, List.append_nil]

end Operations

/-! ## The file as a map -/

/-- The data file holds the rows `rows`, each at its offset. -/
def FileRows (schema : TableSchema) (dataFile : List UInt8) (rows : Nat → Option DataRow) :
    Prop :=
  ∃ rs : List (Record schema.columns), dataFile = fileOf rs ∧
    ∀ offset row, rows offset = some row ↔ { row, offset } ∈ liveFrom 0 rs

section Map

variable {dataFile : List UInt8} {rows : Nat → Option DataRow}

theorem fileRows_empty : FileRows schema [] fun _ => none :=
  ⟨[], rfl, fun _ _ => by simp [liveFrom]⟩

/-- A scan gives every row once, in the order of the offsets. -/
theorem FileRows.scan (h : FileRows schema dataFile rows) :
    ∃ live, tableScan dataFile schema = .ok live ∧
      (∀ offset row, rows offset = some row ↔ { row, offset } ∈ live) ∧
      live.Pairwise fun x y => x.offset < y.offset := by
  obtain ⟨rs, rfl, hrows⟩ := h
  exact ⟨liveFrom 0 rs, tableScan_spec rs, hrows, tableScan_ascending (tableScan_spec rs)⟩

/-- There is no row at the end of the file. -/
theorem FileRows.fresh (h : FileRows schema dataFile rows) {offset : Nat}
    (hoffset : dataFile.length ≤ offset) : rows offset = none := by
  obtain ⟨rs, rfl, hrows⟩ := h
  by_contra hsome
  obtain ⟨row, hrow⟩ := Option.ne_none_iff_exists'.1 hsome
  have hbound := liveFrom_bounds rs 0 _ ((hrows offset row).1 hrow)
  rw [Nat.zero_add] at hbound
  exact absurd hbound.2 (Nat.not_lt.2 hoffset)

/-- A new row goes to the end of the file. -/
theorem FileRows.insert [UnionMemory] (h : FileRows schema dataFile rows)
    (hcount : schema.columns.length ≤ maxColumnsPerTable)
    (hcolumns : ∀ c ∈ schema.columns, c.resolvedType.Sound) {values : DataRow}
    (hrow : RowTyped schema.columns values) :
    ∃ dataFile', storageInsertRow dataFile values schema = .ok (dataFile', dataFile.length) ∧
      FileRows schema dataFile'
        (Function.update rows dataFile.length (some (storedRow schema.columns values))) := by
  have hfresh := h.fresh (Nat.le_refl dataFile.length)
  obtain ⟨rs, rfl, hrows⟩ := h
  obtain ⟨r, hlive, hr, hinsert⟩ := storageInsertRow_spec hcount hcolumns hrow rs
  refine ⟨fileOf (rs ++ [r]), hinsert, rs ++ [r], rfl, fun offset row => ?_⟩
  have hall : liveFrom 0 (rs ++ [r]) = liveFrom 0 rs
      ++ [{ row := storedRow schema.columns values, offset := (fileOf rs).length }] := by
    rw [liveFrom_append, Nat.zero_add, liveFrom, hlive, hr]
    rfl
  rw [hall, List.mem_append, List.mem_singleton]
  by_cases hoffset : offset = (fileOf rs).length
  · subst hoffset
    rw [Function.update_self, ← hrows, hfresh, Option.some.injEq, StoredRow.mk.injEq]
    exact ⟨fun h => Or.inr ⟨h.symm, rfl⟩, fun h => by
      rcases h with h | h
      · cases h
      · exact h.1.symm⟩
  · rw [Function.update_of_ne hoffset, hrows, StoredRow.mk.injEq]
    exact ⟨Or.inl, fun h => h.resolve_right fun h => hoffset h.2⟩

/-- Deletion of a row. -/
theorem FileRows.delete (h : FileRows schema dataFile rows) {offset : Nat} {row : DataRow}
    (hrow : rows offset = some row) :
    FileRows schema (storageDeleteRow dataFile offset) (Function.update rows offset none) := by
  obtain ⟨rs, rfl, hrows⟩ := h
  obtain ⟨A, r, B, rfl, hlive, heq⟩ := exists_record rs ((hrows offset row).1 hrow)
  obtain ⟨rfl, rfl⟩ := StoredRow.mk.inj heq
  rw [Nat.zero_add]
  refine ⟨_, storageDeleteRow_spec A B r, fun offset row => ?_⟩
  have hold := hrows offset row
  rw [liveFrom_append, Nat.zero_add, liveFrom, hlive, List.mem_append] at hold
  rw [liveFrom_append, Nat.zero_add, liveFrom, List.mem_append, r.length_image_erase]
  simp only [Record.erase, if_true]
  by_cases hoffset : offset = (fileOf A).length
  · rw [hoffset, Function.update_self]
    refine ⟨fun h => absurd h (by simp), fun h => ?_⟩
    rcases h with h | h
    · have := (liveFrom_bounds A 0 _ h).2
      simp only at this
      omega
    · have := (liveFrom_bounds B _ _ h).1
      have hpos := r.length_image_pos
      simp only at this
      omega
  · rw [Function.update_of_ne hoffset, hold]
    simp only [Bool.false_eq_true, if_false, List.mem_cons, StoredRow.mk.injEq, hoffset,
      and_false, false_or]

end Map

end Maxql
