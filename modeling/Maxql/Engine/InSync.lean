import Maxql.Engine.TypedRows
import Maxql.Engine.UpdateChecks
import Maxql.Lib.UniqueIndex

/-!
# Indexes in step with the data file

INSERT and UPDATE make the key of a row from its values, DELETE from what is
read back of them.  Both are the same key unless a part of an index ends among
the spaces at the end of a `char` value.  In a run that avoids this, and that
never gives two rows the same key in one UPDATE, every index has exactly one
entry for each row of its table.

The groups are the two keys of a row, the invariant, single rows, statements,
and the runs.
-/

namespace Maxql

open Program Bytes UniqueIndex

/-! ## The key of the values and the key of the row -/

/-- The spaces at the end of the `char` values lie behind the parts of the index. -/
def BlanksBehind (schema : TableSchema) (indexDef : IndexDefinition) (values : DataRow) : Prop :=
  ∀ part ∈ indexDef.parts, ∀ column s, schema.columns[part.columnPos]? = some column →
    column.resolvedType.columnType = .char → values[part.columnPos]? = some (.string s) →
    min part.partLen s.bytes.length ≤ (trimSpaces s.bytes).length

theorem take_trimSpaces {bs : Text} {n : Nat} (h : min n bs.length ≤ (trimSpaces bs).length) :
    (trimSpaces bs).take n = bs.take n := by
  have htrim := List.prefix_iff_eq_take.1 (trimSpaces_prefix_self bs)
  have hle := (trimSpaces_prefix_self bs).length_le
  rw [htrim, List.take_take, List.take_eq_take_iff]
  omega

theorem partBytes_pad {b : BinaryValue} {n size : Nat} (hn : n ≤ size)
    (hsize : size ≤ maxBinaryValueSize) :
    padTo ((b.pad size).bytes.take n) n = padTo (b.bytes.take n) n := by
  rw [BinaryValue.pad_bytes hsize, padTo, padTo, padTo, List.take_append, List.take_replicate,
    List.append_assoc, List.length_append, List.length_replicate, ← List.replicate_add]
  congr 2
  rw [List.length_take]
  omega

/-- The bytes of a value in a key, before and after the data file. -/
theorem partBytes_storedValue {rt : ResolvedType} (hrt : rt.Sound) {v : DataValue}
    (hv : resolvedTypeValidate rt v = .ok) {n : Nat} (hn : n ≤ rt.byteLen)
    (hblanks : rt.columnType = .char → ∀ s, v = .string s →
      min n s.bytes.length ≤ (trimSpaces s.bytes).length) :
    partBytes n (storedValue rt v) = partBytes n v := by
  obtain ⟨columnType, byteLen, name⟩ := rt
  rw [resolvedTypeValidate_eq_ok] at hv
  cases columnType <;> cases v <;> simp only at hv
  case int.int | float.float | varchar.string => rfl
  case char.string s =>
    show padTo ((trimSpaces s.bytes).take n) n = _
    rw [take_trimSpaces (hblanks rfl s rfl)]
    rfl
  case binary.binary b =>
    have hrange : 1 ≤ byteLen ∧ byteLen ≤ 128 := hrt
    exact partBytes_pad hn hrange.2

theorem keyBytes_storedRow {schema : TableSchema} {indexDef : IndexDefinition} {values : DataRow}
    (hcolumns : ∀ c ∈ schema.columns, c.resolvedType.Sound) (hindex : indexDef.Valid schema)
    (hrow : RowTyped schema.columns values) (hblanks : BlanksBehind schema indexDef values) :
    keyBytes indexDef (storedRow schema.columns values) = keyBytes indexDef values := by
  have hpart : ∀ part ∈ indexDef.parts,
      partBytes part.partLen ((storedRow schema.columns values).getD part.columnPos .null)
        = partBytes part.partLen (values.getD part.columnPos .null) := by
    intro part hpart
    obtain ⟨column, hcolumn, hlen⟩ := hindex.parts part hpart
    obtain ⟨hpos, hget⟩ := List.getElem?_eq_some_iff.1 hcolumn
    have hpos' : part.columnPos < values.length := hrow.length_eq ▸ hpos
    have hv := List.getElem?_eq_getElem hpos'
    have hvalid : resolvedTypeValidate column.resolvedType values[part.columnPos] = .ok := by
      have hboth := List.Forall₂.get hrow hpos hpos'
      rwa [List.get_eq_getElem, List.get_eq_getElem, hget] at hboth
    have hstored : (storedRow schema.columns values)[part.columnPos]?
        = some (storedValue column.resolvedType values[part.columnPos]) := by
      rw [storedRow, List.getElem?_zipWith, hcolumn, hv]
    rw [List.getD_eq_getElem?_getD, List.getD_eq_getElem?_getD, hstored, hv]
    refine partBytes_storedValue (hcolumns column (List.mem_of_getElem? hcolumn)) hvalid hlen ?_
    intro hchar s hs
    exact hblanks part hpart column s hcolumn hchar (hv.trans (congrArg some hs))
  have hzip : ∀ row, keyBytes indexDef row = (indexDef.parts.map fun part =>
      partBytes part.partLen (row.getD part.columnPos .null)).flatten := by
    intro row
    rw [keyBytes, keyPieces, indexValues, List.zipWith_map_right, List.zipWith_self]
  rw [hzip, hzip, List.map_congr_left hpart]

/-! ## The invariant -/

/-- The data file holds `rows`, and every index has their keys. -/
structure InSync (t : TableState) (rows : Nat → Option DataRow) : Prop where
  schema : SchemaSound t.schema
  file : FileRows t.schema t.dataFile rows
  typed : ∀ offset row, rows offset = some row → RowTyped t.schema.columns row
  valid : ∀ entry ∈ t.indexes, entry.1.Valid t.schema
  inverts : ∀ entry ∈ t.indexes, Inverts (keyBytes entry.1) rows entry.2

section Row

variable {t : TableState} {rows : Nat → Option DataRow}

theorem InSync.hasKeys [UnionMemory] (h : InSync t rows) {values : DataRow}
    (hrow : RowTyped t.schema.columns values) : HasKeys t.indexes values :=
  fun entry hentry => ⟨(h.valid entry hentry).unique,
    rowKey_eq (h.valid entry hentry) h.schema.columns hrow.ofTypes⟩

theorem InSync.indexedTable [UnionMemory] (h : InSync t rows) : ∃ live, IndexedTable t live ∧
    (∀ offset row, rows offset = some row ↔ { row, offset } ∈ live) := by
  obtain ⟨live, hscan, hlive, _⟩ := h.file.scan
  refine ⟨live, ⟨hscan, h.schema.columns, fun x hx => h.typed _ _ ((hlive x.offset x.row).2 hx),
    h.valid, fun entry hentry key offset => ?_⟩, hlive⟩
  rw [h.inverts entry hentry]
  have hkey : ∀ row, rows offset = some row →
      (rowKey entry.1 row = .ok key ↔ keyBytes entry.1 row = key) := by
    intro row hrow
    rw [rowKey_eq (h.valid entry hentry) h.schema.columns (h.typed _ _ hrow).ofTypes,
      Except.ok.injEq]
  constructor
  · rintro ⟨row, hrow, heq⟩
    exact ⟨⟨row, offset⟩, (hlive _ _).1 hrow, rfl, (hkey row hrow).2 heq⟩
  · rintro ⟨x, hx, rfl, heq⟩
    have hrow := (hlive x.offset x.row).2 hx
    exact ⟨x.row, hrow, (hkey x.row hrow).1 heq⟩

/-! ## Single rows -/

theorem indexSetInsert_eq [UnionMemory] {indexes : IndexSet} {values : DataRow} {offset : Nat}
    (h : HasKeys indexes values) : indexSetInsert indexes values offset
      = .ok (indexes.map fun entry =>
        (entry.1, Function.update entry.2 (keyBytes entry.1 values) (some offset))) := by
  induction indexes with
  | nil => rfl
  | cons entry indexes ih =>
    obtain ⟨⟨_, hkey⟩, hrest⟩ := List.forall_mem_cons.1 h
    rw [indexSetInsert, indexInsert, hkey, Checked.ok_bind, Checked.ok_bind, ih hrest]
    rfl

/-- All indexes lose the key of the row if all have it. -/
theorem indexSetDelete_eq [UnionMemory] {indexes : IndexSet} {values : DataRow}
    (h : HasKeys indexes values)
    (hmem : ∀ entry ∈ indexes, (entry.2 (keyBytes entry.1 values)).isSome) :
    indexSetDelete indexes values = .ok (true, indexes.map fun entry =>
      (entry.1, Function.update entry.2 (keyBytes entry.1 values) none)) := by
  induction indexes with
  | nil => rfl
  | cons entry indexes ih =>
    obtain ⟨⟨_, hkey⟩, hrest⟩ := List.forall_mem_cons.1 h
    obtain ⟨hsome, hmem⟩ := List.forall_mem_cons.1 hmem
    rw [indexSetDelete, indexDelete, hkey, Checked.ok_bind, Checked.ok_bind, hsome]
    simp only [Bool.not_true, Bool.false_eq_true, if_false]
    rw [ih hrest hmem]
    rfl

/-- A row that is there is deleted from the file and from the indexes. -/
theorem InSync.delete [UnionMemory] (h : InSync t rows) {offset : Nat} {row : DataRow}
    (hrow : rows offset = some row) :
    ∃ indexes, indexSetDelete t.indexes row = .ok (true, indexes) ∧
      indexes.map Prod.fst = t.indexMeta ∧
      InSync { t with dataFile := storageDeleteRow t.dataFile offset, indexes }
        (Function.update rows offset none) := by
  have hlookup : ∀ entry ∈ t.indexes, entry.2 (keyBytes entry.1 row) = some offset :=
    fun entry hentry => (h.inverts entry hentry).lookup hrow
  refine ⟨_, indexSetDelete_eq (h.hasKeys (h.typed _ _ hrow)) fun entry hentry => by
    rw [hlookup entry hentry]; rfl, by simp [TableState.indexMeta], h.schema,
    h.file.delete hrow, ?_, ?_, ?_⟩
  · exact update_some h.typed offset none fun r hr => by cases hr
  · intro entry' hentry'
    obtain ⟨entry, hentry, rfl⟩ := List.mem_map.1 hentry'
    exact h.valid entry hentry
  · intro entry' hentry'
    obtain ⟨entry, hentry, rfl⟩ := List.mem_map.1 hentry'
    exact (h.inverts entry hentry).delete hrow

/-- A row with new keys is stored. -/
theorem InSync.store [UnionMemory] (h : InSync t rows) {values : DataRow}
    (hrow : RowTyped t.schema.columns values)
    (hblanks : ∀ entry ∈ t.indexes, BlanksBehind t.schema entry.1 values)
    (hfree : ∀ entry ∈ t.indexes, entry.2 (keyBytes entry.1 values) = none) :
    ∃ dataFile indexes,
      storageInsertRow t.dataFile values t.schema = .ok (dataFile, t.dataFile.length) ∧
      indexSetInsert t.indexes values t.dataFile.length = .ok indexes ∧
      rows t.dataFile.length = none ∧ indexes.map Prod.fst = t.indexMeta ∧
      InSync { t with dataFile, indexes }
        (Function.update rows t.dataFile.length
          (some (storedRow t.schema.columns values))) := by
  obtain ⟨dataFile, hstore, hfile⟩ := h.file.insert h.schema.count h.schema.columns hrow
  have hfresh := h.file.fresh (Nat.le_refl t.dataFile.length)
  refine ⟨dataFile, _, hstore, indexSetInsert_eq (h.hasKeys hrow), hfresh,
    by simp [TableState.indexMeta], h.schema, hfile, ?_, ?_, ?_⟩
  · exact update_some h.typed _ _ fun r hr =>
      Option.some.inj hr ▸ (hrow.stored h.schema.columns).1
  · intro entry' hentry'
    obtain ⟨entry, hentry, rfl⟩ := List.mem_map.1 hentry'
    exact h.valid entry hentry
  · intro entry' hentry'
    obtain ⟨entry, hentry, rfl⟩ := List.mem_map.1 hentry'
    have hkey := keyBytes_storedRow h.schema.columns (h.valid entry hentry) hrow
      (hblanks entry hentry)
    have hinsert := (h.inverts entry hentry).insert hfresh
      (r := storedRow t.schema.columns values) (by rw [hkey]; exact hfree entry hentry)
    rw [hkey] at hinsert
    exact hinsert

end Row

/-! ## Loops over rows -/

/-- The rows of a DELETE. -/
theorem InSync.deleteRows [UnionMemory] {xs : List StoredRow} :
    ∀ {t : TableState} {rows : Nat → Option DataRow} {indexes : IndexSet}, InSync t rows →
      (∀ x ∈ xs, rows x.offset = some x.row) →
      xs.Pairwise (fun x y => x.offset < y.offset) →
      deleteFromIndexes xs t.indexes = .ok indexes →
      ∃ rows', InSync
        { t with dataFile := storageDeleteRows t.dataFile (xs.map (·.offset)), indexes }
        rows' := by
  induction xs with
  | nil =>
    intro t rows indexes h _ _ hrun
    cases hrun
    exact ⟨rows, h⟩
  | cons x xs ih =>
    intro t rows indexes h hrows hasc hrun
    obtain ⟨hx, hxs⟩ := List.forall_mem_cons.1 hrows
    obtain ⟨hlt, hasc⟩ := List.pairwise_cons.1 hasc
    obtain ⟨indexes', hdelete, _, h'⟩ := h.delete hx
    rw [deleteFromIndexes, hdelete, Checked.ok_bind] at hrun
    refine ih h' (fun y hy => ?_) hasc hrun
    rw [Function.update_of_ne (Nat.ne_of_gt (hlt y hy))]
    exact hxs y hy

/-- The changed rows of an UPDATE on their way to a table with the rows `rows`. -/
structure PairsReady (schema : TableSchema) (indexMeta : IndexMeta)
    (rows : Nat → Option DataRow) (pairs : List UpdatePair) : Prop where
  present : ∀ pair ∈ pairs, rows pair.original.offset = some pair.original.row
  offsets : pairs.Pairwise fun a b => a.original.offset < b.original.offset
  typed : ∀ pair ∈ pairs, RowTyped schema.columns pair.updated
  blanks : ∀ pair ∈ pairs, ∀ d ∈ indexMeta, BlanksBehind schema d pair.updated
  free : ∀ pair ∈ pairs, ∀ d ∈ indexMeta, ∀ offset row, rows offset = some row →
    keyBytes d row = keyBytes d pair.updated → offset = pair.original.offset
  keys : ∀ d ∈ indexMeta, UniqueKeys d (pairs.map (·.updated))

/-- The first pair is written. -/
theorem PairsReady.tail {schema : TableSchema} {indexMeta : IndexMeta}
    {rows : Nat → Option DataRow} {pair : UpdatePair} {pairs : List UpdatePair}
    (h : PairsReady schema indexMeta rows (pair :: pairs))
    (hcolumns : ∀ c ∈ schema.columns, c.resolvedType.Sound)
    (hvalid : ∀ d ∈ indexMeta, d.Valid schema) {new : Nat}
    (hnew : Function.update rows pair.original.offset none new = none) :
    PairsReady schema indexMeta
      (Function.update (Function.update rows pair.original.offset none) new
        (some (storedRow schema.columns pair.updated))) pairs := by
  obtain ⟨hlt, hoffsets⟩ := List.pairwise_cons.1 h.offsets
  refine ⟨fun q hq => ?_, hoffsets, (List.forall_mem_cons.1 h.typed).2,
    (List.forall_mem_cons.1 h.blanks).2, fun q hq d hd offset row hrow heq => ?_,
    fun d hd => (List.pairwise_cons.1 (h.keys d hd)).2⟩
  · have hother : Function.update rows pair.original.offset none q.original.offset
        = some q.original.row := by
      rw [Function.update_of_ne (Nat.ne_of_gt (hlt q hq))]
      exact h.present q (List.mem_cons_of_mem _ hq)
    have hne : q.original.offset ≠ new := by
      intro hsame
      rw [hsame, hnew] at hother
      cases hother
    rw [Function.update_of_ne hne, hother]
  · by_cases hoffset : offset = new
    · -- the row just written has another key
      subst hoffset
      rw [Function.update_self] at hrow
      obtain rfl := Option.some.inj hrow
      rw [keyBytes_storedRow hcolumns (hvalid d hd) (h.typed pair List.mem_cons_self)
        (h.blanks pair List.mem_cons_self d hd)] at heq
      have hkeys := (List.pairwise_cons.1 (h.keys d hd)).1 q.updated (List.mem_map_of_mem hq)
      exact absurd heq hkeys
    · rw [Function.update_of_ne hoffset] at hrow
      by_cases hold : offset = pair.original.offset
      · subst hold
        rw [Function.update_self] at hrow
        cases hrow
      · rw [Function.update_of_ne hold] at hrow
        exact h.free q (List.mem_cons_of_mem _ hq) d hd offset row hrow heq

theorem InSync.writeUpdates [UnionMemory] {pairs : List UpdatePair} :
    ∀ {t t' : TableState} {rows : Nat → Option DataRow}, InSync t rows →
      PairsReady t.schema t.indexMeta rows pairs → writeUpdates pairs t = .ok t' →
      ∃ rows', InSync t' rows' := by
  induction pairs with
  | nil =>
    intro t t' rows h _ hrun
    cases hrun
    exact ⟨rows, h⟩
  | cons pair pairs ih =>
    intro t t' rows h hready hrun
    have hpair : pair ∈ pair :: pairs := List.mem_cons_self
    obtain ⟨indexes₁, hdelete, hmeta₁, h₁⟩ := h.delete (hready.present pair hpair)
    have hmem₁ : ∀ entry ∈ indexes₁, entry.1 ∈ t.indexMeta := fun entry hentry =>
      hmeta₁ ▸ List.mem_map_of_mem hentry
    have hfree : ∀ entry ∈ indexes₁, entry.2 (keyBytes entry.1 pair.updated) = none := by
      intro entry hentry
      by_contra hsome
      obtain ⟨offset, hlook⟩ := Option.ne_none_iff_exists'.1 hsome
      obtain ⟨row, hrow, heq⟩ := (h₁.inverts entry hentry _ _).1 hlook
      by_cases hoffset : offset = pair.original.offset
      · subst hoffset
        rw [Function.update_self] at hrow
        cases hrow
      · rw [Function.update_of_ne hoffset] at hrow
        exact hoffset (hready.free pair hpair entry.1 (hmem₁ entry hentry) offset row hrow heq)
    obtain ⟨dataFile, indexes₂, hstore, hinsert, hnew, hmeta₂, h₂⟩ :=
      h₁.store (hready.typed pair hpair)
        (fun entry hentry => hready.blanks pair hpair entry.1 (hmem₁ entry hentry)) hfree
    rw [Maxql.writeUpdates] at hrun
    simp only at hstore hinsert hnew hmeta₂ h₂
    rw [hstore, Checked.ok_bind] at hrun
    simp only [hdelete, Checked.ok_bind, hinsert] at hrun
    have hvalid : ∀ d ∈ t.indexMeta, d.Valid t.schema := fun d hd => by
      obtain ⟨entry, hentry, rfl⟩ := List.mem_map.1 hd
      exact h.valid entry hentry
    have hready' := hready.tail h.schema.columns hvalid hnew
    refine ih h₂ ?_ hrun
    show PairsReady t.schema (indexes₂.map Prod.fst) _ pairs
    rw [hmeta₂]
    show PairsReady t.schema (indexes₁.map Prod.fst) _ pairs
    rw [hmeta₁]
    exact hready'

/-! ## New indexes -/

theorem planKeyPart_spec {schema : TableSchema} {keyPart : IndexKeyPart} {part : IndexPart}
    (h : planKeyPart schema keyPart = .ok part) : ∃ column,
      schema.columns[part.columnPos]? = some column ∧
      part.partLen ≤ column.resolvedType.byteLen ∧
      part.partCompare = column.resolvedType.typeInfo.compare := by
  unfold planKeyPart at h
  simp only at h
  split at h
  · cases h
  · next pos hpos =>
    obtain ⟨len, hlen, h⟩ := bind_eq_ok.1 h
    cases h
    have hget := (List.findIdx?_eq_some_iff_getElem.1 hpos).1
    have hcolumn := List.getElem?_eq_getElem hget
    rw [columnAt_eq hcolumn] at hlen ⊢
    refine ⟨_, hcolumn, ?_, rfl⟩
    unfold keyPartLength at hlen
    split at hlen
    · cases hlen
      exact Nat.le_refl _
    · split at hlen
      · next n _ =>
        split at hlen
        · cases hlen
        · split at hlen
          · cases hlen
          · cases hlen
            show n.toInt.toNat ≤ _
            omega
      · cases hlen
      · cases hlen

/-- The only index type is the B-tree. -/
theorem planIndexType_spec {type : Text} {vtable : IndexVTable}
    (h : planIndexType type = .ok vtable) :
    vtable.type = .btree ∧ vtable.acceptsNonUnique = false := by
  have hregistry : ∀ vt ∈ indexRegistry, vt.type = .btree ∧ vt.acceptsNonUnique = false := by
    intro vt hvt
    obtain rfl := List.mem_singleton.1 hvt
    exact ⟨rfl, rfl⟩
  unfold planIndexType at h
  split at h
  · simp only at h
    split at h
    · next vt hfind =>
      cases h
      exact hregistry _ (List.mem_of_find?_eq_some hfind)
    · cases h
  · split at h
    · next vt hfind =>
      cases h
      exact hregistry _ (List.mem_of_find?_eq_some hfind)
    · cases h

theorem planCreateIndex_spec {schema : TableSchema} {indexMeta : IndexMeta}
    {stmt : CreateIndexStmt} {indexDef : IndexDefinition}
    (h : planCreateIndex schema indexMeta stmt = .ok indexDef) :
    indexDef.type = .btree ∧ indexDef.isUnique = true ∧
      indexDef.keySize = (indexDef.parts.map (·.partLen)).sum ∧
      stmt.keyParts.mapM (planKeyPart schema) = .ok indexDef.parts := by
  unfold planCreateIndex at h
  split at h
  · cases h
  · simp only at h
    split at h
    · cases h
    · obtain ⟨vtable, hvtable, h⟩ := bind_eq_ok.1 h
      obtain ⟨htype, haccepts⟩ := planIndexType_spec hvtable
      split at h
      · cases h
      · next hunique =>
        obtain ⟨parts, hparts, h⟩ := bind_eq_ok.1 h
        cases h
        exact ⟨htype, by simpa [haccepts] using hunique, rfl, hparts⟩

/-- Every part of an index is planned from a column of the table. -/
theorem planCreateIndex_parts {schema : TableSchema} {indexMeta : IndexMeta}
    {stmt : CreateIndexStmt} {indexDef : IndexDefinition}
    (h : planCreateIndex schema indexMeta stmt = .ok indexDef) :
    ∀ part ∈ indexDef.parts, ∃ column, schema.columns[part.columnPos]? = some column ∧
      part.partLen ≤ column.resolvedType.byteLen ∧
      part.partCompare = column.resolvedType.typeInfo.compare := by
  obtain ⟨_, _, _, hparts⟩ := planCreateIndex_spec h
  intro part hpart
  have hall := mapM_eq_ok.1 hparts
  obtain ⟨i, hi, rfl⟩ := List.mem_iff_getElem.1 hpart
  exact planKeyPart_spec (List.Forall₂.get hall (hall.length_eq ▸ hi) hi)

theorem planCreateIndex_valid {schema : TableSchema} {indexMeta : IndexMeta}
    {stmt : CreateIndexStmt} {indexDef : IndexDefinition}
    (h : planCreateIndex schema indexMeta stmt = .ok indexDef) : indexDef.Valid schema := by
  obtain ⟨htype, hunique, hsize, -⟩ := planCreateIndex_spec h
  refine ⟨htype, hunique, hsize, fun part hpart => ?_⟩
  obtain ⟨column, hcolumn, hlen, -⟩ := planCreateIndex_parts h part hpart
  exact ⟨column, hcolumn, hlen⟩

/-- The entries of an index are the keys of the rows of the list. -/
def HoldsKeys [UnionMemory] (indexDef : IndexDefinition) (done : List StoredRow) (index : KeyMap)
    : Prop :=
  ∀ key offset, index key = some offset ↔
    ∃ x ∈ done, x.offset = offset ∧ rowKey indexDef x.row = .ok key

theorem holdsKeys_backfill [UnionMemory] {dataFile : List UInt8} {schema : TableSchema}
    {indexDef : IndexDefinition} (hvalid : indexDef.Valid schema) {rows : List StoredRow}
    {index : KeyMap} (hscan : tableScan dataFile schema = .ok rows)
    (hrun : backfillIndex dataFile schema indexDef indexCreate = .ok (.ok index)) :
    HoldsKeys indexDef rows index := by
  have hnone : HoldsKeys indexDef [] indexCreate := fun key offset => by simp [indexCreate]
  refine backfillIndexFrom_rule (fun done x index key hI hkey hfree => ?_) hnone hscan hrun
  intro k o
  have hnew := hfree hvalid.unique
  by_cases hk : k = key
  · subst hk
    rw [Function.update_self]
    constructor
    · intro ho
      exact ⟨x, by simp, Option.some.inj ho, hkey⟩
    · rintro ⟨y, hy, rfl, hykey⟩
      rcases List.mem_append.1 hy with hy | hy
      · rw [(hI k y.offset).2 ⟨y, hy, rfl, hykey⟩] at hnew
        cases hnew
      · rw [List.mem_singleton.1 hy]
  · rw [Function.update_of_ne hk, hI]
    constructor
    · rintro ⟨y, hy, hrest⟩
      exact ⟨y, List.mem_append_left _ hy, hrest⟩
    · rintro ⟨y, hy, hoffset, hykey⟩
      rcases List.mem_append.1 hy with hy | hy
      · exact ⟨y, hy, hoffset, hykey⟩
      · rw [List.mem_singleton.1 hy, hkey] at hykey
        exact absurd (Except.ok.inj hykey).symm hk

/-! ## Statements -/

/-- The values of an UPDATE fit their columns, as `analyze_insert` makes sure for INSERT. -/
def AssignsFitting (strtof : Strtof) (t : TableState) (s : Statement) : Prop :=
  ∀ stmt plan, s = .update stmt →
    (do validateUpdate stmt; analyzeUpdate strtof t stmt) = .ok plan →
    AssignsEach (fun c v => resolvedTypeValidate c.resolvedType v = .ok) t.schema.columns
      plan.values

/-- What a statement needs so that the indexes stay in step. -/
structure KeepsIndexes [UnionMemory] (strtof : Strtof) (t : TableState) (s : Statement) : Prop where
  assigns : AssignsFitting strtof t s
  /-- The parts of the indexes end before the spaces at the end of a value. -/
  blanks : ∀ values, HandsOver strtof t s values → ∀ d ∈ t.indexMeta,
    BlanksBehind t.schema d values
  /-- The rows that one UPDATE changes get different keys. -/
  keys : ∀ stmt plan decision pairs, s = .update stmt →
    (do validateUpdate stmt; analyzeUpdate strtof t stmt) = .ok plan →
    planUpdate t plan = .ok decision → collectUpdates t plan decision = .ok pairs →
    checkUpdates t pairs = .ok (.ok ()) → ∀ d ∈ t.indexMeta, UniqueKeys d (pairs.map (·.updated))

section Statement

variable {strtof : Strtof} {t t' : TableState} {rows : Nat → Option DataRow}

theorem InSync.insert [UnionMemory] (h : InSync t rows) {stmt : InsertStmt}
    (hs : KeepsIndexes strtof t (.insert stmt)) {values : DataRow} {dataFile : List UInt8}
    {offset : Nat} {indexes : IndexSet}
    (hplan : (do validateInsert stmt; analyzeInsert strtof t stmt) = .ok values)
    (hcheck : indexSetHasDuplicate t.indexes values = .ok none)
    (hstore : storageInsertRow t.dataFile values t.schema = .ok (dataFile, offset))
    (hindex : indexSetInsert t.indexes values offset = .ok indexes) :
    ∃ rows', InSync { t with dataFile, indexes } rows' := by
  have hblanks := hs.blanks values (.insert hplan hcheck)
  obtain ⟨_, _, hanalyze⟩ := bind_eq_ok.1 hplan
  have hrow := analyzeInsert_typed h.schema hanalyze
  obtain ⟨found, hfound, hiff⟩ := indexSetHasDuplicate_spec (h.hasKeys hrow)
  have hnone : found = none := Except.ok.inj (hfound.symm.trans hcheck)
  obtain ⟨dataFile', indexes', hstore', hindex', _, _, h'⟩ := h.store hrow
    (fun entry hentry => hblanks entry.1 (List.mem_map_of_mem hentry)) (hiff.1 hnone)
  cases hstore.symm.trans hstore'
  cases hindex.symm.trans hindex'
  exact ⟨_, h'⟩

theorem InSync.update [UnionMemory] (h : InSync t rows) {stmt : UpdateStmt}
    (hs : KeepsIndexes strtof t (.update stmt)) {plan : UpdateExecPlan}
    {decision : Option IndexDecision} {pairs : List UpdatePair}
    (hplan : (do validateUpdate stmt; analyzeUpdate strtof t stmt) = .ok plan)
    (hdecision : planUpdate t plan = .ok decision)
    (hpairs : collectUpdates t plan decision = .ok pairs)
    (hcheck : checkUpdates t pairs = .ok (.ok ()))
    (hwrite : Maxql.writeUpdates pairs t = .ok t') : ∃ rows', InSync t' rows' := by
  have hassigns := hs.assigns stmt plan rfl hplan
  obtain ⟨live, ht, hlive⟩ := h.indexedTable
  obtain ⟨hfilter, hvalues⟩ := analyzeUpdate_apart hplan
  obtain ⟨decision', matched, hselect, hmatched, hsub, hasc⟩ := ht.matchedRows_live hfilter
  obtain rfl : decision = decision' := Except.ok.inj (hdecision.symm.trans hselect)
  obtain ⟨matched', hmatched', hupdate⟩ := bind_eq_ok.1 hpairs
  obtain rfl : matched = matched' := Except.ok.inj (hmatched.symm.trans hmatched')
  rw [updatePairs_eq hvalues fun x hx => (ht.typed x (hsub x hx)).length_eq.symm] at hupdate
  cases hupdate
  have hready : ∀ pair ∈ filledPairs plan.values matched,
      rows pair.original.offset = some pair.original.row ∧
        RowTyped t.schema.columns pair.updated := by
    intro pair hpair
    obtain ⟨x, hx, -, rfl⟩ := mem_filledPairs.1 hpair
    exact ⟨(hlive _ _).2 (hsub x hx), forall₂_assignedRow hvalues (ht.typed x (hsub x hx))
      fun q hq column hcolumn => Or.inl (hassigns q hq column hcolumn)⟩
  have hmeets :=
    ((ht.checkUpdates_spec fun pair hpair => (hready pair hpair).2.ofTypes).1 hcheck).1
  refine h.writeUpdates ⟨fun pair hpair => (hready pair hpair).1,
    filledPairs_ascending hasc, fun pair hpair => (hready pair hpair).2,
    fun pair hpair => hs.blanks _ (.update hplan hdecision hpairs hcheck hpair), ?_,
    hs.keys stmt plan decision _ rfl hplan hdecision hpairs hcheck⟩ hwrite
  -- a row with the new key would have been a conflict
  intro pair hpair d hd offset row hrow heq
  obtain ⟨entry, hentry, rfl⟩ := List.mem_map.1 hd
  by_contra hne
  exact hmeets ⟨entry, hentry, pair, hpair, ⟨row, offset⟩, (hlive _ _).1 hrow, hne, heq⟩

theorem InSync.step [UnionMemory] (h : InSync t rows) {s : Statement} (hs : KeepsIndexes strtof t s)
    (hstep : StatementStep strtof t s t') : ∃ rows', InSync t' rows' := by
  cases hstep with
  | insert hplan hcheck hstore hindex => exact h.insert hs hplan hcheck hstore hindex
  | delete hplan hdecision hrows hindex =>
    obtain ⟨live, ht, hlive⟩ := h.indexedTable
    obtain ⟨_, _, hanalyze⟩ := bind_eq_ok.1 hplan
    obtain ⟨_, _, hwhere⟩ := bind_eq_ok.1 hanalyze
    obtain ⟨decision, matched, hselect, hmatched, hsub, hasc⟩ :=
      ht.matchedRows_live (analyzeWhere_typed hwhere)
    cases hdecision.symm.trans hselect
    cases hrows.symm.trans hmatched
    exact h.deleteRows (fun x hx => (hlive _ _).2 (hsub x hx)) hasc hindex
  | update hplan hdecision hpairs hcheck hwrite =>
    exact h.update hs hplan hdecision hpairs hcheck hwrite
  | @createIndex _ indexDef index hplan hindex =>
    have hvalid := planCreateIndex_valid hplan
    obtain ⟨live, ht, hlive⟩ := h.indexedTable
    have hkeys := holdsKeys_backfill hvalid ht.scan hindex
    refine ⟨rows, h.schema, h.file, h.typed, fun entry hentry => ?_, fun entry hentry => ?_⟩
    · rcases List.mem_append.1 hentry with hentry | hentry
      · exact h.valid entry hentry
      · obtain rfl := List.mem_singleton.1 hentry
        exact hvalid
    · rcases List.mem_append.1 hentry with hentry | hentry
      · exact h.inverts entry hentry
      · obtain rfl := List.mem_singleton.1 hentry
        intro key offset
        rw [hkeys key offset]
        have hkey : ∀ row, rows offset = some row →
            (rowKey indexDef row = .ok key ↔ keyBytes indexDef row = key) := fun row hrow => by
          rw [rowKey_eq hvalid h.schema.columns (h.typed _ _ hrow).ofTypes, Except.ok.injEq]
        constructor
        · rintro ⟨x, hx, rfl, heq⟩
          have hrow := (hlive x.offset x.row).2 hx
          exact ⟨x.row, hrow, (hkey _ hrow).1 heq⟩
        · rintro ⟨row, hrow, heq⟩
          exact ⟨⟨row, offset⟩, (hlive _ _).1 hrow, rfl, (hkey _ hrow).2 heq⟩
  | dropIndex pos =>
    exact ⟨rows, h.schema, h.file, h.typed,
      fun entry hentry => h.valid entry (List.mem_of_mem_eraseIdx hentry),
      fun entry hentry => h.inverts entry (List.mem_of_mem_eraseIdx hentry)⟩
  | truncate =>
    refine ⟨fun _ => none, h.schema, fileRows_empty, fun _ _ hrow => (by cases hrow),
      fun entry hentry => ?_, fun entry hentry => ?_⟩
    · obtain ⟨entry', hentry', rfl⟩ := List.mem_map.1 hentry
      exact h.valid entry' hentry'
    · obtain ⟨entry', hentry', rfl⟩ := List.mem_map.1 hentry
      exact inverts_empty

end Statement

/-! ## Runs -/

theorem Reached.inSync [UnionMemory] {strtof : Strtof} {t : TableState}
    (h : Reached strtof (KeepsIndexes strtof) t) : ∃ rows, InSync t rows := by
  induction h with
  | create hvalidate hplan =>
    exact ⟨fun _ => none, schemaSound_of_plan hvalidate hplan, fileRows_empty,
      fun _ _ hrow => (by cases hrow), fun entry hentry => absurd hentry List.not_mem_nil,
      fun entry hentry => absurd hentry List.not_mem_nil⟩
  | run _ hs hrun ih =>
    obtain ⟨rows, hrows⟩ := ih
    exact hrows.step hs (statementStep_of_run hrun)

/-- After every statement of such a run each index has exactly one entry for each row of the
data file, under the key of what is read back. -/
theorem indexes_in_sync [UnionMemory] (strtof : Strtof) {t : TableState}
    (h : Reached strtof (KeepsIndexes strtof) t) : ∃ live, IndexedTable t live := by
  obtain ⟨rows, hrows⟩ := h.inSync
  obtain ⟨live, ht, _⟩ := hrows.indexedTable
  exact ⟨live, ht⟩

/-! ## An index on a `char(2)` column -/

open ClearedMemory

def nameIndex : IndexDefinition :=
  { name := text "i", type := .btree, nodeSize := 4096, keySize := 2, isUnique := true
    parts := [⟨text "c", 0, 2, .string, .compareStringKeys⟩] }

def createNameIndex : CreateIndexStmt :=
  { name := text "i", table := text "t", type := [], isUnique := true
    keyParts := [⟨text "c", [], false⟩] }

/-- The table `names` with an index on its column. -/
def indexedNames (dataFile : List UInt8) (index : KeyMap) : TableState :=
  { schema := names, dataFile, indexes := [(nameIndex, index)] }

/-- The index that `create unique index i on t (c)` makes of the row `'x'`. -/
def indexOfX : KeyMap := Function.update indexCreate [120, 0] (some 0)

theorem run_createNameIndex : runStatement noNumber (namesFile [0, 5, 0, 120, 32])
    (.createIndex createNameIndex) = .ok (.ok (indexedNames [0, 5, 0, 120, 32] indexOfX)) := rfl

theorem blanksBehind_names {dataFile : List UInt8} {index : KeyMap} {name : Text}
    (hname : (VarcharValue.copy name).trim = VarcharValue.copy name) :
    ∀ d ∈ (indexedNames dataFile index).indexMeta, BlanksBehind names d [nameValue name] := by
  intro d hd part hpart column s _ _ hs
  obtain rfl := List.mem_singleton.1 hd
  obtain rfl := List.mem_singleton.1 hpart
  cases hs
  have hlen := congrArg (fun s : VarcharValue => s.bytes.length) hname
  exact Nat.le_trans (Nat.min_le_right _ _) (Nat.le_of_eq hlen.symm)

theorem keepsIndexes_insertName {t : TableState} {name : Text} {values : DataRow}
    (hplan : (do
      validateInsert ⟨text "t", [setName name]⟩
      analyzeInsert noNumber t ⟨text "t", [setName name]⟩) = .ok values)
    (hblanks : ∀ d ∈ t.indexMeta, BlanksBehind t.schema d values) :
    KeepsIndexes noNumber t (insertName name) where
  assigns := fun stmt plan h => by cases h
  blanks := fun values' hstore => by
    cases hstore with
    | insert hplan' _ =>
      cases hplan.symm.trans hplan'
      exact hblanks
  keys := fun stmt plan decision pairs h => by cases h

/-- An UPDATE of one row by another name. -/
theorem keepsIndexes_rename {dataFile : List UInt8} {index : KeyMap} {old new : Text}
    {decision : Option IndexDecision} (pair : UpdatePair)
    (hplan : (do
      validateUpdate (renameTo ⟨.string, new⟩ old)
      analyzeUpdate noNumber (indexedNames dataFile index) (renameTo ⟨.string, new⟩ old))
      = .ok ⟨[(0, nameValue new)], [⟨0, nameValue old, .equals⟩]⟩)
    (hdecision : planUpdate (indexedNames dataFile index)
      ⟨[(0, nameValue new)], [⟨0, nameValue old, .equals⟩]⟩ = .ok decision)
    (hpairs : collectUpdates (indexedNames dataFile index)
      ⟨[(0, nameValue new)], [⟨0, nameValue old, .equals⟩]⟩ decision = .ok [pair])
    (hupdated : pair.updated = [nameValue new])
    (hfits : resolvedTypeValidate ⟨.char, 2, text "char(2)"⟩ (nameValue new) = .ok)
    (hname : (VarcharValue.copy new).trim = VarcharValue.copy new) :
    KeepsIndexes noNumber (indexedNames dataFile index)
      (.update (renameTo ⟨.string, new⟩ old)) where
  assigns := fun stmt plan h hplan' => by
    cases h
    cases hplan.symm.trans hplan'
    intro q hq column hcolumn
    obtain rfl := List.mem_singleton.1 hq
    cases hcolumn
    exact hfits
  blanks := fun values hstore => by
    cases hstore with
    | update hplan' hdecision' hpairs' _ hpair =>
      cases hplan.symm.trans hplan'
      cases hdecision.symm.trans hdecision'
      cases hpairs.symm.trans hpairs'
      obtain rfl := List.mem_singleton.1 hpair
      rw [hupdated]
      exact blanksBehind_names hname
  keys := fun stmt plan decision' pairs h hplan' hdecision' hpairs' _ d _ => by
    cases h
    cases hplan.symm.trans hplan'
    cases hdecision.symm.trans hdecision'
    cases hpairs.symm.trans hpairs'
    exact List.pairwise_singleton _ _

theorem keepsIndexes_other {t : TableState} {s : Statement} (hinsert : ∀ stmt, s ≠ .insert stmt)
    (hupdate : ∀ stmt, s ≠ .update stmt) : KeepsIndexes noNumber t s where
  assigns := fun stmt _ h => absurd h (hupdate stmt)
  blanks := fun values hstore => by
    cases hstore with
    | insert _ _ => exact absurd rfl (hinsert _)
    | update _ _ _ _ _ => exact absurd rfl (hupdate _)
  keys := fun stmt _ _ _ h => absurd h (hupdate stmt)

/-- A run that makes the index of one row, inserts `'a'`, makes it `'b'` and deletes the first
row. -/
theorem indexes_in_sync_insertName : ∃ live, IndexedTable
    (indexedNames [1, 5, 0, 120, 32, 1, 5, 0, 97, 32, 0, 5, 0, 98, 32]
      (Function.update (Function.update (Function.update (Function.update indexOfX [97, 0]
        (some 5)) [97, 0] none) [98, 0] (some 10)) [120, 0] none)) live := by
  have hone : Reached noNumber (KeepsIndexes noNumber) (namesFile [0, 5, 0, 120, 32]) :=
    .run (s := insertName (text "x")) (reached_names _)
      (keepsIndexes_insertName rfl fun d hd => absurd hd List.not_mem_nil) rfl
  have hindexed : Reached noNumber (KeepsIndexes noNumber)
      (indexedNames [0, 5, 0, 120, 32] indexOfX) :=
    .run hone (keepsIndexes_other (fun _ h => by cases h) fun _ h => by cases h)
      run_createNameIndex
  have htwo : Reached noNumber (KeepsIndexes noNumber)
      (indexedNames [0, 5, 0, 120, 32, 0, 5, 0, 97, 32]
        (Function.update indexOfX [97, 0] (some 5))) :=
    .run (s := insertName (text "a")) hindexed
      (keepsIndexes_insertName rfl (blanksBehind_names (by decide))) rfl
  have hrenamed : Reached noNumber (KeepsIndexes noNumber)
      (indexedNames [0, 5, 0, 120, 32, 1, 5, 0, 97, 32, 0, 5, 0, 98, 32]
        (Function.update (Function.update (Function.update indexOfX [97, 0] (some 5)) [97, 0]
          none) [98, 0] (some 10))) :=
    .run (s := .update (renameTo ⟨.string, text "b"⟩ (text "a"))) htwo
      (keepsIndexes_rename ⟨⟨[nameValue (text "a")], 5⟩, [nameValue (text "b")]⟩
        rfl rfl rfl rfl rfl (by decide)) rfl
  exact indexes_in_sync noNumber (.run
    (s := .delete ⟨text "t", [⟨text "c", .equals, ⟨.string, text "x"⟩⟩]⟩) hrenamed
    (keepsIndexes_other (fun _ h => by cases h) fun _ h => by cases h) rfl)

/-- The index has the key of `'a '`, which no row of the data file has: the space is not
stored. -/
theorem insertBlank_drifts : ∃ t, Reached noNumber (AssignsFitting noNumber) t ∧
    ¬∃ live, IndexedTable t live := by
  have hfirst : Reached noNumber (AssignsFitting noNumber) (namesFile [0, 5, 0, 120, 32]) :=
    .run (s := insertName (text "x")) (reached_names _) (fun _ _ h => by cases h) rfl
  have hindexed : Reached noNumber (AssignsFitting noNumber)
      (indexedNames [0, 5, 0, 120, 32] indexOfX) :=
    .run hfirst (fun _ _ h => by cases h) run_createNameIndex
  have hinsert : runStatement noNumber (indexedNames [0, 5, 0, 120, 32] indexOfX)
      (insertName (text "a ")) = .ok (.ok (indexedNames [0, 5, 0, 120, 32, 0, 5, 0, 97, 32]
        (Function.update indexOfX [97, 32] (some 5)))) := rfl
  refine ⟨_, .run hindexed (fun _ _ h => by cases h) hinsert, ?_⟩
  rintro ⟨live, h⟩
  have hscan : tableScan [0, 5, 0, 120, 32, 0, 5, 0, 97, 32] names
      = .ok [⟨[nameValue (text "x")], 0⟩, ⟨[nameValue (text "a")], 5⟩] := by decide +kernel
  cases hscan.symm.trans h.scan
  obtain ⟨x, hx, _, hkey⟩ := (h.exact _ (List.mem_singleton.2 rfl) [97, 32] 5).1 rfl
  rcases List.mem_cons.1 hx with rfl | hx
  · cases hkey
  · obtain rfl := List.mem_singleton.1 hx
    cases hkey

end Maxql
