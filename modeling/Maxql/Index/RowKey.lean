import Maxql.Codec
import Maxql.Index.IndexSet

/-!
# The key of a row

The loop of `prepare_index_key` writes one piece after the other: of every part
the first bytes of its value, filled up with zeros to the length of the part.
The groups are one value, the loop, and the key of a whole row.
-/

namespace Maxql

open Program Bytes

/-! ## Values -/

/-- The bytes of a value in memory. -/
def rawBytes : DataValue → List UInt8
  | .int n => le 4 n.toUInt32.toNat
  | .string s => s.bytes
  | .binary b => b.bytes
  | .float bits => le 4 bits.toNat
  | .null => []

/-- The bytes of a value in a key. -/
def partBytes (partLen : Nat) (value : DataValue) : List UInt8 :=
  padTo ((rawBytes value).take partLen) partLen

theorem length_partBytes (partLen : Nat) (value : DataValue) :
    (partBytes partLen value).length = partLen :=
  length_padTo (List.length_take_le _ _)

/-- The value has as many bytes as the part takes of it. -/
def PartFits (partLen : Nat) : DataValue → Prop
  | .null => False
  | .int _ => partLen ≤ 4
  | .float _ => partLen ≤ 4
  | _ => True

theorem PartFits.actualSize_le {n : Nat} {v : DataValue} (h : PartFits n v) :
    actualSize v n ≤ n ∧ actualSize v n ≤ (rawBytes v).length ∧
      (rawBytes v).take (actualSize v n) = (rawBytes v).take n := by
  cases v with
  | null => exact h.elim
  | int k =>
    have hn : n ≤ 4 := h
    simp [actualSize, rawBytes, hn]
  | float bits =>
    have hn : n ≤ 4 := h
    simp [actualSize, rawBytes, hn]
  | string s => simp [actualSize, rawBytes]
  | binary b => simp [actualSize, rawBytes]

/-- The bytes of a value are written from the start of the union on. -/
theorem rawBytes_prefix (v : DataValue) : rawBytes v <+: v.written ∧
    (rawBytes v).length < unionSize := by
  cases v with
  | null => exact ⟨List.prefix_refl _, by decide⟩
  | int k => exact ⟨List.prefix_refl _, (length_le 4 _).symm ▸ by decide⟩
  | float bits => exact ⟨List.prefix_refl _, (length_le 4 _).symm ▸ by decide⟩
  | string s => exact ⟨List.prefix_append _ _, Nat.lt_succ_of_le s.fits⟩
  | binary b => exact ⟨List.prefix_refl _, Nat.lt_of_le_of_lt b.fits (by decide)⟩

theorem PartFits.raw [UnionMemory] {n : Nat} {v : DataValue} (h : PartFits n v) :
    dataValueRaw v (actualSize v n) = .ok ((rawBytes v).take n) := by
  obtain ⟨_, hlen, htake⟩ := h.actualSize_le
  obtain ⟨hfront, hunion⟩ := rawBytes_prefix v
  have hnull : v.type ≠ .null := by
    rintro htype
    cases v with
    | null => exact h.elim
    | _ => cases htype
  have hmemory : v.memory (actualSize v n) = (rawBytes v).take n := by
    rw [DataValue.memory_eq_take (Nat.le_trans hlen hfront.length_le), ← htake]
    obtain ⟨rest, hrest⟩ := hfront
    rw [← hrest, List.take_append_of_le_length hlen]
  rw [dataValueRaw, if_neg hnull, if_pos (by omega), hmemory]

/-- A value of the type of a column has enough bytes for a part of the column. -/
theorem partFits_of_type {rt : ResolvedType} (hrt : rt.Sound) {n : Nat} (hn : n ≤ rt.byteLen)
    {v : DataValue} (hv : v.type = rt.typeInfo.valueType) : PartFits n v := by
  obtain ⟨columnType, byteLen, name⟩ := rt
  cases columnType <;> cases v <;>
    simp [ResolvedType.typeInfo, typeMapping, DataValue.type] at hv
  case int.int => exact Nat.le_trans hn (Nat.le_of_eq hrt)
  case float.float => exact Nat.le_trans hn (Nat.le_of_eq hrt)
  all_goals trivial

theorem type_of_validate {rt : ResolvedType} {v : DataValue}
    (h : resolvedTypeValidate rt v = .ok) : v.type = rt.typeInfo.valueType := by
  by_contra hne
  rw [resolvedTypeValidate, if_pos hne] at h
  cases h

/-! ## The loop -/

/-- The pieces of a key, one after the other. -/
def keyPieces (parts : List IndexPart) (values : DataRow) : Key :=
  (List.zipWith (fun part value => partBytes part.partLen value) parts values).flatten

theorem length_keyPieces {parts : List IndexPart} {values : DataRow}
    (h : parts.length = values.length) :
    (keyPieces parts values).length = (parts.map (·.partLen)).sum := by
  induction parts generalizing values with
  | nil => rfl
  | cons part parts ih =>
    obtain ⟨value, values, rfl⟩ := List.exists_cons_of_length_eq_add_one h.symm
    have hrest := ih (show parts.length = values.length by simpa using h)
    rw [keyPieces] at hrest ⊢
    rw [List.zipWith_cons_cons, List.flatten_cons, List.length_append, length_partBytes, hrest]
    rfl

theorem prepareIndexKeyFrom_spec [UnionMemory] {parts : List IndexPart} {values : DataRow}
    (h : List.Forall₂ (fun part value => PartFits part.partLen value) parts values) :
    ∀ (size : Nat) {done : Key} {offset : Nat}, done.length = offset →
      offset + (parts.map (·.partLen)).sum ≤ size →
      prepareIndexKeyFrom parts values (padTo done size) offset
        = .ok (padTo (done ++ keyPieces parts values) size) := by
  induction h with
  | nil =>
    intro size done offset _ _
    rw [prepareIndexKeyFrom, keyPieces, List.zipWith_nil_left, List.flatten_nil,
      List.append_nil]
  | @cons part value parts values hfit _ ih =>
    intro size done offset hdone hroom
    rw [List.map_cons, List.sum_cons] at hroom
    obtain ⟨hle, hraw, htake⟩ := hfit.actualSize_le
    have hsize : ((rawBytes value).take part.partLen).length = actualSize value part.partLen := by
      rw [← htake, List.length_take, Nat.min_eq_left hraw]
    have hcopy := copySlots_padTo hdone hsize (show offset + _ ≤ size by omega)
    rw [← padTo_append_padTo (List.length_take_le part.partLen _) (by omega)] at hcopy
    have hlen : (done ++ partBytes part.partLen value).length = offset + part.partLen := by
      rw [List.length_append, length_partBytes, hdone]
    rw [prepareIndexKeyFrom, hfit.raw, Checked.ok_bind, hcopy, Checked.ok_bind]
    have hrest := ih size hlen (by omega)
    rw [List.append_assoc] at hrest
    exact hrest

/-- The key that the first parts of an index get from as many values. -/
theorem prepareIndexKey_eq [UnionMemory] {indexDef : IndexDefinition} {values : DataRow}
    (hsize : indexDef.keySize = (indexDef.parts.map (·.partLen)).sum)
    (h : List.Forall₂ (fun part value => PartFits part.partLen value) indexDef.parts values) :
    prepareIndexKey indexDef values indexDef.parts.length
      = .ok (keyPieces indexDef.parts values) := by
  have hspec := prepareIndexKeyFrom_spec h indexDef.keySize (show [].length = 0 from rfl)
    (Nat.le_of_eq ((Nat.zero_add _).trans hsize.symm))
  have hlen : (keyPieces indexDef.parts values).length = indexDef.keySize := by
    rw [length_keyPieces h.length_eq, hsize]
  rw [List.nil_append, padTo_of_length hlen] at hspec
  rw [prepareIndexKey, List.take_length]
  exact hspec

/-! ## Rows -/

/-- What `plan_create_index` makes: a unique index over columns of the table. -/
structure IndexDefinition.Valid (indexDef : IndexDefinition) (schema : TableSchema) : Prop where
  type_eq : indexDef.type = .btree
  unique : indexDef.isUnique = true
  keySize_eq : indexDef.keySize = (indexDef.parts.map (·.partLen)).sum
  parts : ∀ part ∈ indexDef.parts, ∃ column, schema.columns[part.columnPos]? = some column ∧
    part.partLen ≤ column.resolvedType.byteLen

/-- The values of a row in the columns of an index. -/
def indexValues (parts : List IndexPart) (row : DataRow) : DataRow :=
  parts.map fun part => row.getD part.columnPos .null

/-- The key of a row. -/
def keyBytes (indexDef : IndexDefinition) (row : DataRow) : Key :=
  keyPieces indexDef.parts (indexValues indexDef.parts row)

/-- Every value is of the type of its column, whatever its length. -/
def RowOfTypes (columns : List Column) (row : DataRow) : Prop :=
  List.Forall₂ (fun column value => value.type = column.resolvedType.typeInfo.valueType)
    columns row

theorem RowTyped.ofTypes {columns : List Column} {row : DataRow} (h : RowTyped columns row) :
    RowOfTypes columns row :=
  h.imp fun _ _ => type_of_validate

section Row

variable {schema : TableSchema} {indexDef : IndexDefinition} {row : DataRow}

/-- A row has a value for each of its columns. -/
theorem RowOfTypes.getElem (h : RowOfTypes schema.columns row) {pos : Nat} {column : Column}
    (hcolumn : schema.columns[pos]? = some column) :
    ∃ v, row[pos]? = some v ∧ v.type = column.resolvedType.typeInfo.valueType := by
  obtain ⟨hpos, hget⟩ := List.getElem?_eq_some_iff.1 hcolumn
  have hlen : pos < row.length := h.length_eq ▸ hpos
  refine ⟨row[pos], List.getElem?_eq_getElem hlen, ?_⟩
  have hv := List.Forall₂.get h hpos hlen
  rw [List.get_eq_getElem, List.get_eq_getElem, hget] at hv
  exact hv

theorem rowKey_eq [UnionMemory] (hindex : indexDef.Valid schema)
    (hcolumns : ∀ c ∈ schema.columns, c.resolvedType.Sound)
    (hrow : RowOfTypes schema.columns row) : rowKey indexDef row = .ok (keyBytes indexDef row) := by
  have hvalue : ∀ part ∈ indexDef.parts, readAt row part.columnPos
      = .ok (row.getD part.columnPos .null) ∧
      PartFits part.partLen (row.getD part.columnPos .null) := by
    intro part hpart
    obtain ⟨column, hcolumn, hlen⟩ := hindex.parts part hpart
    obtain ⟨v, hv, htype⟩ := hrow.getElem hcolumn
    have hget : row.getD part.columnPos .null = v := by
      rw [List.getD_eq_getElem?_getD, hv]
      rfl
    rw [hget]
    exact ⟨readAt_of_getElem? hv, partFits_of_type
      (hcolumns column (List.mem_of_getElem? hcolumn)) hlen htype⟩
  have hprepare : prepareValues indexDef row = .ok (indexValues indexDef.parts row) := by
    refine mapM_eq_ok.2 (List.forall₂_map_right_iff.2 (List.forall₂_same.2 ?_))
    exact fun part hpart => (hvalue part hpart).1
  rw [rowKey, hprepare, Checked.ok_bind]
  refine prepareIndexKey_eq hindex.keySize_eq ?_
  exact List.forall₂_map_right_iff.2 (List.forall₂_same.2 fun part hpart => (hvalue part hpart).2)

end Row

end Maxql
