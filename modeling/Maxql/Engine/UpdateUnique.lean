import Maxql.Engine.UpdateChecks

/-!
# When the checks of UPDATE decide uniqueness

Every new row has the assigned values in the assigned columns, so two rows get
one key if they agree in the key bytes of the other columns.  The second check
compares these columns whole: where two rows differ only behind the bytes that
the key takes, it lets one key through twice.  The other way round the checks
go wrong on `float` values only, which can be equal with different bytes.

The groups are the rows that change, the columns that are not assigned, the
pairs that the checks take wrongly, and the comparison.
-/

namespace Maxql

open Program Bytes

/-! ## Rows that change -/

/-- An UPDATE that gets as far as its checks: the indexes and the rows of the table, the
assigned values, and the rows that match. -/
structure RowUpdate where
  indexMeta : IndexMeta
  live : List StoredRow
  values : List (Nat × DataValue)
  rows : List StoredRow

namespace RowUpdate

section Definitions

variable [UnionMemory] (u : RowUpdate) (indexDef : IndexDefinition) (x y : StoredRow)

/-- The rows that change. -/
def changed : List StoredRow := u.rows.filter fun x => changesRow u.values x.row

/-- The key that a row gets. -/
def newKey : Key := keyBytes indexDef (assignedRow u.values x.row)

/-- The new rows are equal, by `compare_value`, in all columns of the index. -/
def SameColumns : Prop :=
  EqualIn indexDef (assignedRow u.values x.row) (assignedRow u.values y.row)

/-- The row `x` gets the key that the row `y` has. -/
def TakesKey : Prop := x.offset ≠ y.offset ∧ u.newKey indexDef x = keyBytes indexDef y.row

/-! ## Columns that are not assigned -/

/-- The rows agree in the key bytes of the columns that are not assigned. -/
def AgreeInKey : Prop :=
  ∀ part ∈ indexDef.parts, (∀ q ∈ u.values, q.1 ≠ part.columnPos) →
    partBytes part.partLen (x.row.getD part.columnPos .null)
      = partBytes part.partLen (y.row.getD part.columnPos .null)

/-- The rows agree in the columns that are not assigned. -/
def AgreeInColumns : Prop :=
  ∀ part ∈ indexDef.parts, (∀ q ∈ u.values, q.1 ≠ part.columnPos) →
    x.row.getD part.columnPos .null = y.row.getD part.columnPos .null

/-- The row `y` has the assigned values and what `x` has in the other columns, as far as the
key goes. -/
def HasNewKey : Prop :=
  u.AgreeInKey indexDef x y ∧ ∀ part ∈ indexDef.parts, ∀ q ∈ u.values, q.1 = part.columnPos →
    partBytes part.partLen q.2 = partBytes part.partLen (y.row.getD part.columnPos .null)

/-- Where two changed rows agree in the key bytes of the columns that are not assigned, two
changed rows agree in these columns of some index as a whole, or another row has the key that
a changed row gets. -/
def PrefixesTellApart : Prop :=
  ∀ d ∈ u.indexMeta, ∀ x ∈ u.changed, ∀ y ∈ u.changed, x.offset < y.offset →
    u.AgreeInKey d x y →
    (∃ d ∈ u.indexMeta, ∃ x ∈ u.changed, ∃ y ∈ u.live, x.offset ≠ y.offset ∧
      u.HasNewKey d x y) ∨
    ∃ d ∈ u.indexMeta, ∃ x ∈ u.changed, ∃ y ∈ u.changed, x.offset < y.offset ∧
      u.AgreeInColumns d x y

/-! ## Pairs that the checks take wrongly -/

/-- Two changed rows get one key, although a column of the index tells them apart: the key
ends before the difference. -/
def MissedPair : Prop :=
  ∃ d ∈ u.indexMeta, ∃ x ∈ u.changed, ∃ y ∈ u.changed, x.offset < y.offset ∧
    u.newKey d x = u.newKey d y ∧ ¬u.SameColumns d x y

/-- Two changed rows get different keys, although they are equal in the columns of the index,
or one gets the key that the other has had. -/
def MadeUpPair : Prop :=
  ∃ d ∈ u.indexMeta, ∃ x ∈ u.changed, ∃ y ∈ u.changed, u.newKey d x ≠ u.newKey d y ∧
    (x.offset < y.offset ∧ u.SameColumns d x y ∨ u.TakesKey d x y)

/-- A changed row gets the key of another row of the table. -/
def MeetsRow : Prop :=
  ∃ d ∈ u.indexMeta, ∃ x ∈ u.changed, ∃ y ∈ u.live, u.TakesKey d x y

/-- A changed row gets the key of a row that stays as it is. -/
def MeetsKept : Prop :=
  ∃ d ∈ u.indexMeta, ∃ x ∈ u.changed, ∃ y ∈ u.live, (∀ z ∈ u.changed, z.offset ≠ y.offset) ∧
    u.TakesKey d x y

/-- Two changed rows are equal in all columns of an index. -/
def EqualPair : Prop :=
  ∃ d ∈ u.indexMeta, ∃ x ∈ u.changed, ∃ y ∈ u.changed, x.offset < y.offset ∧
    u.SameColumns d x y

/-- Two changed rows get one key. -/
def OneKeyPair : Prop :=
  ∃ d ∈ u.indexMeta, ∃ x ∈ u.changed, ∃ y ∈ u.changed, x.offset < y.offset ∧
    u.newKey d x = u.newKey d y

/-- The statement is refused for another reason where the checks miss a pair, and also without
the pairs that they make up. -/
structure Decided : Prop where
  missed : u.MissedPair → u.MeetsRow ∨ u.EqualPair
  madeUp : u.MadeUpPair → u.MeetsKept ∨ u.OneKeyPair

end Definitions

section Pairs

variable [UnionMemory] {u : RowUpdate}

/-- The row that a changed row meets has changed itself, or has not. -/
theorem meetsRow_cases (hasc : u.live.Pairwise fun x y => x.offset < y.offset)
    (hsub : ∀ x ∈ u.rows, x ∈ u.live) (h : u.MeetsRow) :
    u.MeetsKept ∨ ∃ d ∈ u.indexMeta, ∃ x ∈ u.changed, ∃ y ∈ u.changed, u.TakesKey d x y := by
  obtain ⟨d, hd, x, hx, y, hy, htakes⟩ := h
  by_cases hkept : ∀ z ∈ u.changed, z.offset ≠ y.offset
  · exact Or.inl ⟨d, hd, x, hx, y, hy, hkept, htakes⟩
  · simp only [not_forall, not_not] at hkept
    obtain ⟨z, hz, heq⟩ := hkept
    obtain rfl := eq_of_offset_eq hasc (hsub z (List.mem_of_mem_filter hz)) hy heq
    exact Or.inr ⟨d, hd, x, hx, z, hz, htakes⟩

/-- Two changed rows, one of which gets the key of the other, get one key or are a pair that
the checks make up. -/
theorem oneKey_or_madeUp {d : IndexDefinition} (hd : d ∈ u.indexMeta) {x y : StoredRow}
    (hx : x ∈ u.changed) (hy : y ∈ u.changed) (htakes : u.TakesKey d x y) :
    u.OneKeyPair ∨ u.MadeUpPair := by
  by_cases hkey : u.newKey d x = u.newKey d y
  · rcases Nat.lt_or_gt_of_ne htakes.1 with hlt | hlt
    · exact Or.inl ⟨d, hd, x, hx, y, hy, hlt, hkey⟩
    · exact Or.inl ⟨d, hd, y, hy, x, hx, hlt, hkey.symm⟩
  · exact Or.inr ⟨d, hd, x, hx, y, hy, hkey, Or.inr htakes⟩

/-- The checks refuse exactly the updates that would break uniqueness, if every pair that they
take wrongly makes no difference. -/
theorem decided_iff (hasc : u.live.Pairwise fun x y => x.offset < y.offset)
    (hsub : ∀ x ∈ u.rows, x ∈ u.live) :
    (u.MeetsRow ∨ u.EqualPair ↔ u.MeetsKept ∨ u.OneKeyPair) ↔ u.Decided := by
  constructor
  · intro hsame
    refine ⟨fun hmissed => hsame.2 (Or.inr ?_), fun hmadeUp => hsame.1 ?_⟩
    · obtain ⟨d, hd, x, hx, y, hy, hlt, hkey, -⟩ := hmissed
      exact ⟨d, hd, x, hx, y, hy, hlt, hkey⟩
    · obtain ⟨d, hd, x, hx, y, hy, -, hcase⟩ := hmadeUp
      rcases hcase with ⟨hlt, hcolumns⟩ | htakes
      · exact Or.inr ⟨d, hd, x, hx, y, hy, hlt, hcolumns⟩
      · exact Or.inl ⟨d, hd, x, hx, y, hsub y (List.mem_of_mem_filter hy), htakes⟩
  · rintro ⟨hmissed, hmadeUp⟩
    constructor
    · rintro (hmeets | ⟨d, hd, x, hx, y, hy, hlt, hcolumns⟩)
      · rcases meetsRow_cases hasc hsub hmeets with hkept | ⟨d, hd, x, hx, y, hy, htakes⟩
        · exact Or.inl hkept
        · rcases oneKey_or_madeUp hd hx hy htakes with hkey | hpair
          · exact Or.inr hkey
          · exact hmadeUp hpair
      · by_cases hkey : u.newKey d x = u.newKey d y
        · exact Or.inr ⟨d, hd, x, hx, y, hy, hlt, hkey⟩
        · exact hmadeUp ⟨d, hd, x, hx, y, hy, hkey, Or.inl ⟨hlt, hcolumns⟩⟩
    · rintro (⟨d, hd, x, hx, y, hy, -, htakes⟩ | ⟨d, hd, x, hx, y, hy, hlt, hkey⟩)
      · exact Or.inl ⟨d, hd, x, hx, y, hy, htakes⟩
      · by_cases hcolumns : u.SameColumns d x y
        · exact Or.inr ⟨d, hd, x, hx, y, hy, hlt, hcolumns⟩
        · exact hmissed ⟨d, hd, x, hx, y, hy, hlt, hkey, hcolumns⟩

end Pairs

/-! ## Columns without `float` values -/

end RowUpdate

/-- Two keys are equal if they are equal piece by piece. -/
theorem keyBytes_eq_iff {indexDef : IndexDefinition} {a b : DataRow} :
    keyBytes indexDef a = keyBytes indexDef b ↔ ∀ part ∈ indexDef.parts,
      partBytes part.partLen (a.getD part.columnPos .null)
        = partBytes part.partLen (b.getD part.columnPos .null) := by
  unfold keyBytes
  induction indexDef.parts with
  | nil => exact ⟨fun _ _ h => absurd h List.not_mem_nil, fun _ => rfl⟩
  | cons part parts ih =>
    have hcons : ∀ row : DataRow, keyPieces (part :: parts) (indexValues (part :: parts) row)
        = partBytes part.partLen (row.getD part.columnPos .null)
          ++ keyPieces parts (indexValues parts row) := fun _ => rfl
    rw [hcons, hcons, List.forall_mem_cons, ← ih]
    constructor
    · intro heq
      exact List.append_inj heq (by rw [length_partBytes, length_partBytes])
    · rintro ⟨hfirst, hrest⟩
      rw [hfirst, hrest]

/-- No index covers a `float` column. -/
def NoFloats (columns : List Column) (indexMeta : IndexMeta) : Prop :=
  ∀ d ∈ indexMeta, ∀ part ∈ d.parts, ∀ column, columns[part.columnPos]? = some column →
    column.resolvedType.columnType ≠ .float

/-- Values that are equal in a column without `float` values are the same. -/
theorem NoFloats.equals_iff [UnionMemory] {columns : List Column} {indexMeta : IndexMeta}
    (h : NoFloats columns indexMeta) {d : IndexDefinition} (hd : d ∈ indexMeta)
    {part : IndexPart} (hpart : part ∈ d.parts) {column : Column}
    (hcolumn : columns[part.columnPos]? = some column) {v w : DataValue}
    (hv : v.type = column.resolvedType.typeInfo.valueType)
    (hw : w.type = column.resolvedType.typeInfo.valueType) : Equals v w ↔ v = w := by
  have hnull : v.type ≠ .null := hv ▸ column.resolvedType.valueType_ne_null
  have hfloat : v.type ≠ .float := by
    have hne := h d hd part hpart column hcolumn
    rw [hv]
    cases htype : column.resolvedType.columnType <;>
      simp [ResolvedType.typeInfo, typeMapping, htype] at hne ⊢
  constructor
  · intro heq
    refine heq.eq (hv.trans hw.symm) fun a b ha _ _ => ?_
    rw [ha] at hfloat
    exact absurd rfl hfloat
  · rintro rfl
    exact equals_self hnull

namespace RowUpdate

/-- The parts of an UPDATE fit the table. -/
structure Typed (u : RowUpdate) (schema : TableSchema) : Prop where
  valid : ∀ d ∈ u.indexMeta, d.Valid schema
  live : ∀ x ∈ u.live, RowOfTypes schema.columns x.row
  rows : ∀ x ∈ u.rows, x ∈ u.live
  apart : AssignsApart schema.columns u.values
  types : AssignsEach (fun c v => v.type = c.resolvedType.typeInfo.valueType) schema.columns
    u.values

section Static

variable [UnionMemory] {u : RowUpdate} {schema : TableSchema} {d : IndexDefinition}
  {x y : StoredRow}

theorem Typed.ofTypes (h : u.Typed schema) (hx : x ∈ u.changed) :
    RowOfTypes schema.columns x.row :=
  h.live x (h.rows x (List.mem_of_mem_filter hx))

/-- What the new row has in a column of an index. -/
theorem Typed.newValue (h : u.Typed schema) (hfloats : NoFloats schema.columns u.indexMeta)
    (hd : d ∈ u.indexMeta) (hx : x ∈ u.changed) {part : IndexPart} (hpart : part ∈ d.parts) :
    (∀ q ∈ u.values, q.1 = part.columnPos →
      (assignedRow u.values x.row).getD part.columnPos .null = q.2) ∧
    ((∀ q ∈ u.values, q.1 ≠ part.columnPos) →
      (assignedRow u.values x.row).getD part.columnPos .null
        = x.row.getD part.columnPos .null) := by
  constructor
  · intro q hq hpos
    obtain ⟨column, hcolumn, -⟩ := (h.valid d hd).parts part hpart
    obtain ⟨v, hv, htype⟩ := (h.ofTypes hx).getElem hcolumn
    have hqtype := h.types q hq column (hpos ▸ hcolumn)
    rw [← hpos] at hv
    rw [← hpos, List.getD_eq_getElem?_getD, assignedRow_assigned h.apart hq hv, Option.getD_some]
    split
    · next heq => exact ((hfloats.equals_iff hd hpart hcolumn hqtype htype).1 heq).symm
    · rfl
  · intro hother
    rw [List.getD_eq_getElem?_getD, assignedRow_other hother, ← List.getD_eq_getElem?_getD]

theorem Typed.newKey_eq_iff (h : u.Typed schema) (hfloats : NoFloats schema.columns u.indexMeta)
    (hd : d ∈ u.indexMeta) (hx : x ∈ u.changed) (hy : y ∈ u.changed) :
    u.newKey d x = u.newKey d y ↔ u.AgreeInKey d x y := by
  unfold newKey AgreeInKey
  rw [keyBytes_eq_iff]
  constructor
  · intro hall part hpart hother
    have heq := hall part hpart
    rwa [(h.newValue hfloats hd hx hpart).2 hother, (h.newValue hfloats hd hy hpart).2 hother]
      at heq
  · intro hagree part hpart
    by_cases hassigned : ∃ q ∈ u.values, q.1 = part.columnPos
    · obtain ⟨q, hq, hpos⟩ := hassigned
      rw [(h.newValue hfloats hd hx hpart).1 q hq hpos,
        (h.newValue hfloats hd hy hpart).1 q hq hpos]
    · have hother : ∀ q ∈ u.values, q.1 ≠ part.columnPos := fun q hq heq =>
        hassigned ⟨q, hq, heq⟩
      rw [(h.newValue hfloats hd hx hpart).2 hother, (h.newValue hfloats hd hy hpart).2 hother]
      exact hagree part hpart hother

theorem Typed.takesKey_iff (h : u.Typed schema) (hfloats : NoFloats schema.columns u.indexMeta)
    (hd : d ∈ u.indexMeta) (hx : x ∈ u.changed) :
    u.TakesKey d x y ↔ x.offset ≠ y.offset ∧ u.HasNewKey d x y := by
  unfold TakesKey newKey HasNewKey AgreeInKey
  rw [keyBytes_eq_iff]
  refine and_congr_right fun _ => ⟨fun hall => ⟨?_, ?_⟩, ?_⟩
  · intro part hpart hother
    have heq := hall part hpart
    rwa [(h.newValue hfloats hd hx hpart).2 hother] at heq
  · intro part hpart q hq hpos
    have heq := hall part hpart
    rwa [(h.newValue hfloats hd hx hpart).1 q hq hpos] at heq
  · rintro ⟨hagree, hassigns⟩ part hpart
    by_cases hassigned : ∃ q ∈ u.values, q.1 = part.columnPos
    · obtain ⟨q, hq, hpos⟩ := hassigned
      rw [(h.newValue hfloats hd hx hpart).1 q hq hpos]
      exact hassigns part hpart q hq hpos
    · have hother : ∀ q ∈ u.values, q.1 ≠ part.columnPos := fun q hq heq =>
        hassigned ⟨q, hq, heq⟩
      rw [(h.newValue hfloats hd hx hpart).2 hother]
      exact hagree part hpart hother

theorem Typed.sameColumns_iff (h : u.Typed schema)
    (hfloats : NoFloats schema.columns u.indexMeta) (hd : d ∈ u.indexMeta) (hx : x ∈ u.changed)
    (hy : y ∈ u.changed) : u.SameColumns d x y ↔ u.AgreeInColumns d x y := by
  have hvalue : ∀ part ∈ d.parts, (∀ q ∈ u.values, q.1 ≠ part.columnPos) →
      (Equals (x.row.getD part.columnPos .null) (y.row.getD part.columnPos .null) ↔
        x.row.getD part.columnPos .null = y.row.getD part.columnPos .null) := by
    intro part hpart _
    obtain ⟨column, hcolumn, -⟩ := (h.valid d hd).parts part hpart
    obtain ⟨v, hv, hvtype⟩ := (h.ofTypes hx).getElem hcolumn
    obtain ⟨w, hw, hwtype⟩ := (h.ofTypes hy).getElem hcolumn
    rw [List.getD_eq_getElem?_getD, List.getD_eq_getElem?_getD, hv, hw, Option.getD_some,
      Option.getD_some]
    exact hfloats.equals_iff hd hpart hcolumn hvtype hwtype
  unfold SameColumns EqualIn AgreeInColumns
  constructor
  · intro hall part hpart hother
    have heq := hall part hpart
    rw [(h.newValue hfloats hd hx hpart).2 hother, (h.newValue hfloats hd hy hpart).2 hother]
      at heq
    exact (hvalue part hpart hother).1 heq
  · intro hagree part hpart
    by_cases hassigned : ∃ q ∈ u.values, q.1 = part.columnPos
    · obtain ⟨q, hq, hpos⟩ := hassigned
      rw [(h.newValue hfloats hd hx hpart).1 q hq hpos,
        (h.newValue hfloats hd hy hpart).1 q hq hpos]
      exact equals_self (h.apart.present q hq)
    · have hother : ∀ q ∈ u.values, q.1 ≠ part.columnPos := fun q hq heq =>
        hassigned ⟨q, hq, heq⟩
      rw [(h.newValue hfloats hd hx hpart).2 hother, (h.newValue hfloats hd hy hpart).2 hother]
      exact (hvalue part hpart hother).2 (hagree part hpart hother)

omit [UnionMemory] in
theorem AgreeInColumns.inKey (h : u.AgreeInColumns d x y) : u.AgreeInKey d x y :=
  fun part hpart hother => by rw [h part hpart hother]

/-- Without `float` columns the checks go wrong only where two changed rows agree in the key
bytes of the columns that are not assigned. -/
theorem Typed.decided_iff (h : u.Typed schema) (hfloats : NoFloats schema.columns u.indexMeta) :
    u.Decided ↔ u.PrefixesTellApart := by
  have hmeets : u.MeetsRow ↔ ∃ d ∈ u.indexMeta, ∃ x ∈ u.changed, ∃ y ∈ u.live,
      x.offset ≠ y.offset ∧ u.HasNewKey d x y := by
    constructor
    · rintro ⟨d, hd, x, hx, y, hy, htakes⟩
      exact ⟨d, hd, x, hx, y, hy, (h.takesKey_iff hfloats hd hx).1 htakes⟩
    · rintro ⟨d, hd, x, hx, y, hy, htakes⟩
      exact ⟨d, hd, x, hx, y, hy, (h.takesKey_iff hfloats hd hx).2 htakes⟩
  have hequal : u.EqualPair ↔ ∃ d ∈ u.indexMeta, ∃ x ∈ u.changed, ∃ y ∈ u.changed,
      x.offset < y.offset ∧ u.AgreeInColumns d x y := by
    constructor
    · rintro ⟨d, hd, x, hx, y, hy, hlt, hcolumns⟩
      exact ⟨d, hd, x, hx, y, hy, hlt, (h.sameColumns_iff hfloats hd hx hy).1 hcolumns⟩
    · rintro ⟨d, hd, x, hx, y, hy, hlt, hcolumns⟩
      exact ⟨d, hd, x, hx, y, hy, hlt, (h.sameColumns_iff hfloats hd hx hy).2 hcolumns⟩
  have hmadeUp : ¬u.MadeUpPair := by
    rintro ⟨d, hd, x, hx, y, hy, hne, hcase⟩
    apply hne
    rw [h.newKey_eq_iff hfloats hd hx hy]
    rcases hcase with ⟨-, hcolumns⟩ | htakes
    · exact ((h.sameColumns_iff hfloats hd hx hy).1 hcolumns).inKey
    · exact ((h.takesKey_iff hfloats hd hx).1 htakes).2.1
  unfold PrefixesTellApart
  rw [← hmeets, ← hequal]
  constructor
  · rintro ⟨hmissed, -⟩ d hd x hx y hy hlt hagree
    by_cases hcolumns : u.SameColumns d x y
    · exact Or.inr ⟨d, hd, x, hx, y, hy, hlt, hcolumns⟩
    · exact hmissed ⟨d, hd, x, hx, y, hy, hlt,
        (h.newKey_eq_iff hfloats hd hx hy).2 hagree, hcolumns⟩
  · intro hall
    refine ⟨?_, fun hpair => absurd hpair hmadeUp⟩
    rintro ⟨d, hd, x, hx, y, hy, hlt, hkey, -⟩
    exact hall d hd x hx y hy hlt ((h.newKey_eq_iff hfloats hd hx hy).1 hkey)

end Static

end RowUpdate

/-! ## The comparison -/

section Comparison

variable {t : TableState} {live : List StoredRow}

/-- The rows `rows` of the table match, and the values are assigned. -/
def rowUpdate (t : TableState) (live : List StoredRow) (values : List (Nat × DataValue))
    (rows : List StoredRow) : RowUpdate :=
  { indexMeta := t.indexMeta, live, values, rows }

theorem exists_indexDef {p : IndexDefinition → Prop} :
    (∃ entry ∈ t.indexes, p entry.1) ↔ ∃ d ∈ t.indexMeta, p d := by
  constructor
  · rintro ⟨entry, hentry, hp⟩
    exact ⟨entry.1, List.mem_map_of_mem hentry, hp⟩
  · rintro ⟨d, hd, hp⟩
    obtain ⟨entry, hentry, rfl⟩ := List.mem_map.1 hd
    exact ⟨entry, hentry, hp⟩

variable [UnionMemory] {values : List (Nat × DataValue)} {rows : List StoredRow}

/-- A property of two pairs, one before the other. -/
theorem not_pairwise_filledPairs (hasc : rows.Pairwise fun x y => x.offset < y.offset)
    {R : DataRow → DataRow → Prop} :
    (¬(filledPairs values rows).Pairwise fun a b => ¬R a.updated b.updated) ↔
      ∃ x ∈ (rowUpdate t live values rows).changed,
        ∃ y ∈ (rowUpdate t live values rows).changed, x.offset < y.offset ∧
          R (assignedRow values x.row) (assignedRow values y.row) := by
  have hchanged : (rowUpdate t live values rows).changed.Pairwise fun x y =>
      x.offset < y.offset := hasc.sublist List.filter_sublist
  unfold filledPairs
  rw [List.pairwise_map]
  show ¬(rowUpdate t live values rows).changed.Pairwise (fun x y =>
    ¬R (assignedRow values x.row) (assignedRow values y.row)) ↔ _
  generalize (rowUpdate t live values rows).changed = changed at hchanged
  induction changed with
  | nil => simp
  | cons z zs ih =>
    obtain ⟨hz, hzs⟩ := List.pairwise_cons.1 hchanged
    rw [List.pairwise_cons, not_and_or, ih hzs]
    constructor
    · rintro (hfirst | ⟨x, hx, y, hy, hR⟩)
      · simp only [not_forall, not_not] at hfirst
        obtain ⟨y, hy, hR⟩ := hfirst
        exact ⟨z, List.mem_cons_self, y, List.mem_cons_of_mem _ hy, hz y hy, hR⟩
      · exact ⟨x, List.mem_cons_of_mem _ hx, y, List.mem_cons_of_mem _ hy, hR⟩
    · rintro ⟨x, hx, y, hy, hlt, hR⟩
      rcases List.mem_cons.1 hy with rfl | hy'
      · rcases List.mem_cons.1 hx with rfl | hx'
        · exact absurd hlt (Nat.lt_irrefl _)
        · exact absurd hlt (Nat.lt_asymm (hz x hx'))
      · rcases List.mem_cons.1 hx with rfl | hx'
        · exact Or.inl fun hall => hall y hy' hR
        · exact Or.inr ⟨x, hx', y, hy', hlt, hR⟩

theorem meetsKey_iff (live : List StoredRow) {others : List StoredRow} :
    MeetsKey t others (filledPairs values rows) ↔ ∃ d ∈ t.indexMeta,
      ∃ x ∈ (rowUpdate t live values rows).changed, ∃ y ∈ others,
        (rowUpdate t live values rows).TakesKey d x y := by
  rw [MeetsKey, exists_indexDef (p := fun d => ∃ pair ∈ filledPairs values rows, ∃ x ∈ others,
    x.offset ≠ pair.original.offset ∧ keyBytes d x.row = keyBytes d pair.updated)]
  refine exists_congr fun d => and_congr_right fun _ => ?_
  constructor
  · rintro ⟨pair, hpair, y, hy, hne, hkey⟩
    obtain ⟨x, hx, hchanges, rfl⟩ := mem_filledPairs.1 hpair
    exact ⟨x, List.mem_filter.2 ⟨hx, hchanges⟩, y, hy, Ne.symm hne, hkey.symm⟩
  · rintro ⟨x, hx, y, hy, hne, hkey⟩
    obtain ⟨hx, hchanges⟩ := List.mem_filter.1 hx
    exact ⟨_, mem_filledPairs.2 ⟨x, hx, hchanges, rfl⟩, y, hy, Ne.symm hne, hkey.symm⟩

theorem meetsKept_iff :
    MeetsKey t (keptRows live (filledPairs values rows)) (filledPairs values rows) ↔
      (rowUpdate t live values rows).MeetsKept := by
  have hkept : ∀ y, y ∈ keptRows live (filledPairs values rows) ↔
      y ∈ live ∧ ∀ z ∈ (rowUpdate t live values rows).changed, z.offset ≠ y.offset := by
    intro y
    unfold keptRows
    rw [List.mem_filter, List.all_eq_true]
    refine and_congr_right fun _ => ?_
    constructor
    · intro hall z hz
      obtain ⟨hz, hchanges⟩ := List.mem_filter.1 hz
      simpa using hall _ (mem_filledPairs.2 ⟨z, hz, hchanges, rfl⟩)
    · intro hall pair hpair
      obtain ⟨z, hz, hchanges, rfl⟩ := mem_filledPairs.1 hpair
      simpa using hall z (List.mem_filter.2 ⟨hz, hchanges⟩)
  rw [meetsKey_iff live, RowUpdate.MeetsKept]
  refine exists_congr fun d => and_congr_right fun _ => exists_congr fun x =>
    and_congr_right fun _ => exists_congr fun y => ?_
  rw [hkept, and_assoc]
  rfl

theorem shareKey_iff (live : List StoredRow)
    (hasc : rows.Pairwise fun x y => x.offset < y.offset) :
    ShareKey t (filledPairs values rows) ↔ (rowUpdate t live values rows).OneKeyPair := by
  rw [ShareKey, exists_indexDef (p := fun d =>
    ¬UniqueKeys d ((filledPairs values rows).map (·.updated)))]
  refine exists_congr fun d => and_congr_right fun _ => ?_
  rw [UniqueKeys, List.pairwise_map]
  exact not_pairwise_filledPairs (R := fun a b => keyBytes d a = keyBytes d b) hasc

theorem shareColumns_iff (live : List StoredRow)
    (hasc : rows.Pairwise fun x y => x.offset < y.offset) :
    ShareColumns t (filledPairs values rows) ↔ (rowUpdate t live values rows).EqualPair := by
  rw [ShareColumns, exists_indexDef (p := fun d =>
    ¬(filledPairs values rows).Pairwise fun a b => ¬EqualIn d a.updated b.updated)]
  exact exists_congr fun d => and_congr_right fun _ => not_pairwise_filledPairs hasc

/-- The checks of an UPDATE pass if and only if the rows that result have different keys,
exactly when every pair of changed rows that they take wrongly makes no difference; and where
no index covers a `float` column, exactly when the key bytes of the columns that are not
assigned tell the changed rows apart, or the UPDATE is refused for another pair. -/
theorem checkUpdates_unique_iff (strtof : Strtof) (h : IndexedTable t live) {stmt : UpdateStmt}
    {plan : UpdateExecPlan}
    (hplan : (do validateUpdate stmt; analyzeUpdate strtof t stmt) = .ok plan)
    (htypes : AssignsEach (fun c v => v.type = c.resolvedType.typeInfo.valueType)
      t.schema.columns plan.values) :
    ∃ decision rows pairs, planUpdate t plan = .ok decision ∧
      matchedRows t plan.filter decision = .ok rows ∧
      collectUpdates t plan decision = .ok pairs ∧
      (NoFloats t.schema.columns t.indexMeta →
        ((checkUpdates t pairs = .ok (.ok ()) ↔
            ∀ entry ∈ t.indexes, UniqueKeys entry.1 (resultRows live pairs)) ↔
          (rowUpdate t live plan.values rows).PrefixesTellApart)) ∧
      ((checkUpdates t pairs = .ok (.ok ()) ↔
          ∀ entry ∈ t.indexes, UniqueKeys entry.1 (resultRows live pairs)) ↔
        (rowUpdate t live plan.values rows).Decided) := by
  obtain ⟨hfilter, hvalues⟩ := analyzeUpdate_apart hplan
  obtain ⟨decision, rows, hdecision, hrows, hpairs, hsub, hasc⟩ := h.exists_pairs hfilter hvalues
  have htyped : (rowUpdate t live plan.values rows).Typed t.schema := by
    refine ⟨fun d hd => ?_, fun x hx => (h.typed x hx).ofTypes, hsub, hvalues, htypes⟩
    obtain ⟨entry, hentry, rfl⟩ := List.mem_map.1 hd
    exact h.valid entry hentry
  have hupdated : ∀ pair ∈ filledPairs plan.values rows,
      RowOfTypes t.schema.columns pair.updated := by
    intro pair hpair
    obtain ⟨x, hx, -, rfl⟩ := mem_filledPairs.1 hpair
    exact forall₂_assignedRow hvalues (h.typed x (hsub x hx)).ofTypes
      fun q hq column hcolumn => Or.inl (htypes q hq column hcolumn)
  have hdecided : (checkUpdates t (filledPairs plan.values rows) = .ok (.ok ()) ↔
      ∀ entry ∈ t.indexes, UniqueKeys entry.1 (resultRows live (filledPairs plan.values rows))) ↔
      (rowUpdate t live plan.values rows).Decided := by
    rw [h.checkUpdates_spec hupdated, h.uniqueKeys_result, meetsKey_iff live,
      meetsKept_iff, shareKey_iff live hasc, shareColumns_iff live hasc,
      ← not_or, ← not_or, not_iff_not]
    exact RowUpdate.decided_iff (u := rowUpdate t live plan.values rows)
      (tableScan_ascending h.scan) hsub
  exact ⟨decision, rows, _, hdecision, hrows, hpairs,
    fun hfloats => hdecided.trans (htyped.decided_iff hfloats), hdecided⟩

end Comparison

/-! ## An UPDATE of a column next to a prefix -/

open ClearedMemory

/-- `update t set b = 5 where b > 0` -/
def setB : UpdateStmt :=
  ⟨text "t", [⟨text "b", ⟨.number, text "5"⟩⟩], [⟨text "b", .greater, ⟨.number, text "0"⟩⟩]⟩

def setBPlan : UpdateExecPlan := ⟨[(1, .int 5)], [⟨1, .int 0, .greater⟩]⟩

theorem plan_setB : (do
    validateUpdate setB
    analyzeUpdate (fun s => ⟨false, 0, s⟩) prefixTable setB) = .ok setBPlan := rfl

/-- The update of two rows of three. -/
theorem checkUpdates_unique_iff_setB : ∃ decision rows pairs,
    planUpdate prefixTable setBPlan = .ok decision ∧
    matchedRows prefixTable setBPlan.filter decision = .ok rows ∧
    collectUpdates prefixTable setBPlan decision = .ok pairs ∧
    (NoFloats prefixSchema.columns prefixTable.indexMeta →
      ((checkUpdates prefixTable pairs = .ok (.ok ()) ↔ ∀ entry ∈ prefixTable.indexes,
          UniqueKeys entry.1 (resultRows prefixRows pairs)) ↔
        (rowUpdate prefixTable prefixRows setBPlan.values rows).PrefixesTellApart)) ∧
    ((checkUpdates prefixTable pairs = .ok (.ok ()) ↔ ∀ entry ∈ prefixTable.indexes,
        UniqueKeys entry.1 (resultRows prefixRows pairs)) ↔
      (rowUpdate prefixTable prefixRows setBPlan.values rows).Decided) :=
  checkUpdates_unique_iff _ indexedTable_prefixTable plan_setB (fun q hq c hc => by
    obtain rfl := List.mem_singleton.1 hq
    cases hc
    rfl)

/-- The first two rows get the key of `('ab', 5)`, and the checks pass. -/
theorem setB_passes :
    IndexedTable prefixTable prefixRows ∧
    (do
      validateUpdate setB
      analyzeUpdate (fun s => ⟨false, 0, s⟩) prefixTable setB) = .ok setBPlan ∧
    ∃ pairs, planUpdate prefixTable setBPlan = .ok none ∧
      collectUpdates prefixTable setBPlan none = .ok pairs ∧
      checkUpdates prefixTable pairs = .ok (.ok ()) ∧
      ¬∀ entry ∈ prefixTable.indexes, UniqueKeys entry.1 (resultRows prefixRows pairs) := by
  have hpairs : collectUpdates prefixTable setBPlan none
      = .ok [⟨⟨prefixRow "abx" 1, 0⟩, prefixRow "abx" 5⟩,
        ⟨⟨prefixRow "aby" 2, 11⟩, prefixRow "aby" 5⟩] := by decide +kernel
  refine ⟨indexedTable_prefixTable, plan_setB, _, rfl, hpairs, by decide +kernel,
    fun hall => ?_⟩
  have hkeys := hall _ (List.mem_singleton.2 rfl)
  exact (List.pairwise_cons.1 hkeys).1 (prefixRow "aby" 5) List.mem_cons_self
    (by decide +kernel)

end Maxql
