import Maxql.Database.Catalog
import Maxql.Engine.Answer
import Maxql.Engine.PrintRow

/-!
# SHOW TABLE, SHOW INDEX and SHOW INDEX TYPES

The cells that the executors of `src/engine/dal/executor.c` hand to the
printer.  A default is formatted into an array that has the display width of
its column and a byte for the NUL, so it is cut as a value in a row is.

* `showTableRows_whole_iff`: when every default is shown whole;
* `showIndexRows_eq`: the cells of the indexes.
-/

namespace Maxql

open Program Bytes

variable (unwritten : Unwritten) (printFloat : FloatFormat)

/-! ## Cells -/

def showTablesNames : List Text := [text "Tables"]

def showTableNames : List Text := [text "Column", text "Type", text "Default", text "Index"]

def showIndexNames : List Text :=
  [text "Index", text "Type", text "Unique", text "Column 1", text "Column 2", text "Column 3",
    text "Column 4"]

def showIndexTypesNames : List Text := [text "Type", text "Desc"]

def yesNo (b : Bool) : Text := if b then text "Yes" else text "No"

/-- Some index starts with the column.  The loop stops at the first. -/
def columnHasIndex (columnPos : Nat) : IndexMeta → Checked Bool
  | [] => .ok false
  | indexDef :: indexMeta => do
    let part ← readAt indexDef.parts 0
    if part.columnPos == columnPos then .ok true else columnHasIndex columnPos indexMeta

/-- `default_buf` of `execute_show_table`, as the string that is printed. -/
def defaultCell (column : Column) : Checked Text :=
  if column.hasDefault then do
    let buf ← formatDisplay printFloat column.resolvedType.columnType column.defaultValue
      (unwritten (column.displayWidth + 1)).toList
    printString buf
  else .ok (text "-")

/-- One round of `execute_show_table`. -/
def showTableRow (indexMeta : IndexMeta) (entry : Column × Nat) : Checked (List Text) := do
  let colHasIndex ← columnHasIndex entry.2 indexMeta
  let default ← defaultCell unwritten printFloat entry.1
  return [entry.1.columnName, entry.1.resolvedType.resolvedTypeName, default, yesNo colHasIndex]

def showTableRows (schema : TableSchema) (indexMeta : IndexMeta) : Checked (List (List Text)) :=
  schema.columns.zipIdx.mapM (showTableRow unwritten printFloat indexMeta)

/-- `col_parts[j]`, an array of 64 bytes. -/
def partCell : Option IndexPart → Text
  | some part =>
    (part.column ++ text "(" ++ Decimal.print part.partLen ++ text ")").take 63
  | none => text "-"

/-- One round of `execute_show_index`. -/
def showIndexRow (indexDef : IndexDefinition) : Checked (List Text) := do
  let vt ← indexVtableOf indexDef.type
  return indexDef.name :: vt.typeName :: yesNo indexDef.isUnique ::
    (List.range maxIndexColumnCount).map fun j => partCell indexDef.parts[j]?

def showIndexRows (indexMeta : IndexMeta) : Checked (List (List Text)) :=
  indexMeta.mapM showIndexRow

/-- The description of the type in `builtin_indexes`. -/
def IndexVTable.desc (vt : IndexVTable) : Text :=
  match vt.type with
  | .btree => text "Simple index with unique-only keys"
  | .hash => []

/-- The loop of `execute_show_index_types` over `index_registry_next`. -/
def showIndexTypesRows : List (List Text) := indexRegistry.map fun vt => [vt.typeName, vt.desc]

/-! ## What they hold -/

variable {unwritten printFloat}

/-- A default as it is meant to be shown. -/
def defaultText (printFloat : FloatFormat) (column : Column) : Text :=
  if column.hasDefault then displayText printFloat column.defaultValue else text "-"

/-- The text of a `binary` default is no longer than the display width, which is an 8-bit
number. -/
def Column.DefaultFits (column : Column) : Prop :=
  column.hasDefault = true → ∀ b, column.defaultValue = .binary b →
    2 + 2 * b.bytes.length ≤ (column.resolvedType.byteLen * 2 + 2) % 256

/-- The rows of SHOW TABLE. -/
def tableCells (printFloat : FloatFormat) (schema : TableSchema) (indexMeta : IndexMeta) :
    List (List Text) :=
  schema.columns.zipIdx.map fun entry =>
    [entry.1.columnName, entry.1.resolvedType.resolvedTypeName, defaultText printFloat entry.1,
      yesNo (indexMeta.any fun d => d.parts.head?.any (·.columnPos == entry.2))]

/-- The rows of SHOW INDEX. -/
def indexCells (indexMeta : IndexMeta) : List (List Text) :=
  indexMeta.map fun d => d.name :: text "btree" :: yesNo d.isUnique ::
    (List.range maxIndexColumnCount).map fun j => partCell d.parts[j]?

/-- The column that an index starts with. -/
theorem columnHasIndex_eq {columnPos : Nat} {indexMeta : IndexMeta}
    (h : ∀ d ∈ indexMeta, d.parts ≠ []) : columnHasIndex columnPos indexMeta
      = .ok (indexMeta.any fun d => d.parts.head?.any (·.columnPos == columnPos)) := by
  induction indexMeta with
  | nil => rfl
  | cons d indexMeta ih =>
    obtain ⟨hd, hrest⟩ := List.forall_mem_cons.1 h
    obtain ⟨part, parts, hparts⟩ := List.exists_cons_of_ne_nil hd
    have hread : readAt d.parts 0 = .ok part := by rw [hparts]; rfl
    rw [columnHasIndex, hread, Checked.ok_bind, List.any_cons, hparts, List.head?_cons,
      Option.any_some]
    cases hfound : part.columnPos == columnPos with
    | true => rfl
    | false => exact ih hrest

theorem displayText_zero_not_mem (hfloats : PrintsFloats printFloat) (value : DataValue) :
    0 ∉ displayText printFloat value := by
  cases value with
  | string s => exact s.nonzero
  | null => exact literalText_zero_not_mem hfloats .null
  | int n => exact literalText_zero_not_mem hfloats (.int n)
  | binary b => exact literalText_zero_not_mem hfloats (.binary b)
  | float bits => exact literalText_zero_not_mem hfloats (.float bits)

/-- An array that holds a text holds it in front of a NUL. -/
theorem printString_eq_ok {buf s : List UInt8} :
    printString buf = .ok s ↔ 0 ∉ s ∧ ∃ rest, buf = s ++ 0 :: rest := by
  unfold printString
  constructor
  · intro h
    split at h
    · next hzero =>
      cases h
      refine ⟨zero_not_mem_cstr buf, ?_⟩
      induction buf with
      | nil => cases hzero
      | cons c buf ih =>
        by_cases hc : c = 0
        · subst hc
          exact ⟨buf, rfl⟩
        · have hmem : 0 ∈ buf := by
            rcases List.mem_cons.1 hzero with heq | hmem
            · exact absurd heq.symm hc
            · exact hmem
          obtain ⟨rest, hrest⟩ := ih hmem
          have hcstr : cstr (c :: buf) = c :: cstr buf := by simp [cstr, hc]
          refine ⟨rest, ?_⟩
          rw [hcstr, List.cons_append, ← hrest]
    · cases h
  · rintro ⟨hzero, rest, rfl⟩
    rw [if_pos (by simp), cstr_append_nul hzero]

/-- Which texts fit. -/
theorem displayText_fits_iff (hfloats : PrintsFloats printFloat) {column : Column}
    (hvalid : resolvedTypeValidate column.resolvedType column.defaultValue = .ok)
    (hdefault : column.hasDefault = true) :
    (displayText printFloat column.defaultValue).length ≤ column.displayWidth ↔
      column.DefaultFits := by
  have hcases := resolvedTypeValidate_eq_ok.1 hvalid
  obtain ⟨name, ⟨columnType, byteLen, typeName⟩, hasDefault, value⟩ := column
  unfold Column.DefaultFits Column.displayWidth displayWidth
  dsimp only at hcases hdefault ⊢
  cases columnType <;> cases value <;> dsimp only at hcases ⊢ <;> try exact hcases.elim
  case int.int n =>
    have hlen := length_formatInt_lt n
    exact iff_of_true (Nat.le_of_lt_succ hlen) nofun
  case varchar.string s => exact iff_of_true (le_displayWidth_string hcases) nofun
  case char.string s => exact iff_of_true (le_displayWidth_string hcases) nofun
  case binary.binary b =>
    have hlen : (displayText printFloat (.binary b)).length = 2 + 2 * b.bytes.length := by
      show (text "0x" ++ b.bytes.flatMap hexText).length = _
      rw [List.length_append, length_flatMap_hexText]
      rfl
    rw [hlen]
    constructor
    · intro hle _ b' hb'
      cases hb'
      exact hle
    · exact fun h => h hdefault b rfl
  case float.float bits =>
    have hlen := hfloats.fits bits
    exact iff_of_true (Nat.le_of_lt hlen) nofun

theorem defaultCell_whole_iff (unwritten : Unwritten) (hfloats : PrintsFloats printFloat)
    {column : Column}
    (hvalid : column.hasDefault = true →
      resolvedTypeValidate column.resolvedType column.defaultValue = .ok) :
    defaultCell unwritten printFloat column = .ok (defaultText printFloat column) ↔
      column.DefaultFits := by
  unfold defaultCell defaultText
  cases hdefault : column.hasDefault with
  | false => exact iff_of_true rfl fun h => absurd (hdefault.symm.trans h) Bool.false_ne_true
  | true =>
    have hvalid := hvalid hdefault
    have htype : column.defaultValue.type = column.resolvedType.typeInfo.valueType := by
      by_contra hne
      rw [resolvedTypeValidate, if_pos hne] at hvalid
      cases hvalid
    have hwhole : (∃ cell, formatDisplay printFloat column.resolvedType.columnType
        column.defaultValue (unwritten (column.displayWidth + 1)).toList = .ok cell ∧
        WholeCell printFloat column.defaultValue cell) ↔ _ := formatDisplay_whole_iff htype _
    rw [Vector.length_toList, Nat.lt_succ_iff, displayText_fits_iff hfloats hvalid hdefault]
      at hwhole
    rw [if_pos rfl, if_pos rfl, ← hwhole, Checked.bind_eq_ok]
    refine exists_congr fun cell => and_congr_right fun _ => ?_
    rw [printString_eq_ok]
    exact and_iff_right (displayText_zero_not_mem hfloats _)

/-- SHOW TABLE shows every default whole, and does not write behind its array, exactly where the
text of every `binary` default is no longer than the display width. -/
theorem showTableRows_whole_iff (unwritten : Unwritten) (hfloats : PrintsFloats printFloat)
    {schema : TableSchema}
    (hvalid : ∀ c ∈ schema.columns, c.hasDefault = true →
      resolvedTypeValidate c.resolvedType c.defaultValue = .ok)
    {indexMeta : IndexMeta} (hparts : ∀ d ∈ indexMeta, d.parts ≠ []) :
    showTableRows unwritten printFloat schema indexMeta
        = .ok (tableCells printFloat schema indexMeta) ↔
      ∀ c ∈ schema.columns, c.DefaultFits := by
  unfold showTableRows tableCells
  rw [mapM_eq_ok, List.forall₂_map_right_iff, List.forall₂_same]
  have hrow : ∀ entry ∈ schema.columns.zipIdx,
      (showTableRow unwritten printFloat indexMeta entry = .ok
        [entry.1.columnName, entry.1.resolvedType.resolvedTypeName, defaultText printFloat entry.1,
          yesNo (indexMeta.any fun d => d.parts.head?.any (·.columnPos == entry.2))] ↔
        entry.1.DefaultFits) := by
    intro entry hentry
    have hcolumn : entry.1 ∈ schema.columns := List.fst_mem_of_mem_zipIdx hentry
    rw [← defaultCell_whole_iff unwritten hfloats (hvalid _ hcolumn), showTableRow,
      columnHasIndex_eq hparts, Checked.ok_bind]
    constructor
    · intro h
      obtain ⟨default, hdefault, h⟩ := Checked.bind_eq_ok.1 h
      cases h
      exact hdefault
    · intro h
      rw [h]
      rfl
  constructor
  · intro h c hc
    obtain ⟨i, hi, rfl⟩ := List.mem_iff_getElem.1 hc
    have hentry : (schema.columns[i], i) ∈ schema.columns.zipIdx := by
      rw [List.mem_zipIdx_iff_getElem?]
      exact List.getElem?_eq_getElem hi
    exact (hrow _ hentry).1 (h _ hentry)
  · intro h entry hentry
    exact (hrow entry hentry).2 (h _ (List.fst_mem_of_mem_zipIdx hentry))

/-- SHOW INDEX always has its cells. -/
theorem showIndexRows_eq {indexMeta : IndexMeta} (h : ∀ d ∈ indexMeta, d.type = .btree) :
    showIndexRows indexMeta = .ok (indexCells indexMeta) := by
  unfold showIndexRows indexCells
  rw [mapM_eq_ok, List.forall₂_map_right_iff, List.forall₂_same]
  intro d hd
  rw [showIndexRow, h d hd]
  rfl

end Maxql
