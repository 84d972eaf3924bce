import Maxql.Engine.Refines
import Maxql.Schema.RoundTrip
import Maxql.View.Aligned

/-!
# What SELECT prints

`create_select_printer`, `print_row` and `execute_select` of
`src/engine/dml/executor.c` with `print_index_info` of `src/view/output.c`.  A
SELECT that uses an index keeps its rows until the end, one that scans the table
streams them.  There are three groups.

* The functions.
* One row.  `printRow_typed` gives the cells of a stored row, which have room in
  their columns.
* The result.  `selectText` is the text of a SELECT on a logical table, and
  `runs_printSelect` prints it from a table that stands for it.
-/

namespace Maxql.View

open Program Bytes Justify

/-! ## The functions -/

/-- `align_right` of `presentation_mapping` -/
def alignRight : ColumnType → Bool
  | .int => true
  | .varchar => false
  | .char => false
  | .binary => false
  | .float => true

/-- What `create_select_printer` takes from a column. -/
def selectColumn (column : Column) : PrinterColumn where
  name := column.columnName
  width := column.displayWidth
  rightAlign := alignRight column.resolvedType.columnType

def createSelectPrinter (columns : List Column) (order : List Nat) (useIndex : Bool) :
    Checked TablePrinter := do
  let selected ← order.mapM fun columnIndex => do
    let column ← readAt columns columnIndex
    return selectColumn column
  if useIndex then
    return printerBuffered (selected.map fun column => (column.name, column.rightAlign))
  else return printerStream selected

/-- `print_index_info` -/
def indexInfo : Option IndexDecision → Text
  | some decision => text "Index used: " ++ (decision.indexDef.name ++ text "\n")
  | none => text "No index used\n"

section Functions

variable (unwritten : Unwritten) (printFloat : FloatFormat)

/-- The cells that `print_row` hands to the printer, which takes them for strings. -/
def rowCells (columns : List Column) (plan : SelectExecPlan) (row : DataRow) :
    Checked (List Text) := do
  let bufs ← Maxql.printRow unwritten printFloat columns plan row
  bufs.mapM printString

def printResultRow (columns : List Column) (plan : SelectExecPlan) (p : TablePrinter)
    (row : DataRow) : Print TablePrinter := do
  let cells ← rowCells unwritten printFloat columns plan row
  p.addRow unwritten cells

/-- `execute_select` on the rows that pass. -/
def printResult (columns : List Column) (plan : SelectExecPlan) (decision : Option IndexDecision)
    (rows : List DataRow) : Print Unit := do
  let p ← createSelectPrinter columns plan.queryColumnOrder decision.isSome
  let p ← rows.foldlM (printResultRow unwritten printFloat columns plan) p
  p.finish unwritten
  puts (indexInfo decision)

/-- SELECT on a table. -/
def printSelect [UnionMemory] (strtof : Strtof) (t : TableState) (stmt : SelectStmt) :
    Print (Except Error Unit) :=
  match (do validateSelect stmt; analyzeSelect strtof t stmt) with
  | .error e => pure (.error e)
  | .ok plan => do
    let decision ← planSelect t plan
    let stored ← executeSelect t plan decision
    printResult unwritten printFloat t.schema.columns plan decision (stored.map (·.row))
    return .ok ()

end Functions

/-! ## One row -/

section Rows

variable {unwritten : Unwritten} {printFloat : FloatFormat}

/-- The text of a value has room in its column. -/
theorem displayText_fits (hfloats : PrintsFloats printFloat) {rt : ResolvedType} {v : DataValue}
    (hv : resolvedTypeValidate rt v = .ok)
    (hbinary : rt.columnType = .binary → rt.byteLen ≤ 126) :
    (displayText printFloat v).length ≤ displayWidth rt.columnType rt.byteLen := by
  rw [resolvedTypeValidate_eq_ok] at hv
  cases htype : rt.columnType <;> rw [htype] at hv hbinary <;> cases v <;> dsimp only at hv <;>
    try exact hv.elim
  case int.int n => exact Nat.le_of_lt_succ (length_formatInt_lt n)
  case varchar.string s => exact le_displayWidth_string hv
  case char.string s => exact le_displayWidth_string hv
  case binary.binary b =>
    rw [displayWidth_binary (hbinary rfl)]
    show (text "0x" ++ b.bytes.flatMap hexText).length ≤ _
    rw [List.length_append, length_flatMap_hexText]
    show 2 + _ ≤ _
    omega
  case float.float bits =>
    have hlen := hfloats.fits bits
    show (printFloat bits).length ≤ 15
    omega

/-- The texts of the values that are selected. -/
def rowTexts (printFloat : FloatFormat) (order : List Nat) (row : DataRow) : List Text :=
  (selectedValues order row).map (displayText printFloat)

/-- No selected `binary` column is longer than 126 bytes. -/
def BinariesFit (columns : List Column) (order : List Nat) : Prop :=
  ∀ i ∈ order, ∀ column ∈ columns[i]?,
    column.resolvedType.columnType = .binary → column.resolvedType.byteLen ≤ 126

/-- The value of a stored row in a column, with its text. -/
theorem text_fits_of_typed (hfloats : PrintsFloats printFloat) {columns : List Column}
    {row : DataRow} (hrow : RowTyped columns row) {order : List Nat}
    (hbinary : BinariesFit columns order) {i : Nat} (hi : i ∈ order) {column : Column}
    (hcolumn : columns[i]? = some column) :
    ∃ v, row[i]? = some v ∧ v.type = column.resolvedType.typeInfo.valueType ∧
      (displayText printFloat v).length ≤ column.displayWidth := by
  obtain ⟨hlt, rfl⟩ := List.getElem?_eq_some_iff.1 hcolumn
  have hrowlt : i < row.length := hrow.length_eq ▸ hlt
  have hvalid := hrow.get hlt hrowlt
  exact ⟨row[i], List.getElem?_eq_getElem hrowlt, type_of_validate hvalid,
    displayText_fits hfloats hvalid (hbinary i hi _ hcolumn)⟩

/-- A stored row is printed as the texts of its values. -/
theorem rowCells_typed (hfloats : PrintsFloats printFloat) {columns : List Column}
    {plan : SelectExecPlan} (horder : ∀ i ∈ plan.queryColumnOrder, i < columns.length)
    (hbinary : BinariesFit columns plan.queryColumnOrder) {row : DataRow}
    (hrow : RowTyped columns row) :
    rowCells unwritten printFloat columns plan row
      = .ok (rowTexts printFloat plan.queryColumnOrder row) := by
  obtain ⟨maxBuf, hmaxBuf, hmax⟩ := printRowMaxBuf_spec horder
  have hcells : ∃ bufs, plan.queryColumnOrder.mapM (fun columnIndex => do
        let column ← readAt columns columnIndex
        let value ← readAt row columnIndex
        formatDisplay printFloat column.resolvedType.columnType value (unwritten maxBuf).toList :
          Nat → Checked (List UInt8)) = .ok bufs ∧
      List.Forall₂ (fun i buf => printString buf
        = .ok (displayText printFloat (row.getD i .null))) plan.queryColumnOrder bufs := by
    refine exists_mapM_iff.2 fun i hi => ?_
    have hlt := horder i hi
    have hcolumn : columns[i]? = some columns[i] := List.getElem?_eq_getElem hlt
    obtain ⟨v, hv, htype, hlen⟩ := text_fits_of_typed hfloats hrow hbinary hi hcolumn
    have hroom : (displayText printFloat v).length < (unwritten maxBuf).toList.length := by
      rw [Vector.length_toList]
      exact (hmax _).2 ⟨i, hi, columns[i], hcolumn, hlen⟩
    obtain ⟨cell, hcell, rest, hrest⟩ := (formatDisplay_whole_iff htype _).2 hroom
    have hget : row.getD i .null = v := by
      rw [List.getD_eq_getElem?_getD, hv]
      rfl
    rw [readAt_of_getElem? hcolumn, readAt_of_getElem? hv, hget]
    exact ⟨cell, hcell, printString_eq_ok.2 ⟨displayText_zero_not_mem hfloats v, rest, hrest⟩⟩
  obtain ⟨bufs, hbufs, hprints⟩ := hcells
  have hrun : Maxql.printRow unwritten printFloat columns plan row = .ok bufs := by
    rw [Maxql.printRow, hmaxBuf]
    exact hbufs
  rw [rowCells, hrun, Checked.ok_bind, rowTexts, selectedValues, List.map_map]
  exact mapM_eq_ok.2 (List.forall₂_map_right_iff.2 hprints.flip)

end Rows

/-! ## The printer -/

section Printers

variable {unwritten : Unwritten} {printFloat : FloatFormat} {schema : TableSchema}
  {order : List Nat}

/-- The columns that are selected. -/
def selectedColumns (schema : TableSchema) (order : List Nat) : List PrinterColumn :=
  order.map fun i => selectColumn (columnAt schema i)

/-- The printer of a SELECT. -/
def selectPrinter (schema : TableSchema) (order : List Nat) (useIndex : Bool) : TablePrinter :=
  if useIndex then bufferedOver (selectedColumns schema order)
  else printerStream (selectedColumns schema order)

theorem createSelectPrinter_eq (horder : ∀ i ∈ order, i < schema.columns.length)
    (useIndex : Bool) : createSelectPrinter schema.columns order useIndex
      = .ok (selectPrinter schema order useIndex) := by
  have hselected : order.mapM (fun columnIndex => do
      let column ← readAt schema.columns columnIndex
      return selectColumn column : Nat → Checked PrinterColumn)
        = .ok (selectedColumns schema order) := by
    refine mapM_eq_ok.2 (List.forall₂_map_right_iff.2 (List.forall₂_same.2 fun i hi => ?_))
    have hlt := horder i hi
    have hcolumn : schema.columns[i]? = some schema.columns[i] := List.getElem?_eq_getElem hlt
    rw [readAt_of_getElem? hcolumn, columnAt_eq hcolumn]
    rfl
  rw [createSelectPrinter, hselected, Checked.ok_bind, selectPrinter]
  cases useIndex <;> rfl

theorem new_selectPrinter (useIndex : Bool) : (selectPrinter schema order useIndex).New := by
  unfold selectPrinter
  split
  · exact new_printerBuffered _
  · exact new_printerStream _

/-- Rows whose cells are known are printed as a table of their cells. -/
theorem runs_printResultRows {columns : List Column} {plan : SelectExecPlan} {p : TablePrinter}
    {rows : List DataRow} {texts : List (List Text)}
    (h : List.Forall₂ (fun row cells => rowCells unwritten printFloat columns plan row = .ok cells)
      rows texts) :
    rows.foldlM (printResultRow unwritten printFloat columns plan) p
      = texts.foldlM (TablePrinter.addRow unwritten) p := by
  induction h generalizing p with
  | nil => rfl
  | @cons row cells rows texts hcells _ ih =>
    have hstep : printResultRow unwritten printFloat columns plan p row
        = p.addRow unwritten cells := by
      rw [printResultRow, hcells]
      rfl
    rw [List.foldlM_cons, List.foldlM_cons, hstep]
    exact congrArg (p.addRow unwritten cells >>= ·) (funext fun p' => ih)

end Printers

/-! ## The result -/

section Result

variable {strtof : Strtof} {unwritten : Unwritten} {printFloat : FloatFormat} {t : TableState}
  {l : LogicalTable}

/-- The columns of a query are columns of the table. -/
theorem lt_of_analyzeSelectColumns {columns : List Text} {schema : TableSchema}
    {order : List Nat} (h : analyzeSelectColumns columns schema = .ok order) :
    ∀ i ∈ order, i < schema.columns.length := by
  unfold analyzeSelectColumns at h
  split at h
  · cases h
    exact fun i hi => List.mem_range.1 hi
  · intro i hi
    obtain ⟨name, -, hfind⟩ := forall₂_mem_right (mapM_eq_ok.1 h) hi
    obtain ⟨column, hcolumn, -⟩ := findColumnIndex_spec hfind
    exact (List.getElem?_eq_some_iff.1 hcolumn).1

theorem startsChar_of_isIdent {c : UInt8} (h : isIdent c = true) : startsChar c = true := by
  have hlow : c.toNat < 128 := by
    simp only [isIdent, isLower, isUpper, isDigit, underscore, Bool.or_eq_true, Bool.and_eq_true,
      decide_eq_true_eq, beq_iff_eq, UInt8.le_iff_toNat_le] at h
    rcases h with ((h | h) | h) | rfl
    · exact Nat.lt_of_le_of_lt h.2 (by decide)
    · exact Nat.lt_of_le_of_lt h.2 (by decide)
    · exact Nat.lt_of_le_of_lt h.2 (by decide)
    · decide
  have hle : (c &&& 0xC0).toNat ≤ c.toNat := by
    rw [UInt8.toNat_and]
    exact Nat.and_le_left
  rw [startsChar, bne_iff_ne]
  intro heq
  rw [heq] at hle
  have hmark : (0x80 : UInt8).toNat = 128 := rfl
  omega

section Planned

variable {schema : TableSchema} {order : List Nat}
  (hplanned : PlannedTable schema) (horder : ∀ i ∈ order, i < schema.columns.length)

include hplanned horder

/-- A selected column, with what its table has been checked for. -/
theorem selectedColumns_spec : ∀ column ∈ selectedColumns schema order,
    (∀ c ∈ column.name, startsChar c = true) ∧ column.name.length ≤ maxColumnNameSize ∧
      column.width < 256 := by
  refine List.forall_mem_map.2 fun i hi => ?_
  have hlt := horder i hi
  have hcolumn : schema.columns[i]? = some schema.columns[i] := List.getElem?_eq_getElem hlt
  have hcol := hplanned.columns _ (List.getElem_mem hlt)
  rw [columnAt_eq hcolumn]
  refine ⟨fun c hc => ?_, hcol.fits,
    displayWidth_lt (hplanned.sound.columns _ (List.getElem_mem hlt))⟩
  by_contra hcont
  have hident : isIdent c = false := Bool.eq_false_iff.2 fun h => hcont (startsChar_of_isIdent h)
  exact isIdentifier_not_mem hcol.name hident hc

/-- The texts of the stored rows have room in the selected columns. -/
theorem rowTexts_spec (hfloats : PrintsFloats printFloat)
    (hbinary : BinariesFit schema.columns order) {row : DataRow}
    (hrow : RowTyped schema.columns row) :
    RowOf (selectedColumns schema order) (rowTexts printFloat order row) ∧
      CellsInside ((selectedColumns schema order).map fun column =>
        column.widen column.name.length) (rowTexts printFloat order row) ∧
      ∀ cell ∈ rowTexts printFloat order row, cell.length < 256 := by
  have hcell : ∀ i ∈ order, ∃ v, row.getD i .null = v ∧
      (displayText printFloat v).length ≤ (columnAt schema i).displayWidth ∧
      (columnAt schema i).displayWidth < 256 := by
    intro i hi
    have hlt := horder i hi
    have hcolumn : schema.columns[i]? = some schema.columns[i] := List.getElem?_eq_getElem hlt
    obtain ⟨v, hv, -, hlen⟩ := text_fits_of_typed hfloats hrow hbinary hi hcolumn
    rw [columnAt_eq hcolumn, List.getD_eq_getElem?_getD, hv]
    exact ⟨v, rfl, hlen, displayWidth_lt (hplanned.sound.columns _ (List.getElem_mem hlt))⟩
  have htexts : rowTexts printFloat order row
      = order.map fun i => displayText printFloat (row.getD i .null) := by
    rw [rowTexts, selectedValues, List.map_map]
    rfl
  have hshort : ∀ cell ∈ rowTexts printFloat order row, cell.length < 256 := by
    rw [htexts]
    refine List.forall_mem_map.2 fun i hi => ?_
    obtain ⟨v, hv, hlen, hwidth⟩ := hcell i hi
    rw [hv]
    omega
  refine ⟨⟨?_, fun cell hmem => Nat.lt_trans (hshort cell hmem) (by decide)⟩, ?_, hshort⟩
  · rw [htexts, selectedColumns, List.length_map, List.length_map]
  · rw [htexts, selectedColumns, List.map_map, CellsInside, List.forall₂_map_left_iff,
      List.forall₂_map_right_iff, List.forall₂_same]
    intro i hi
    obtain ⟨v, hv, hlen, -⟩ := hcell i hi
    have hdisplay : display startsChar (displayText printFloat v)
      ≤ (displayText printFloat v).length := display_le_length _
    obtain ⟨hle, -⟩ := (selectColumn (columnAt schema i)).le_widen
      (selectColumn (columnAt schema i)).name.length
    rw [hv]
    exact Nat.le_trans hdisplay (Nat.le_trans hlen hle)

theorem shortNames_selectedColumns : ShortNames (selectedColumns schema order) := by
  intro column hmem
  obtain ⟨-, hname, -⟩ := selectedColumns_spec hplanned horder column hmem
  exact Nat.lt_of_le_of_lt hname (by decide)

/-- The table of a SELECT fits the arrays of its separators and has lines of one width. -/
theorem selectPrinter_spec (hfloats : PrintsFloats printFloat)
    (hbinary : BinariesFit schema.columns order) {rows : List DataRow}
    (hrows : ∀ row ∈ rows, RowTyped schema.columns row) (useIndex : Bool) :
    (∀ cells ∈ rows.map (rowTexts printFloat order),
        RowOf (selectPrinter schema order useIndex).columns cells) ∧
      SeparatorsFit (selectPrinter schema order useIndex) (rows.map (rowTexts printFloat order)) ∧
      Aligned ((selectPrinter schema order useIndex).shownColumns
        (rows.map (rowTexts printFloat order))) (rows.map (rowTexts printFloat order)) := by
  have hspec := fun row hrow => rowTexts_spec hplanned horder hfloats hbinary (hrows row hrow)
  have hcolumns := selectedColumns_spec hplanned horder
  have hshort := shortNames_selectedColumns hplanned horder
  have hplain : PlainNames (selectedColumns schema order) :=
    fun column hmem => (hcolumns column hmem).1
  have hof : ∀ cells ∈ rows.map (rowTexts printFloat order),
      RowOf (selectedColumns schema order) cells :=
    List.forall_mem_map.2 fun row hrow => (hspec row hrow).1
  unfold selectPrinter
  cases useIndex with
  | true =>
    refine ⟨fun cells hcells => ?_, fun _ => ?_, aligned_buffered hplain hshort hof⟩
    · rw [if_pos rfl, columns_bufferedOver hshort]
      exact (hof cells hcells).map _
    · show ∀ column ∈ fittedColumns (bufferedOver (selectedColumns schema order)).columns _, _
      rw [columns_bufferedOver hshort]
      refine width_fittedColumns_lt (List.forall_mem_map.2 fun row hrow cell hcell => ?_)
        (List.forall_mem_map.2 fun column hmem => ?_)
      · have hlen := (hspec row hrow).2.2 cell hcell
        have hdisplay : display startsChar cell ≤ cell.length := display_le_length cell
        omega
      · exact Nat.lt_of_le_of_lt (hcolumns column hmem).2.1 (by decide)
  | false =>
    refine ⟨fun cells hcells => ?_, fun _ => ?_,
      (aligned_stream_iff hplain hshort hof).2
        (List.forall_mem_map.2 fun row hrow => (hspec row hrow).2.1)⟩
    · rw [if_neg Bool.false_ne_true, columns_printerStream hshort]
      exact (hof cells hcells).map _
    · show ∀ column ∈ (printerStream (selectedColumns schema order)).columns, _
      rw [columns_printerStream hshort]
      refine List.forall_mem_map.2 fun column hmem => ?_
      obtain ⟨-, hname, hwidth⟩ := hcolumns column hmem
      have hbound : maxColumnNameSize < 298 := by decide
      rw [PrinterColumn.widen]
      split
      · exact Nat.lt_of_le_of_lt hname hbound
      · omega

end Planned

theorem runs_printResult (hplanned : PlannedTable t.schema) (hfloats : PrintsFloats printFloat)
    {plan : SelectExecPlan} (horder : ∀ i ∈ plan.queryColumnOrder, i < t.schema.columns.length)
    (hbinary : BinariesFit t.schema.columns plan.queryColumnOrder) {rows : List DataRow}
    (hrows : ∀ row ∈ rows, RowTyped t.schema.columns row) (decision : Option IndexDecision)
    (out : Text) :
    Runs (printResult unwritten printFloat t.schema.columns plan decision rows) out ()
      (out ++ tableText ((selectPrinter t.schema plan.queryColumnOrder decision.isSome).shownColumns
        (rows.map (rowTexts printFloat plan.queryColumnOrder)))
          (rows.map (rowTexts printFloat plan.queryColumnOrder)) ++ indexInfo decision) := by
  obtain ⟨hof, hfit, -⟩ :=
    selectPrinter_spec hplanned horder hfloats hbinary hrows decision.isSome
  have htexts : List.Forall₂ (fun row cells =>
      rowCells unwritten printFloat t.schema.columns plan row = .ok cells) rows
      (rows.map (rowTexts printFloat plan.queryColumnOrder)) :=
    List.forall₂_map_right_iff.2 (List.forall₂_same.2 fun row hrow =>
      rowCells_typed hfloats horder hbinary (hrows row hrow))
  have hprint := (@printTable_cases unwritten _ _ (new_selectPrinter decision.isSome) hof out).1 hfit
  rw [printTable] at hprint
  obtain ⟨p, out', hrun, hfinish⟩ := hprint.exists_of_bind
  rw [← runs_printResultRows htexts] at hrun
  exact Runs.bind (Runs.lift (createSelectPrinter_eq horder _) out)
    (Runs.bind hrun (Runs.bind hfinish (runs_puts _ _)))

/-- The index that the planner takes for a SELECT. -/
def selectDecision (strtof : Strtof) (l : LogicalTable) (stmt : SelectStmt) :
    Option IndexDecision :=
  match (do validateSelect stmt; analyzeSelect strtof l.bare stmt) with
  | .error _ => none
  | .ok plan => (planSelect l.bare plan).toOption.join

/-- The columns in which a SELECT shows the texts of its rows. -/
def shownSelect (strtof : Strtof) (l : LogicalTable) (stmt : SelectStmt) (order : List Nat)
    (cells : List (List Text)) : List PrinterColumn :=
  (selectPrinter l.schema order (selectDecision strtof l stmt).isSome).shownColumns cells

/-- The texts of the values that a SELECT gets. -/
def selectCells (printFloat : FloatFormat) (rows : List DataRow) : List (List Text) :=
  rows.map (·.map (displayText printFloat))

/-- What a SELECT shows. -/
def selectText [UnionMemory] (strtof : Strtof) (printFloat : FloatFormat) (l : LogicalTable)
    (stmt : SelectStmt) (order : List Nat) (rows : List DataRow) : Text :=
  tableText (shownSelect strtof l stmt order (selectCells printFloat rows))
    (selectCells printFloat rows) ++ indexInfo (selectDecision strtof l stmt)

section Represented

variable [UnionMemory] (h : Represents t l)

include h

theorem runs_printSelect_error {stmt : SelectStmt} {e : Error}
    (herror : l.select strtof stmt = .error e) (out : Text) :
    Runs (printSelect unwritten printFloat strtof t stmt) out (.error e) out := by
  unfold LogicalTable.select at herror
  rw [analyzeSelect_bare h.schema] at herror
  unfold printSelect
  cases hplan : (do validateSelect stmt; analyzeSelect strtof t stmt) with
  | error e' =>
    rw [hplan] at herror
    cases herror
    exact Runs.pure _ _
  | ok plan =>
    rw [hplan] at herror
    cases herror

/-- What a SELECT gets of a logical table, and what the stages of the engine make of it. -/
theorem select_stages {stmt : SelectStmt} (hexact : l.ComparesExactly strtof stmt.conditions)
    {order : List Nat} {rows : List DataRow}
    (hrows : l.select strtof stmt = .ok (.rows order rows)) :
    (∀ i ∈ order, i < t.schema.columns.length) ∧ ∃ plan stored,
      (do validateSelect stmt; analyzeSelect strtof t stmt) = .ok plan ∧
      plan.queryColumnOrder = order ∧ planSelect t plan = .ok (selectDecision strtof l stmt) ∧
      executeSelect t plan (selectDecision strtof l stmt) = .ok stored ∧
      (∀ row ∈ stored.map (·.row), RowTyped t.schema.columns row) ∧
      selectCells printFloat rows = (stored.map (·.row)).map (rowTexts printFloat order) := by
  obtain ⟨plan, hplan, hselect⟩ := bind_eq_ok.1 hrows
  cases hselect
  have hindexes : l.bare.indexMeta = t.indexMeta := by rw [LogicalTable.bare_indexMeta, h.indexes]
  have hbare := hplan
  rw [analyzeSelect_bare h.schema] at hplan
  obtain ⟨decision, stored, hdecision, hexecute, hstored⟩ := h.select_spec hexact hplan
  have hdecision' : selectDecision strtof l stmt = decision := by
    rw [selectDecision, hbare]
    show (planSelect l.bare plan).toOption.join = decision
    rw [planSelect, hindexes, ← planSelect, hdecision]
    rfl
  obtain ⟨-, -, hanalyze⟩ := bind_eq_ok.1 hplan
  obtain ⟨-, -, hanalyze⟩ := bind_eq_ok.1 hanalyze
  obtain ⟨order, hcolumns, hanalyze⟩ := bind_eq_ok.1 hanalyze
  obtain ⟨filter, -, hanalyze⟩ := bind_eq_ok.1 hanalyze
  cases hanalyze
  refine ⟨lt_of_analyzeSelectColumns hcolumns, _, stored, hplan, rfl, ?_, ?_, ?_, ?_⟩
  · rw [hdecision', hdecision]
  · rw [hdecision', hexecute]
  · rw [hstored]
    exact fun row hrow => h.rowTyped row (List.mem_of_mem_filter hrow)
  · rw [hstored, selectCells, List.map_map]
    rfl

variable (hplanned : PlannedTable l.schema) (hfloats : PrintsFloats printFloat)
  {stmt : SelectStmt} (hexact : l.ComparesExactly strtof stmt.conditions) {order : List Nat}
  {rows : List DataRow} (hrows : l.select strtof stmt = .ok (.rows order rows))
  (hbinary : BinariesFit l.schema.columns order)

include hplanned hfloats hexact hrows hbinary

theorem runs_printSelect (out : Text) :
    Runs (printSelect unwritten printFloat strtof t stmt) out (.ok ())
      (out ++ selectText strtof printFloat l stmt order rows) := by
  obtain ⟨horder, plan, stored, hplan, rfl, hdecision, hexecute, htyped, hcells⟩ :=
    @select_stages _ printFloat _ _ _ h _ hexact _ _ hrows
  have htext : selectText strtof printFloat l stmt plan.queryColumnOrder rows
      = tableText ((selectPrinter t.schema plan.queryColumnOrder
          (selectDecision strtof l stmt).isSome).shownColumns (selectCells printFloat rows))
        (selectCells printFloat rows) ++ indexInfo (selectDecision strtof l stmt) := by
    rw [h.schema]
    rfl
  rw [← h.schema] at hplanned hbinary
  have hprint := @runs_printResult unwritten _ _ hplanned hfloats _ horder hbinary _ htyped
    (selectDecision strtof l stmt) out
  rw [← hcells, List.append_assoc, ← htext] at hprint
  unfold printSelect
  rw [hplan]
  exact Runs.bind (Runs.lift hdecision out) (Runs.bind (Runs.lift hexecute out)
    (Runs.bind hprint (Runs.pure _ _)))

theorem aligned_shownSelect :
    Aligned (shownSelect strtof l stmt order (selectCells printFloat rows))
      (selectCells printFloat rows) := by
  obtain ⟨horder, plan, stored, -, rfl, -, -, htyped, hcells⟩ :=
    @select_stages _ printFloat _ _ _ h _ hexact _ _ hrows
  rw [h.schema] at horder htyped
  obtain ⟨-, -, haligned⟩ := selectPrinter_spec hplanned horder hfloats hbinary htyped
    (selectDecision strtof l stmt).isSome
  rw [hcells]
  exact haligned

end Represented

end Result

end Maxql.View
