import Maxql.Engine.Dml
import Maxql.RowCodec
import Maxql.Schema.Save

/-!
# The cells of a row

`print_row` of `src/engine/dml/executor.c`.  All cells of a row have arrays of
one size, which is taken from the widest column that is selected.  A display
width is an 8-bit number, and that of a `binary` column wraps.

* `formatDisplay_whole_iff`: a cell is whole where its text and a NUL fit;
* `text_fits_iff`: which texts fit, column type by column type;
* `printRow_whole_iff`: the rows whose cells are all whole.
-/

namespace Maxql

open Program Bytes

/-! ## Definitions -/

/-- The `display_width_*` functions, which return a `uint8_t`. -/
def displayWidth : ColumnType → (byteLen : Nat) → Nat
  | .int, _ => 11
  | .varchar, byteLen => if byteLen < 4 then 4 else byteLen
  | .char, byteLen => if byteLen < 4 then 4 else byteLen
  | .binary, byteLen => (byteLen * 2 + 2) % 256
  | .float, _ => 15

/-- `format_display` of `presentation_mapping`. -/
def formatDisplay (printFloat : FloatFormat) :
    ColumnType → DataValue → List UInt8 → Checked (List UInt8)
  | .int => Formatter.formatInt
  | .varchar => Formatter.formatString
  | .char => Formatter.formatString
  | .binary => Formatter.formatBinary
  | .float => Formatter.formatFloat printFloat

def Column.displayWidth (column : Column) : Nat :=
  Maxql.displayWidth column.resolvedType.columnType column.resolvedType.byteLen

/-- The first loop of `print_row`. -/
def printRowMaxBuf (columns : List Column) (queryColumnOrder : List Nat) : Checked Nat :=
  queryColumnOrder.foldlM (fun maxBuf colIdx => do
    let column ← readAt columns colIdx
    let w := column.displayWidth + 1
    return if w > maxBuf then w else maxBuf) 0

/-- The cells that `print_row` hands to the printer. -/
def printRow (unwritten : Unwritten) (printFloat : FloatFormat) (columns : List Column)
    (selectPlan : SelectExecPlan) (row : DataRow) : Checked (List (List UInt8)) := do
  let maxBuf ← printRowMaxBuf columns selectPlan.queryColumnOrder
  selectPlan.queryColumnOrder.mapM fun columnIndex => do
    let column ← readAt columns columnIndex
    let value ← readAt row columnIndex
    formatDisplay printFloat column.resolvedType.columnType value (unwritten maxBuf).toList

/-- The text of a value in a cell. -/
def displayText (printFloat : FloatFormat) : DataValue → Text
  | .null => []
  | .int n => Maxql.formatInt n.toInt
  | .string s => s.bytes
  | .binary b => text "0x" ++ b.bytes.flatMap hexText
  | .float bits => printFloat bits

/-- The cell is a C string that holds the whole text. -/
def WholeCell (printFloat : FloatFormat) (value : DataValue) (cell : List UInt8) : Prop :=
  ∃ rest, cell = displayText printFloat value ++ 0 :: rest

/-- Every cell is printed inside its array and holds the whole text of its value. -/
def PrintsWhole (unwritten : Unwritten) (printFloat : FloatFormat) (columns : List Column)
    (selectPlan : SelectExecPlan) (row : DataRow) : Prop :=
  ∃ cells, printRow unwritten printFloat columns selectPlan row = .ok cells ∧
    List.Forall₂ (fun columnIndex cell =>
      ∀ value ∈ row[columnIndex]?, WholeCell printFloat value cell)
      selectPlan.queryColumnOrder cells

/-- A `binary` column has at most 126 bytes, and a string from a `varchar` column is no longer
than the widest column of the list. -/
def CellFits (columns : List Column) (order : List Nat) (column : Column) (value : DataValue) :
    Prop :=
  match column.resolvedType.columnType, value with
  | .binary, _ => column.resolvedType.byteLen ≤ 126
  | .varchar, .string s =>
    ∃ j ∈ order, ∃ other ∈ columns[j]?, s.bytes.length ≤ other.displayWidth
  | _, _ => True

def CellsFit (columns : List Column) (order : List Nat) (row : DataRow) : Prop :=
  ∀ i ∈ order, ∀ column ∈ columns[i]?, ∀ value ∈ row[i]?, CellFits columns order column value

/-! ## One cell -/

theorem length_snprintf {buf buf' : List UInt8} {offset size n : Nat} {s : Text}
    (h : snprintf buf offset size s = .ok (buf', n)) : buf'.length = buf.length := by
  unfold snprintf at h
  split at h
  · cases h
    rfl
  · obtain ⟨out, hcopy, h⟩ := Checked.bind_eq_ok.1 h
    cases h
    unfold copySlots at hcopy
    split at hcopy
    · next hroom =>
      cases hcopy
      rw [List.drop_zero, List.take_length, List.length_append, List.length_append,
        List.length_take, List.length_drop]
      omega
    · cases hcopy

theorem length_formatBytes {bytes buf buf' : List UInt8} {offset : Nat}
    (h : Formatter.formatBytes bytes buf offset = .ok buf') : buf'.length = buf.length := by
  induction bytes generalizing buf offset with
  | nil =>
    cases h
    rfl
  | cons byte bytes ih =>
    rw [Formatter.formatBytes] at h
    split at h
    · cases h
    · obtain ⟨⟨out, n⟩, hprint, h⟩ := Checked.bind_eq_ok.1 h
      rw [ih h, length_snprintf hprint]

/-- A text that is printed in one piece. -/
theorem snprintf_once {buf cell : List UInt8} {s : Text}
    (h : (do let (buf, _) ← snprintf buf 0 buf.length s; return buf : Checked (List UInt8))
      = .ok cell) : cell.length = buf.length := by
  obtain ⟨⟨out, n⟩, hprint, h⟩ := Checked.bind_eq_ok.1 h
  cases h
  exact length_snprintf hprint

theorem length_formatDisplay {printFloat : FloatFormat} {columnType : ColumnType}
    {value : DataValue} {buf cell : List UInt8}
    (h : formatDisplay printFloat columnType value buf = .ok cell) : cell.length = buf.length := by
  cases columnType <;> cases value <;> first | exact snprintf_once h | cases h | skip
  case binary.binary b =>
    obtain ⟨⟨out, n⟩, hprint, h⟩ := Checked.bind_eq_ok.1 h
    rw [length_formatBytes h, length_snprintf hprint]

/-- A cell is whole where the text and its NUL fit into the array. -/
theorem formatDisplay_whole_iff {printFloat : FloatFormat} {rt : ResolvedType} {value : DataValue}
    (hvalue : value.type = rt.typeInfo.valueType) (buf : List UInt8) :
    (∃ cell, formatDisplay printFloat rt.columnType value buf = .ok cell ∧
      WholeCell printFloat value cell) ↔ (displayText printFloat value).length < buf.length := by
  constructor
  · rintro ⟨cell, hcell, rest, rfl⟩
    rw [← length_formatDisplay hcell, List.length_append, List.length_cons]
    omega
  · intro hroom
    obtain ⟨columnType, byteLen, name⟩ := rt
    have hone : ∀ s : Text, s.length < buf.length → ∃ cell,
        (do let (buf, _) ← snprintf buf 0 buf.length s; return buf : Checked (List UInt8))
          = .ok cell ∧ ∃ rest, cell = s ++ 0 :: rest :=
      fun s hs => ⟨_, by rw [snprintf_front hs]; rfl, _, rfl⟩
    cases columnType <;> cases value <;>
      first | exact ValueType.noConfusion hvalue | exact hone _ hroom | skip
    case binary.binary b =>
      have hmark : (text "0x").length = 2 := rfl
      have hlen : (displayText printFloat (.binary b)).length = 2 + 2 * b.bytes.length := by
        show (text "0x" ++ b.bytes.flatMap hexText).length = _
        rw [List.length_append, length_flatMap_hexText, hmark]
      rw [hlen] at hroom
      obtain ⟨rest, hrest⟩ := formatBytes_spec b.bytes (text "0x") (0 :: buf.drop 3)
        (by rw [List.length_cons, List.length_drop]; omega) rfl
      refine ⟨_, ?_, rest, (List.append_assoc _ _ _).symm⟩
      show (snprintf buf 0 buf.length (text "0x") >>= fun r =>
        Formatter.formatBytes b.bytes r.1 r.2) = _
      rw [snprintf_front (by omega)]
      exact hrest

/-! ## The widths -/

/-- The arrays are as long as the widest column asks for. -/
theorem printRowMaxBuf_spec {columns : List Column} {order : List Nat}
    (horder : ∀ i ∈ order, i < columns.length) :
    ∃ maxBuf, printRowMaxBuf columns order = .ok maxBuf ∧ ∀ n, n < maxBuf ↔
      ∃ i ∈ order, ∃ column ∈ columns[i]?, n ≤ column.displayWidth := by
  have hloop : ∀ start, ∃ maxBuf, order.foldlM (fun maxBuf colIdx => do
      let column ← readAt columns colIdx
      let w := column.displayWidth + 1
      return if w > maxBuf then w else maxBuf : Nat → Nat → Checked Nat) start = .ok maxBuf ∧
        ∀ n, n < maxBuf ↔ n < start ∨
          ∃ i ∈ order, ∃ column ∈ columns[i]?, n ≤ column.displayWidth := by
    induction order with
    | nil => exact fun start => ⟨start, rfl, fun n => by simp⟩
    | cons i order ih =>
      intro start
      obtain ⟨hi, horder⟩ := List.forall_mem_cons.1 horder
      have hcolumn : columns[i]? = some columns[i] := List.getElem?_eq_getElem hi
      obtain ⟨maxBuf, hrun, hmax⟩ := ih horder
        (if columns[i].displayWidth + 1 > start then columns[i].displayWidth + 1 else start)
      refine ⟨maxBuf, ?_, fun n => ?_⟩
      · rw [List.foldlM_cons, readAt_of_getElem? hcolumn]
        exact hrun
      · rw [hmax, List.exists_mem_cons_iff, hcolumn]
        simp only [Option.mem_some_iff, exists_eq_left']
        rw [← or_assoc]
        refine or_congr ?_ Iff.rfl
        split <;> omega
  obtain ⟨maxBuf, hrun, hmax⟩ := hloop 0
  refine ⟨maxBuf, hrun, fun n => ?_⟩
  rw [hmax, or_iff_right (Nat.not_lt_zero n)]

theorem displayWidth_lt {rt : ResolvedType} (hrt : rt.Sound) :
    displayWidth rt.columnType rt.byteLen < 256 := by
  have hle := hrt.byteLen_le
  unfold displayWidth
  split <;> first | omega | skip
  · split <;> omega
  · split <;> omega

/-- The width of a `binary` column is that of its text up to 126 bytes. -/
theorem displayWidth_binary {byteLen : Nat} (h : byteLen ≤ 126) :
    displayWidth .binary byteLen = 2 + 2 * byteLen := by
  show (byteLen * 2 + 2) % 256 = _
  omega

theorem le_displayWidth_string {n byteLen : Nat} (h : n ≤ byteLen) :
    n ≤ if byteLen < 4 then 4 else byteLen := by
  split <;> omega

/-! ## Decoded values -/

/-- The value is one that the column's type reads from some bytes. -/
def Decoded (rt : ResolvedType) (value : DataValue) : Prop :=
  ∃ bytes size, rt.typeInfo.deserialize bytes rt.byteLen = .ok (value, size)

theorem length_of_slice {bs out : List UInt8} {pos n : Nat} (h : slice bs pos n = .ok out) :
    out.length = n := by
  unfold slice at h
  split at h
  · cases h
    rw [List.length_take, List.length_drop]
    omega
  · cases h

/-- What decoded values are like: a `char` value is no longer than its column and a `binary`
value is as long as its column. -/
theorem Decoded.cases {rt : ResolvedType} {value : DataValue} (h : Decoded rt value) :
    match rt.columnType, value with
    | .int, .int _ => True
    | .varchar, .string _ => True
    | .char, .string s => s.bytes.length ≤ rt.byteLen
    | .binary, .binary b => b.bytes.length = rt.byteLen
    | .float, .float _ => True
    | _, _ => False := by
  obtain ⟨bytes, size, h⟩ := h
  obtain ⟨columnType, byteLen, name⟩ := rt
  cases columnType with
  | int =>
    obtain ⟨out, -, h⟩ := Checked.bind_eq_ok.1 h
    cases h
    trivial
  | varchar =>
    obtain ⟨len, -, h⟩ := Checked.bind_eq_ok.1 h
    obtain ⟨out, -, h⟩ := Checked.bind_eq_ok.1 h
    cases h
    trivial
  | char =>
    obtain ⟨out, hout, h⟩ := Checked.bind_eq_ok.1 h
    cases h
    have hlen : out.length = byteLen := length_of_slice hout
    have htrim := (trimSpaces_prefix_self out).length_le
    show (cstr ((trimSpaces out).take maxVarcharValueSize)).length ≤ byteLen
    have hcstr := length_cstr_le ((trimSpaces out).take maxVarcharValueSize)
    rw [List.length_take] at hcstr
    omega
  | binary =>
    obtain ⟨out, hout, h⟩ := Checked.bind_eq_ok.1 h
    obtain ⟨b, hb, h⟩ := Checked.bind_eq_ok.1 h
    cases h
    unfold BinaryValue.copy at hb
    split at hb
    · cases hb
      exact length_of_slice hout
    · cases hb
  | float =>
    obtain ⟨out, -, h⟩ := Checked.bind_eq_ok.1 h
    cases h
    trivial

theorem Decoded.type_eq {rt : ResolvedType} {value : DataValue} (h : Decoded rt value) :
    value.type = rt.typeInfo.valueType := by
  have hcases := h.cases
  obtain ⟨columnType, byteLen, name⟩ := rt
  cases columnType <;> cases value <;> first | rfl | exact hcases.elim

theorem deserializeRowData_decoded {columns : List Column} {buf : List UInt8} {row : DataRow}
    (h : deserializeRowData columns buf = .ok row) :
    List.Forall₂ (fun column value => Decoded column.resolvedType value) columns row := by
  induction columns generalizing buf row with
  | nil =>
    cases h
    exact .nil
  | cons column columns ih =>
    obtain ⟨⟨value, size⟩, hvalue, h⟩ := Checked.bind_eq_ok.1 h
    obtain ⟨values, hvalues, h⟩ := Checked.bind_eq_ok.1 h
    cases h
    exact .cons ⟨buf, size, hvalue⟩ (ih hvalues)

/-! ## The rows whose cells are whole -/

theorem text_fits_iff {printFloat : FloatFormat} (hfloats : PrintsFloats printFloat)
    {columns : List Column} (hcolumns : ∀ c ∈ columns, c.resolvedType.Sound) {order : List Nat}
    {maxBuf : Nat} (hmax : ∀ n, n < maxBuf ↔
      ∃ i ∈ order, ∃ column ∈ columns[i]?, n ≤ column.displayWidth)
    {i : Nat} (hi : i ∈ order) {column : Column} (hcolumn : columns[i]? = some column)
    {value : DataValue} (hvalue : Decoded column.resolvedType value) :
    (displayText printFloat value).length < maxBuf ↔ CellFits columns order column value := by
  have hown : ∀ n, n ≤ column.displayWidth → n < maxBuf :=
    fun n hn => (hmax n).2 ⟨i, hi, column, hcolumn, hn⟩
  have hcases := hvalue.cases
  cases htype : column.resolvedType.columnType <;> rw [htype] at hcases <;>
    cases value <;> dsimp only at hcases <;> try exact hcases.elim
  case int.int n =>
    have hlen := length_formatInt_lt n
    refine iff_of_true (hown _ ?_) (by unfold CellFits; rw [htype]; trivial)
    rw [Column.displayWidth, htype]
    exact Nat.le_of_lt_succ hlen
  case varchar.string s =>
    unfold CellFits
    rw [htype]
    exact hmax s.bytes.length
  case char.string s =>
    refine iff_of_true (hown _ ?_) (by unfold CellFits; rw [htype]; trivial)
    rw [Column.displayWidth, htype]
    exact le_displayWidth_string hcases
  case binary.binary b =>
    have hlen : (displayText printFloat (.binary b)).length = 2 + 2 * b.bytes.length := by
      show (text "0x" ++ b.bytes.flatMap hexText).length = _
      rw [List.length_append, length_flatMap_hexText]
      rfl
    unfold CellFits
    rw [htype, hlen, hcases]
    constructor
    · intro hlt
      obtain ⟨j, -, other, hother, hwidth⟩ := (hmax _).1 hlt
      have hlt := displayWidth_lt (hcolumns other (List.mem_of_getElem? hother))
      have hwidth : 2 + 2 * column.resolvedType.byteLen
          ≤ displayWidth other.resolvedType.columnType other.resolvedType.byteLen := hwidth
      omega
    · intro hle
      apply hown
      rw [Column.displayWidth, htype, displayWidth_binary hle]
  case float.float bits =>
    have hlen := hfloats.fits bits
    refine iff_of_true (hown _ ?_) (by unfold CellFits; rw [htype]; trivial)
    rw [Column.displayWidth, htype]
    show (printFloat bits).length ≤ 15
    omega

/-- The rows whose cells are all whole, among those that the columns decode. -/
theorem printRow_whole_iff (unwritten : Unwritten) {printFloat : FloatFormat}
    (hfloats : PrintsFloats printFloat) {columns : List Column}
    (hcolumns : ∀ c ∈ columns, ∃ typeName hasLen len,
      resolveType typeName hasLen len = .ok c.resolvedType)
    {selectPlan : SelectExecPlan}
    (horder : ∀ i ∈ selectPlan.queryColumnOrder, i < columns.length) {buf : List UInt8}
    {row : DataRow} (hrow : deserializeRowData columns buf = .ok row) :
    PrintsWhole unwritten printFloat columns selectPlan row ↔
      CellsFit columns selectPlan.queryColumnOrder row := by
  have hsound : ∀ c ∈ columns, c.resolvedType.Sound := by
    intro c hc
    obtain ⟨typeName, hasLen, len, hresolve⟩ := hcolumns c hc
    exact resolveType_sound hresolve
  have hdecoded := deserializeRowData_decoded hrow
  obtain ⟨maxBuf, hrun, hmax⟩ := printRowMaxBuf_spec horder
  have hprint : ∀ cells, printRow unwritten printFloat columns selectPlan row = .ok cells ↔
      selectPlan.queryColumnOrder.mapM (fun columnIndex => do
        let column ← readAt columns columnIndex
        let value ← readAt row columnIndex
        formatDisplay printFloat column.resolvedType.columnType value (unwritten maxBuf).toList :
          Nat → Checked (List UInt8)) = .ok cells := by
    intro cells
    rw [printRow, hrun]
    exact Iff.rfl
  unfold PrintsWhole CellsFit
  simp only [hprint]
  rw [exists_mapM_iff]
  refine forall₂_congr fun i hi => ?_
  have hlt := horder i hi
  have hrowlt : i < row.length := by
    rw [← hdecoded.length_eq]
    exact hlt
  have hcolumn : columns[i]? = some columns[i] := List.getElem?_eq_getElem hlt
  have hvalue : row[i]? = some row[i] := List.getElem?_eq_getElem hrowlt
  have hcell : Decoded columns[i].resolvedType row[i] := hdecoded.get hlt hrowlt
  have hbuf : (unwritten maxBuf).toList.length = maxBuf := Vector.length_toList
  rw [readAt_of_getElem? hcolumn, readAt_of_getElem? hvalue, hcolumn, hvalue]
  simp only [Checked.ok_bind, Option.mem_some_iff, forall_eq']
  rw [formatDisplay_whole_iff hcell.type_eq, hbuf,
    text_fits_iff hfloats hsound hmax hi hcolumn hcell]

/-- In a row that the engine has stored no string is longer than its column. -/
theorem cellsFit_of_typed {columns : List Column} {order : List Nat} {row : DataRow}
    (horder : ∀ i ∈ order, i < columns.length) (hrow : RowTyped columns row) :
    CellsFit columns order row ↔ ∀ i ∈ order, ∀ column ∈ columns[i]?,
      column.resolvedType.columnType = .binary → column.resolvedType.byteLen ≤ 126 := by
  refine forall₂_congr fun i hi => forall₂_congr fun column hcolumn => ?_
  have hlt := horder i hi
  have hrowlt : i < row.length := by
    rw [← hrow.length_eq]
    exact hlt
  have hvalue : row[i]? = some row[i] := List.getElem?_eq_getElem hrowlt
  obtain rfl : columns[i] = column := by
    rw [List.getElem?_eq_getElem hlt] at hcolumn
    exact Option.some.inj hcolumn
  have hvalid := resolvedTypeValidate_eq_ok.1 (hrow.get hlt hrowlt)
  rw [hvalue]
  simp only [Option.mem_some_iff, forall_eq', List.get_eq_getElem] at hvalid ⊢
  unfold CellFits
  cases htype : columns[i].resolvedType.columnType <;> rw [htype] at hvalid
  case binary => exact ⟨fun h _ => h, fun h => h rfl⟩
  case varchar =>
    cases hstring : row[i] <;> rw [hstring] at hvalid <;> try exact hvalid.elim
    refine iff_of_true ⟨i, hi, _, hcolumn, ?_⟩ fun h => (by cases h)
    rw [Column.displayWidth, htype]
    exact le_displayWidth_string hvalid
  all_goals exact iff_of_true trivial fun h => (by cases h)

def shownColumns : List Column :=
  [⟨text "a", ⟨.float, 4, text "float"⟩, false, .null⟩,
    ⟨text "b", ⟨.binary, 3, text "binary(3)"⟩, false, .null⟩]

def showAll : SelectExecPlan := { queryColumnOrder := [1, 0], filter := [], ignoreIndex := false }

theorem printRow_whole_iff_shownColumns :
    PrintsWhole (fun size => Vector.replicate size 0) halfFormat shownColumns showAll
        [.float 0x3fc00000, .binary ⟨[1, 2, 3], by decide⟩] ↔
      CellsFit shownColumns showAll.queryColumnOrder
        [.float 0x3fc00000, .binary ⟨[1, 2, 3], by decide⟩] := by
  refine printRow_whole_iff _ halfFormat_printsFloats ?_ (by decide)
    (show deserializeRowData shownColumns [0, 0, 192, 63, 1, 2, 3] = _ by decide)
  intro c hc
  simp only [shownColumns, List.mem_cons, List.not_mem_nil, or_false] at hc
  obtain rfl | rfl := hc
  · exact ⟨text "float", false, 0, by decide⟩
  · exact ⟨text "binary", true, 3, by decide⟩

def wideColumns : List Column := [⟨text "b", ⟨.binary, 127, text "binary(127)"⟩, false, .null⟩]

def wideRow : DataRow := [.binary (BinaryValue.pad ⟨[], Nat.zero_le _⟩ 127)]

def showFirst : SelectExecPlan := { queryColumnOrder := [0], filter := [], ignoreIndex := false }

/-- The width of a column of 127 bytes is 0, so that `0x` ends behind the array. -/
theorem printRow_overrunsCell :
    (∀ c ∈ wideColumns, ∃ typeName hasLen len,
      resolveType typeName hasLen len = .ok c.resolvedType) ∧
    deserializeRowData wideColumns (List.replicate 127 0) = .ok wideRow ∧
    ¬PrintsWhole (fun size => Vector.replicate size 0) halfFormat wideColumns showFirst
      wideRow := by
  refine ⟨?_, by decide +kernel, ?_⟩
  · intro c hc
    rw [List.mem_singleton.1 hc]
    exact ⟨text "binary", true, 127, by decide⟩
  · rintro ⟨cells, hcells, -⟩
    have hfault : printRow (fun size => Vector.replicate size 0) halfFormat wideColumns showFirst
        wideRow = .error .badLength := by decide +kernel
    rw [hfault] at hcells
    cases hcells

end Maxql
