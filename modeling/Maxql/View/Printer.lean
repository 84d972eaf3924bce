import Maxql.Engine.Show
import Maxql.Lib.Bounds
import Maxql.Lib.Justify

/-!
# Tables on the terminal

`src/view/printer.c` with `utf8_strlen` of `src/core/utf8.c`.  A printer gets
its rows one by one.  The one that streams prints them at once, in columns whose
widths it is told; the other one keeps them and makes its columns as wide as
their contents.  What is printed is the state of the programs.  There are three
groups.

* The functions, in the order of the file.
* What they print.  `tableText` is the text of a table, and
  `TablePrinter.shownColumns` are the columns in which a printer shows it.
* The array of a separator.  `printTable_prints_iff` is the result: a printer prints
  the text of its table, unless a separator leaves its array.
-/

namespace Maxql.View

open Program Bytes Justify

/-! ## The functions -/

/-- A program that prints. -/
abbrev Print (α : Type) := Prog Text α

/-- `printf` of a string. -/
def puts (s : Text) : Print Unit := modify (· ++ s)

/-- `(*s & 0xC0) != 0x80` -/
def startsChar (c : UInt8) : Bool := c &&& 0xC0 != 0x80

/-- `utf8_strlen`, which counts in a `uint16_t`. -/
def utf8Strlen (s : Text) : Nat :=
  s.foldl (fun count c => if startsChar c then (count + 1) % 65536 else count) 0

/-- A name, a width and an alignment, which the block of a printer holds in three arrays. -/
structure PrinterColumn where
  name : Text
  width : Nat
  rightAlign : Bool
  deriving DecidableEq, Repr

/-- The functions `add_row` and `finish` of a printer. -/
inductive PrinterKind where
  | stream
  | buffered
  deriving DecidableEq, Repr

structure TablePrinter where
  columns : List PrinterColumn
  headerPrinted : Bool
  rowCount : Nat
  rows : List (List Text)
  kind : PrinterKind

def space : UInt8 := 32

def dash : UInt8 := 45

/-- `%*s`, and `%-*s` where the text stands on the left. -/
def padField (right : Bool) (width : Nat) (s : Text) : Text :=
  if right then List.replicate (width - s.length) space ++ s
  else s ++ List.replicate (width - s.length) space

/-- `buf` in one round of `print_separator`. -/
def separatorBuf (unwritten : Unwritten) (width : Nat) : Checked Text := do
  let buf ← copySlots (unwritten 300).toList 0 (List.replicate (width + 2) dash) 0 (width + 2)
  let buf ← writeAt buf (width + 2) 0
  printString buf

def printSeparator (unwritten : Unwritten) : List PrinterColumn → Print Unit
  | [] => puts (text "+\n")
  | column :: columns => do
    let buf ← separatorBuf unwritten column.width
    puts (text "+" ++ buf)
    printSeparator unwritten columns

def printHeader : List PrinterColumn → Print Unit
  | [] => puts (text "|\n")
  | column :: columns => do
    puts (text "| " ++ (padField false column.width column.name ++ text " "))
    printHeader columns

def printCell (column : PrinterColumn) (string : Text) : Print Unit :=
  let padding := string.length - utf8Strlen string
  puts (text "| " ++ (padField column.rightAlign (column.width + padding) string ++ text " "))

def printRow : List PrinterColumn → (cells : List Text) → Print Unit
  | [], _ => puts (text "|\n")
  | _ :: _, [] => throw .outOfBounds
  | column :: columns, cell :: cells => do
    printCell column cell
    printRow columns cells

def printEmptyResult : Print Unit := puts (text "(empty result)\n")

def printRowCount (p : TablePrinter) : Print Unit :=
  puts (text "Rows: " ++ (Decimal.print p.rowCount ++ text "\n"))

/-- The lines above the rows. -/
def printHead (unwritten : Unwritten) (columns : List PrinterColumn) : Print Unit := do
  printSeparator unwritten columns
  printHeader columns
  printSeparator unwritten columns

def addRowStream (unwritten : Unwritten) (p : TablePrinter) (cells : List Text) :
    Print TablePrinter := do
  if !p.headerPrinted then printHead unwritten p.columns
  printRow p.columns cells
  return { p with headerPrinted := true, rowCount := p.rowCount + 1 }

def finishStream (unwritten : Unwritten) (p : TablePrinter) : Print Unit :=
  if p.headerPrinted then do
    printSeparator unwritten p.columns
    printRowCount p
  else printEmptyResult

/-- The width becomes `n` where it is less. -/
def PrinterColumn.widen (column : PrinterColumn) (n : Nat) : PrinterColumn :=
  if n > column.width then { column with width := n } else column

/-- The loop of `add_row_buffered`. -/
def widenColumns : List PrinterColumn → (cells : List Text) → Checked (List PrinterColumn)
  | [], _ => .ok []
  | _ :: _, [] => .error .outOfBounds
  | column :: columns, cell :: cells => do
    let columns ← widenColumns columns cells
    return column.widen (utf8Strlen cell) :: columns

def addRowBuffered (p : TablePrinter) (cells : List Text) : Print TablePrinter := do
  let columns ← widenColumns p.columns cells
  return { p with
    columns, rows := p.rows ++ [cells.take p.columns.length], rowCount := p.rowCount + 1 }

def finishBuffered (unwritten : Unwritten) (p : TablePrinter) : Print Unit :=
  if p.rows.length ≠ 0 then do
    printHead unwritten p.columns
    p.rows.forM (printRow p.columns)
    printSeparator unwritten p.columns
    printRowCount p
  else printEmptyResult

def printerStream (columns : List PrinterColumn) : TablePrinter where
  columns := columns.map fun column =>
    if column.name.length > column.width then { column with width := column.name.length % 65536 }
    else column
  headerPrinted := false
  rowCount := 0
  rows := []
  kind := .stream

/-- `printer_buffered` on the names and the alignments of the columns. -/
def printerBuffered (columns : List (Text × Bool)) : TablePrinter where
  columns := columns.map fun column => ⟨column.1, column.1.length % 65536, column.2⟩
  headerPrinted := false
  rowCount := 0
  rows := []
  kind := .buffered

def TablePrinter.addRow (unwritten : Unwritten) (p : TablePrinter) (cells : List Text) :
    Print TablePrinter :=
  match p.kind with
  | .stream => addRowStream unwritten p cells
  | .buffered => addRowBuffered p cells

def TablePrinter.finish (unwritten : Unwritten) (p : TablePrinter) : Print Unit :=
  match p.kind with
  | .stream => finishStream unwritten p
  | .buffered => finishBuffered unwritten p

/-- What the executors do with a printer. -/
def printTable (unwritten : Unwritten) (p : TablePrinter) (rows : List (List Text)) :
    Print Unit := do
  let p ← rows.foldlM (TablePrinter.addRow unwritten) p
  p.finish unwritten

/-! ## What they print -/

def separatorText (column : PrinterColumn) : Text :=
  text "+" ++ List.replicate (column.width + 2) dash

def headerText (column : PrinterColumn) : Text :=
  text "| " ++ (padField false column.width column.name ++ text " ")

def cellText (column : PrinterColumn) (cell : Text) : Text :=
  text "| " ++ (justify startsChar space column.rightAlign column.width cell ++ text " ")

def separatorLine (columns : List PrinterColumn) : Text := columns.flatMap separatorText ++ text "+"

def headerLine (columns : List PrinterColumn) : Text := columns.flatMap headerText ++ text "|"

def rowLine (columns : List PrinterColumn) (cells : List Text) : Text :=
  (List.zipWith cellText columns cells).flatten ++ text "|"

def tableLines (columns : List PrinterColumn) (rows : List (List Text)) : List Text :=
  separatorLine columns :: headerLine columns :: separatorLine columns ::
    (rows.map (rowLine columns) ++ [separatorLine columns])

def line (s : Text) : Text := s ++ text "\n"

def countText (count : Nat) : Text := text "Rows: " ++ (Decimal.print count ++ text "\n")

/-- The text of a table. -/
def tableText (columns : List PrinterColumn) (rows : List (List Text)) : Text :=
  if rows = [] then text "(empty result)\n"
  else (tableLines columns rows).flatMap line ++ countText rows.length

/-- The columns with the widths that a row asks for. -/
def fitColumns (columns : List PrinterColumn) (cells : List Text) : List PrinterColumn :=
  List.zipWith (fun column cell => column.widen (display startsChar cell)) columns cells

/-- The columns with the widths that all rows ask for. -/
def fittedColumns (columns : List PrinterColumn) (rows : List (List Text)) :
    List PrinterColumn :=
  rows.foldl fitColumns columns

/-- The columns that a printer shows the rows in. -/
def TablePrinter.shownColumns (p : TablePrinter) (rows : List (List Text)) :
    List PrinterColumn :=
  match p.kind with
  | .stream => p.columns
  | .buffered => fittedColumns p.columns rows

/-- A row with a cell for each column.  Its characters can be counted in 16 bits. -/
structure RowOf (columns : List PrinterColumn) (cells : List Text) : Prop where
  length_eq : cells.length = columns.length
  short : ∀ cell ∈ cells, cell.length < 65536

theorem foldl_utf8Strlen (s : Text) (k : Nat) :
    s.foldl (fun count c => if startsChar c then (count + 1) % 65536 else count) (k % 65536)
      = (k + display startsChar s) % 65536 := by
  induction s generalizing k with
  | nil => rfl
  | cons c s ih =>
    rw [List.foldl_cons, display, List.countP_cons, ← display]
    by_cases hc : startsChar c = true
    · rw [if_pos hc, if_pos hc, Nat.mod_add_mod, ih (k + 1), Nat.add_assoc, Nat.add_comm 1]
    · rw [if_neg hc, if_neg hc, ih k, Nat.add_zero]

theorem utf8Strlen_eq {s : Text} (h : s.length < 65536) :
    utf8Strlen s = display startsChar s := by
  have hle : display startsChar s ≤ s.length := display_le_length s
  have hfold := foldl_utf8Strlen s 0
  rw [Nat.zero_add, Nat.mod_eq_of_lt (show display startsChar s < 65536 by omega)] at hfold
  exact hfold

/-- The padding of a cell leaves its characters out of account. -/
theorem padField_eq_justify (right : Bool) (width : Nat) (s : Text) :
    padField right (width + (s.length - display startsChar s)) s
      = justify startsChar space right width s := by
  have hle : display startsChar s ≤ s.length := display_le_length s
  have hfill : width + (s.length - display startsChar s) - s.length
      = width - display startsChar s := by omega
  rw [padField, hfill, justify]

theorem separatorBuf_eq (unwritten : Unwritten) {width : Nat} (h : width < 298) :
    separatorBuf unwritten width = .ok (List.replicate (width + 2) dash) := by
  have hlen : (unwritten 300).toList.length = 300 := Vector.length_toList
  have hdash : (0 : UInt8) ∉ List.replicate (width + 2) dash := fun hmem =>
    absurd (List.eq_of_mem_replicate hmem) (by decide)
  obtain ⟨b, post, hdrop⟩ : ∃ b post, (unwritten 300).toList.drop (width + 2) = b :: post :=
    List.exists_cons_of_length_pos (by rw [List.length_drop]; omega)
  have hcopy := copySlots_front (s := 0) (Nat.le_of_eq (show 0 + (width + 2)
    = (List.replicate (width + 2) dash).length by rw [List.length_replicate, Nat.zero_add]))
    (show width + 2 ≤ (unwritten 300).toList.length by omega)
  rw [List.drop_zero, List.take_of_length_le (Nat.le_of_eq List.length_replicate), hdrop] at hcopy
  have hwrite := writeAt_append_cons (List.replicate (width + 2) dash) post b 0
  rw [List.length_replicate] at hwrite
  rw [separatorBuf, hcopy, Checked.ok_bind, hwrite, Checked.ok_bind]
  exact printString_eq_ok.2 ⟨hdash, post, rfl⟩

theorem separatorBuf_overruns (unwritten : Unwritten) {width : Nat} (h : 298 ≤ width) :
    separatorBuf unwritten width = .error .outOfBounds := by
  have hlen : (unwritten 300).toList.length = 300 := Vector.length_toList
  unfold separatorBuf copySlots
  split
  · next hroom =>
    have hwidth : width = 298 := by omega
    subst hwidth
    rw [Checked.ok_bind, writeAt, if_neg]
    · rfl
    · rw [List.length_append, List.length_append, List.length_take, List.length_drop, hlen,
        List.length_take, List.drop_zero, List.length_replicate]
      omega
  · rfl

section Printing

variable {unwritten : Unwritten} {columns : List PrinterColumn}

theorem runs_puts (s out : Text) : Runs (puts s) out () (out ++ s) := Runs.modify _ _

theorem runs_printSeparator (h : ∀ column ∈ columns, column.width < 298) (out : Text) :
    Runs (printSeparator unwritten columns) out () (out ++ line (separatorLine columns)) := by
  induction columns generalizing out with
  | nil => exact runs_puts _ _
  | cons column columns ih =>
    obtain ⟨hfirst, hrest⟩ := List.forall_mem_cons.1 h
    have hrun := ih hrest (out ++ separatorText column)
    have htext : out ++ line (separatorLine (column :: columns))
        = out ++ separatorText column ++ line (separatorLine columns) := by
      simp only [separatorLine, line, List.flatMap_cons, List.append_assoc]
    rw [htext]
    exact Runs.bind (Runs.lift (separatorBuf_eq unwritten hfirst) out)
      (Runs.bind (runs_puts _ _) hrun)

theorem runs_printHeader (out : Text) :
    Runs (printHeader columns) out () (out ++ line (headerLine columns)) := by
  induction columns generalizing out with
  | nil => exact runs_puts _ _
  | cons column columns ih =>
    have htext : out ++ line (headerLine (column :: columns))
        = out ++ headerText column ++ line (headerLine columns) := by
      simp only [headerLine, line, List.flatMap_cons, List.append_assoc]
    rw [htext]
    exact Runs.bind (runs_puts _ _) (ih _)

theorem runs_printRow {cells : List Text} (h : RowOf columns cells) (out : Text) :
    Runs (printRow columns cells) out () (out ++ line (rowLine columns cells)) := by
  obtain ⟨hlen, hshort⟩ := h
  induction columns generalizing cells out with
  | nil =>
    obtain rfl := List.eq_nil_of_length_eq_zero hlen
    exact runs_puts _ _
  | cons column columns ih =>
    obtain ⟨cell, cells, rfl⟩ := List.exists_cons_of_length_eq_add_one hlen
    obtain ⟨hcell, hcells⟩ := List.forall_mem_cons.1 hshort
    have hcount := utf8Strlen_eq hcell
    have htext : out ++ line (rowLine (column :: columns) (cell :: cells))
        = out ++ cellText column cell ++ line (rowLine columns cells) := by
      simp only [rowLine, line, List.zipWith_cons_cons, List.flatten_cons, List.append_assoc]
    have hfirst : Runs (printCell column cell) out () (out ++ cellText column cell) := by
      rw [printCell, hcount, padField_eq_justify]
      exact runs_puts _ _
    rw [htext]
    exact Runs.bind hfirst (ih _ (Nat.succ.inj hlen) hcells)

/-- The text above the rows. -/
def headText (columns : List PrinterColumn) : Text :=
  line (separatorLine columns) ++ (line (headerLine columns) ++ line (separatorLine columns))

theorem runs_printHead (h : ∀ column ∈ columns, column.width < 298) (out : Text) :
    Runs (printHead unwritten columns) out () (out ++ headText columns) := by
  rw [headText, ← List.append_assoc, ← List.append_assoc]
  exact Runs.bind (runs_printSeparator h _)
    (Runs.bind (runs_printHeader _) (runs_printSeparator h _))

theorem runs_printRows {rows : List (List Text)} (h : ∀ cells ∈ rows, RowOf columns cells)
    (out : Text) :
    Runs (rows.forM (printRow columns)) out ()
      (out ++ (rows.map (rowLine columns)).flatMap line) := by
  induction rows generalizing out with
  | nil =>
    rw [List.map_nil, List.flatMap_nil, List.append_nil]
    exact Runs.pure _ _
  | cons cells rows ih =>
    obtain ⟨hfirst, hrest⟩ := List.forall_mem_cons.1 h
    rw [List.map_cons, List.flatMap_cons, ← List.append_assoc]
    exact Runs.bind (runs_printRow hfirst out) (ih hrest _)

/-- The text of a table with rows, in the order in which it is printed. -/
theorem tableText_eq {rows : List (List Text)} (h : rows ≠ []) :
    tableText columns rows = headText columns ++ ((rows.map (rowLine columns)).flatMap line ++
      (line (separatorLine columns) ++ countText rows.length)) := by
  rw [tableText, if_neg h, tableLines, headText]
  simp only [List.flatMap_cons, List.flatMap_append, List.flatMap_nil, List.append_nil,
    List.append_assoc]

/-! ### The printer that streams -/

theorem addRow_stream {p : TablePrinter} (h : p.kind = .stream) (cells : List Text) :
    p.addRow unwritten cells = addRowStream unwritten p cells := by
  rw [TablePrinter.addRow, h]

theorem finish_stream {p : TablePrinter} (h : p.kind = .stream) :
    p.finish unwritten = finishStream unwritten p := by
  rw [TablePrinter.finish, h]

/-- The first row comes behind the header. -/
theorem runs_addRowStream_first {p : TablePrinter} (hnot : p.headerPrinted = false)
    {cells : List Text} (hcells : RowOf p.columns cells)
    (hwidths : ∀ column ∈ p.columns, column.width < 298) (out : Text) :
    Runs (addRowStream unwritten p cells) out
      { p with headerPrinted := true, rowCount := p.rowCount + 1 }
      (out ++ headText p.columns ++ line (rowLine p.columns cells)) := by
  rw [addRowStream, hnot]
  exact Runs.bind (runs_printHead hwidths out)
    (Runs.bind (runs_printRow hcells _) (Runs.pure _ _))

theorem runs_addRowStream_next {p : TablePrinter} (hprinted : p.headerPrinted = true)
    {cells : List Text} (hcells : RowOf p.columns cells) (out : Text) :
    Runs (addRowStream unwritten p cells) out
      { p with headerPrinted := true, rowCount := p.rowCount + 1 }
      (out ++ line (rowLine p.columns cells)) := by
  rw [addRowStream, hprinted]
  exact Runs.bind (runs_printRow hcells out) (Runs.pure _ _)

theorem runs_finish_stream {p : TablePrinter} (hkind : p.kind = .stream)
    (hprinted : p.headerPrinted = true) (hwidths : ∀ column ∈ p.columns, column.width < 298)
    (out : Text) : Runs (p.finish unwritten) out ()
      (out ++ line (separatorLine p.columns) ++ countText p.rowCount) := by
  rw [finish_stream hkind, finishStream, hprinted]
  exact Runs.bind (runs_printSeparator hwidths out) (runs_puts _ _)

/-- The rows behind the first one. -/
theorem runs_addRows_stream {p : TablePrinter} {rows : List (List Text)}
    (hkind : p.kind = .stream) (hprinted : p.headerPrinted = true)
    (hrows : ∀ cells ∈ rows, RowOf p.columns cells) (out : Text) :
    Runs (rows.foldlM (TablePrinter.addRow unwritten) p) out
      { p with headerPrinted := true, rowCount := p.rowCount + rows.length }
      (out ++ (rows.map (rowLine p.columns)).flatMap line) := by
  induction rows generalizing p out with
  | nil =>
    obtain ⟨columns, printed, count, rows, kind⟩ := p
    obtain rfl : printed = true := hprinted
    rw [List.map_nil, List.flatMap_nil, List.append_nil]
    exact Runs.pure _ _
  | cons cells rows ih =>
    obtain ⟨hfirst, hrest⟩ := List.forall_mem_cons.1 hrows
    have hadd := @runs_addRowStream_next unwritten _ hprinted _ hfirst out
    rw [← addRow_stream hkind] at hadd
    rw [List.map_cons, List.flatMap_cons, ← List.append_assoc, List.length_cons,
      Nat.add_comm rows.length, ← Nat.add_assoc]
    exact Runs.bind hadd
      (@ih { p with headerPrinted := true, rowCount := p.rowCount + 1 } hkind rfl hrest _)

theorem runs_printTable_stream {p : TablePrinter} {rows : List (List Text)}
    (hkind : p.kind = .stream) (hnot : p.headerPrinted = false) (hcount : p.rowCount = 0)
    (hrows : ∀ cells ∈ rows, RowOf p.columns cells)
    (hwidths : rows ≠ [] → ∀ column ∈ p.columns, column.width < 298) (out : Text) :
    Runs (printTable unwritten p rows) out () (out ++ tableText p.columns rows) := by
  cases rows with
  | nil =>
    refine Runs.bind (Runs.pure p out) ?_
    rw [finish_stream hkind, finishStream, hnot]
    exact runs_puts _ _
  | cons cells rows =>
    have hwidths := hwidths (List.cons_ne_nil _ _)
    obtain ⟨hfirst, hrest⟩ := List.forall_mem_cons.1 hrows
    have hadd := @runs_addRowStream_first unwritten _ hnot _ hfirst hwidths out
    rw [← addRow_stream hkind] at hadd
    have hrun := @runs_addRows_stream unwritten
      { p with headerPrinted := true, rowCount := p.rowCount + 1 } rows hkind rfl hrest
    have htotal : p.rowCount + 1 + rows.length = (cells :: rows).length := by
      rw [hcount, List.length_cons, Nat.zero_add, Nat.add_comm]
    have htext : out ++ tableText p.columns (cells :: rows)
        = out ++ headText p.columns ++ line (rowLine p.columns cells) ++
            (rows.map (rowLine p.columns)).flatMap line ++ line (separatorLine p.columns) ++
          countText (p.rowCount + 1 + rows.length) := by
      rw [tableText_eq (List.cons_ne_nil _ _), List.map_cons, List.flatMap_cons, htotal]
      simp only [List.append_assoc]
    rw [htext, printTable, List.foldlM_cons, bind_assoc]
    exact Runs.bind hadd (Runs.bind (hrun _) (runs_finish_stream
      (p := { p with headerPrinted := true, rowCount := p.rowCount + 1 + rows.length })
      hkind rfl hwidths _))

/-! ### The printer that keeps its rows -/

theorem addRow_buffered {p : TablePrinter} (h : p.kind = .buffered) (cells : List Text) :
    p.addRow unwritten cells = addRowBuffered p cells := by
  rw [TablePrinter.addRow, h]

theorem finish_buffered {p : TablePrinter} (h : p.kind = .buffered) :
    p.finish unwritten = finishBuffered unwritten p := by
  rw [TablePrinter.finish, h]

theorem RowOf.of_length_eq {columns' : List PrinterColumn} {cells : List Text}
    (h : RowOf columns cells) (hlen : columns'.length = columns.length) : RowOf columns' cells :=
  ⟨h.length_eq.trans hlen.symm, h.short⟩

theorem RowOf.length_fitColumns {cells : List Text} (h : RowOf columns cells) :
    (fitColumns columns cells).length = columns.length := by
  rw [fitColumns, List.length_zipWith, h.length_eq, Nat.min_self]

theorem RowOf.widenColumns_eq {cells : List Text} (h : RowOf columns cells) :
    widenColumns columns cells = .ok (fitColumns columns cells) := by
  obtain ⟨hlen, hshort⟩ := h
  induction columns generalizing cells with
  | nil =>
    obtain rfl := List.eq_nil_of_length_eq_zero hlen
    rfl
  | cons column columns ih =>
    obtain ⟨cell, cells, rfl⟩ := List.exists_cons_of_length_eq_add_one hlen
    obtain ⟨hcell, hcells⟩ := List.forall_mem_cons.1 hshort
    rw [widenColumns, ih (Nat.succ.inj hlen) hcells, utf8Strlen_eq hcell]
    rfl

theorem length_fittedColumns {rows : List (List Text)} (h : ∀ cells ∈ rows, RowOf columns cells) :
    (fittedColumns columns rows).length = columns.length := by
  induction rows generalizing columns with
  | nil => rfl
  | cons cells rows ih =>
    obtain ⟨hfirst, hrest⟩ := List.forall_mem_cons.1 h
    have hlen := hfirst.length_fitColumns
    have hfit := ih fun cells' hcells => (hrest cells' hcells).of_length_eq hlen
    exact hfit.trans hlen

theorem runs_addRows_buffered {p : TablePrinter} {rows : List (List Text)}
    (hkind : p.kind = .buffered) (hrows : ∀ cells ∈ rows, RowOf p.columns cells) (out : Text) :
    Runs (rows.foldlM (TablePrinter.addRow unwritten) p) out
      { p with
        columns := fittedColumns p.columns rows, rows := p.rows ++ rows,
        rowCount := p.rowCount + rows.length } out := by
  induction rows generalizing p with
  | nil =>
    rw [List.append_nil]
    exact Runs.pure _ _
  | cons cells rows ih =>
    obtain ⟨hfirst, hrest⟩ := List.forall_mem_cons.1 hrows
    have hlen := hfirst.length_fitColumns
    have hadd : Runs (p.addRow unwritten cells) out
        { p with
          columns := fitColumns p.columns cells, rows := p.rows ++ [cells],
          rowCount := p.rowCount + 1 } out := by
      rw [addRow_buffered hkind, addRowBuffered, List.take_of_length_le (Nat.le_of_eq hfirst.length_eq)]
      exact Runs.bind (Runs.lift hfirst.widenColumns_eq out) (Runs.pure _ _)
    have hrun := @ih { p with
        columns := fitColumns p.columns cells, rows := p.rows ++ [cells],
        rowCount := p.rowCount + 1 } hkind fun cells' hcells =>
      (hrest cells' hcells).of_length_eq hlen
    have hcount : p.rowCount + 1 + rows.length = p.rowCount + (cells :: rows).length := by
      rw [List.length_cons, Nat.add_assoc, Nat.add_comm 1]
    rw [List.append_assoc, hcount] at hrun
    exact Runs.bind hadd hrun

theorem runs_finish_buffered {p : TablePrinter} (hkind : p.kind = .buffered)
    (hrows : ∀ cells ∈ p.rows, RowOf p.columns cells) (hcount : p.rowCount = p.rows.length)
    (hwidths : p.rows ≠ [] → ∀ column ∈ p.columns, column.width < 298) (out : Text) :
    Runs (p.finish unwritten) out () (out ++ tableText p.columns p.rows) := by
  rw [finish_buffered hkind, finishBuffered]
  by_cases hempty : p.rows = []
  · rw [hempty, if_neg (by simp)]
    exact runs_puts _ _
  · have hwidths := hwidths hempty
    rw [if_pos (mt List.eq_nil_of_length_eq_zero hempty), tableText_eq hempty, ← hcount,
      ← List.append_assoc, ← List.append_assoc, ← List.append_assoc]
    exact Runs.bind (runs_printHead hwidths out) (Runs.bind (runs_printRows hrows _)
      (Runs.bind (runs_printSeparator hwidths _) (runs_puts _ _)))

theorem runs_printTable_buffered {p : TablePrinter} {rows : List (List Text)}
    (hkind : p.kind = .buffered) (hempty : p.rows = []) (hcount : p.rowCount = 0)
    (hrows : ∀ cells ∈ rows, RowOf p.columns cells)
    (hwidths : rows ≠ [] → ∀ column ∈ fittedColumns p.columns rows, column.width < 298)
    (out : Text) :
    Runs (printTable unwritten p rows) out ()
      (out ++ tableText (fittedColumns p.columns rows) rows) := by
  have hadd := @runs_addRows_buffered unwritten _ _ hkind hrows out
  rw [hempty, List.nil_append, hcount, Nat.zero_add] at hadd
  have hlen := length_fittedColumns hrows
  exact Runs.bind hadd (runs_finish_buffered
    (p := { p with
      columns := fittedColumns p.columns rows, rows := rows, rowCount := rows.length }) hkind
    (fun cells hcells => (hrows cells hcells).of_length_eq hlen) rfl hwidths out)

end Printing

/-! ## The array of a separator -/

section Overrun

variable {unwritten : Unwritten} {p : TablePrinter} {rows : List (List Text)}

theorem overruns_printSeparator {columns : List PrinterColumn}
    (h : ∃ column ∈ columns, 298 ≤ column.width) (out : Text) :
    Overruns (printSeparator unwritten columns) out := by
  induction columns generalizing out with
  | nil =>
    obtain ⟨column, hmem, -⟩ := h
    cases hmem
  | cons column columns ih =>
    by_cases hfirst : column.width < 298
    · have hrest : ∃ column ∈ columns, 298 ≤ column.width := by
        obtain ⟨wide, hmem, hwide⟩ := h
        rcases List.mem_cons.1 hmem with rfl | hmem
        · omega
        · exact ⟨wide, hmem, hwide⟩
      exact (Runs.lift (separatorBuf_eq unwritten hfirst) out).overruns_bind
        ((runs_puts _ out).overruns_bind (ih hrest _))
    · exact (Overruns.lift (separatorBuf_overruns unwritten (Nat.le_of_not_lt hfirst)) out).bind

theorem overruns_printHead {columns : List PrinterColumn}
    (h : ∃ column ∈ columns, 298 ≤ column.width) (out : Text) :
    Overruns (printHead unwritten columns) out := (overruns_printSeparator h out).bind

theorem overruns_printTable_stream (hkind : p.kind = .stream) (hnot : p.headerPrinted = false)
    (hsome : rows ≠ []) (hwide : ∃ column ∈ p.columns, 298 ≤ column.width) (out : Text) :
    Overruns (printTable unwritten p rows) out := by
  obtain ⟨cells, rows, rfl⟩ := List.exists_cons_of_ne_nil hsome
  have hadd : Overruns (p.addRow unwritten cells) out := by
    rw [addRow_stream hkind, addRowStream, hnot]
    exact (overruns_printHead hwide out).bind
  rw [printTable, List.foldlM_cons, bind_assoc]
  exact hadd.bind

theorem overruns_finish_buffered (hkind : p.kind = .buffered) (hsome : p.rows ≠ [])
    (hwide : ∃ column ∈ p.columns, 298 ≤ column.width) (out : Text) :
    Overruns (p.finish unwritten) out := by
  rw [finish_buffered hkind, finishBuffered, if_pos (mt List.eq_nil_of_length_eq_zero hsome)]
  exact (overruns_printHead hwide out).bind

theorem overruns_printTable_buffered (hkind : p.kind = .buffered) (hempty : p.rows = [])
    (hrows : ∀ cells ∈ rows, RowOf p.columns cells) (hsome : rows ≠ [])
    (hwide : ∃ column ∈ fittedColumns p.columns rows, 298 ≤ column.width) (out : Text) :
    Overruns (printTable unwritten p rows) out := by
  have hadd := @runs_addRows_buffered unwritten _ _ hkind hrows out
  rw [hempty, List.nil_append] at hadd
  exact hadd.overruns_bind (overruns_finish_buffered
    (p := { p with
      columns := fittedColumns p.columns rows, rows := rows,
      rowCount := p.rowCount + rows.length }) hkind hsome hwide out)

/-- A printer that has got no row. -/
structure TablePrinter.New (p : TablePrinter) : Prop where
  headerPrinted : p.headerPrinted = false
  rowCount : p.rowCount = 0
  rows : p.rows = []

theorem new_printerStream (columns : List PrinterColumn) : (printerStream columns).New :=
  ⟨rfl, rfl, rfl⟩

theorem new_printerBuffered (columns : List (Text × Bool)) : (printerBuffered columns).New :=
  ⟨rfl, rfl, rfl⟩

/-- The separators of the table fit into their array. -/
def SeparatorsFit (p : TablePrinter) (rows : List (List Text)) : Prop :=
  rows ≠ [] → ∀ column ∈ p.shownColumns rows, column.width < 298

/-- A printer prints the table of its rows in the columns that it shows them in, or leaves the
array of a separator. -/
theorem printTable_cases (hnew : p.New) (hrows : ∀ cells ∈ rows, RowOf p.columns cells)
    (out : Text) :
    (SeparatorsFit p rows → Runs (printTable unwritten p rows) out ()
        (out ++ tableText (p.shownColumns rows) rows)) ∧
      (¬SeparatorsFit p rows → Overruns (printTable unwritten p rows) out) := by
  obtain ⟨hnot, hcount, hempty⟩ := hnew
  have hwide : ∀ {columns : List PrinterColumn},
      ¬(rows ≠ [] → ∀ column ∈ columns, column.width < 298) →
        rows ≠ [] ∧ ∃ column ∈ columns, 298 ≤ column.width := by
    intro columns h
    rw [Classical.not_imp] at h
    obtain ⟨hsome, h⟩ := h
    refine ⟨hsome, ?_⟩
    by_contra hall
    apply h
    intro column hmem
    by_contra hlt
    exact hall ⟨column, hmem, Nat.le_of_not_lt hlt⟩
  unfold SeparatorsFit TablePrinter.shownColumns
  cases hkind : p.kind with
  | stream =>
    refine ⟨fun hwidths => runs_printTable_stream hkind hnot hcount hrows hwidths out, fun h => ?_⟩
    obtain ⟨hsome, hwide⟩ := hwide h
    exact overruns_printTable_stream hkind hnot hsome hwide out
  | buffered =>
    refine ⟨fun hwidths => runs_printTable_buffered hkind hempty hcount hrows hwidths out,
      fun h => ?_⟩
    obtain ⟨hsome, hwide⟩ := hwide h
    exact overruns_printTable_buffered hkind hempty hrows hsome hwide out

/-- A printer that streams its rows and one that keeps them print the same text of the same
rows, but for the widths of the columns; and they print it, and nothing else, exactly if no
column is wider than 297.  Any other table makes them write behind the array of a separator. -/
theorem printTable_prints_iff (unwritten : Unwritten) (p : TablePrinter) (hnew : p.New)
    (rows : List (List Text)) (hrows : ∀ cells ∈ rows, RowOf p.columns cells) (out : Text) :
    (∀ out', Runs (printTable unwritten p rows) out () out' ↔
        SeparatorsFit p rows ∧ out' = out ++ tableText (p.shownColumns rows) rows) ∧
      (Overruns (printTable unwritten p rows) out ↔ ¬SeparatorsFit p rows) := by
  obtain ⟨hprints, hoverruns⟩ := @printTable_cases unwritten p rows hnew hrows out
  by_cases hfit : SeparatorsFit p rows
  · have hrun := hprints hfit
    refine ⟨fun out' => ⟨fun hrun' => ⟨hfit, (hrun'.unique hrun).2⟩, ?_⟩,
      iff_of_false (fun hover => hover.not_runs hrun) (not_not.2 hfit)⟩
    rintro ⟨-, rfl⟩
    exact hrun
  · have hover := hoverruns hfit
    exact ⟨fun out' => iff_of_false hover.not_runs fun h => hfit h.1, iff_of_true hover hfit⟩

end Overrun

/-- A column of numbers and one of texts. -/
def bookColumns : List PrinterColumn := [⟨text "id", 11, true⟩, ⟨text "title", 4, false⟩]

def books : List (List Text) :=
  [[text "7", text "Emma"], [text "12", text "Evelina"], [text "110", []]]

theorem rowOf_books {columns : List PrinterColumn} (hlength : columns.length = 2) :
    ∀ cells ∈ books, RowOf columns cells := by
  have hcells : ∀ cells ∈ books, cells.length = 2 ∧ ∀ cell ∈ cells, cell.length < 65536 := by decide
  intro cells hmem
  exact ⟨(hcells cells hmem).1.trans hlength.symm, (hcells cells hmem).2⟩

/-- The streaming printer shows a text that is longer than its column, and leaves its array where
a column is too wide. -/
theorem printTable_prints_iff_books :
    Runs (printTable (fun size => Vector.replicate size 0) (printerStream bookColumns) books) [] ()
      (text "+-------------+-------+\n| id          | title |\n+-------------+-------+\n" ++
        text "|           7 | Emma  |\n|          12 | Evelina |\n|         110 |       |\n" ++
        text "+-------------+-------+\nRows: 3\n") ∧
    Overruns (printTable (fun size => Vector.replicate size 0)
      (printerStream [⟨text "id", 11, true⟩, ⟨text "title", 298, false⟩]) books) [] := by
  constructor
  · apply ((printTable_prints_iff (fun size => Vector.replicate size 0) (printerStream bookColumns)
      (new_printerStream _) books (rowOf_books rfl) []).1 _).2
    exact ⟨fun _ => by decide, by decide +kernel⟩
  · apply (printTable_prints_iff (fun size => Vector.replicate size 0)
      (printerStream [⟨text "id", 11, true⟩, ⟨text "title", 298, false⟩])
      (new_printerStream _) books (rowOf_books rfl) []).2.2
    intro hfit
    have hwidth := hfit (List.cons_ne_nil _ _)
    revert hwidth
    decide

end Maxql.View
