import Maxql.View.Printer

/-!
# The columns of a printed table

Two properties of the text of a table.  There are three groups.

* The lines.  `display_separatorLine`, `display_headerLine` and `display_rowLine`
  count the characters of a line.
* The room of the cells.  `tableLines_aligned_iff` says when all lines take the
  same room on the terminal, and `wider_fittedColumns` that the columns of a
  printer that keeps its rows have room for every cell.
* Reading the rows off.  `printed_rows_inj` says that such a printer prints
  different rows differently.
-/

namespace Maxql.View

open Program Bytes Justify

/-! ## Lines -/

section Columns

variable {columns : List PrinterColumn}

/-- Every name is in bytes that start characters, as identifiers are. -/
def PlainNames (columns : List PrinterColumn) : Prop :=
  ∀ column ∈ columns, ∀ c ∈ column.name, startsChar c = true

theorem plain_of_all {names : List Text} (h : (names.all fun name => name.all startsChar) = true) :
    ∀ name ∈ names, ∀ c ∈ name, startsChar c = true := fun name hname =>
  List.all_eq_true.1 (List.all_eq_true.1 h name hname)

/-- Every cell has room in its column. -/
def CellsInside (columns : List PrinterColumn) (cells : List Text) : Prop :=
  List.Forall₂ (fun column cell => display startsChar cell ≤ column.width) columns cells

theorem startsChar_space : startsChar space = true := rfl

theorem display_separatorLine : display startsChar (separatorLine columns)
    = (columns.map fun column => column.width + 3).sum + 1 := by
  have hsum : ∀ columns : List PrinterColumn, display startsChar (columns.flatMap separatorText)
      = (columns.map fun column => column.width + 3).sum := by
    intro columns
    induction columns with
    | nil => rfl
    | cons column columns ih =>
      have hdash : display startsChar (List.replicate (column.width + 2) dash)
          = column.width + 2 := display_replicate rfl _
      have hplus : display startsChar (text "+") = 1 := rfl
      rw [List.flatMap_cons, display_append, ih, separatorText, display_append, hdash, hplus,
        List.map_cons, List.sum_cons]
      omega
  rw [separatorLine, display_append, hsum]
  rfl

/-- A piece of a line: a bar, a blank, a text up to the width of the column, and a blank. -/
theorem display_piece (s : Text) :
    display startsChar (text "| " ++ (s ++ text " ")) = display startsChar s + 3 := by
  have hbar : display startsChar (text "| ") = 2 := rfl
  have hblank : display startsChar (text " ") = 1 := rfl
  rw [display_append, display_append, hbar, hblank]
  omega

theorem display_headerLine (hnames : PlainNames columns) :
    display startsChar (headerLine columns)
      = (columns.map fun column => max column.width column.name.length + 3).sum + 1 := by
  have hsum : display startsChar (columns.flatMap headerText)
      = (columns.map fun column => max column.width column.name.length + 3).sum := by
    induction columns with
    | nil => rfl
    | cons column columns ih =>
      obtain ⟨hname, hnames⟩ := List.forall_mem_cons.1 hnames
      have hlen := display_eq_length hname
      have hpad : padField false column.width column.name
          = justify startsChar space false column.width column.name := by
        have hzero : column.name.length - display startsChar column.name = 0 := by omega
        have heq := padField_eq_justify false column.width column.name
        rwa [hzero, Nat.add_zero] at heq
      rw [List.flatMap_cons, display_append, ih hnames, headerText, display_piece, hpad,
        display_justify startsChar_space, hlen, List.map_cons, List.sum_cons]
  rw [headerLine, display_append, hsum]
  rfl

theorem display_rowLine (cells : List Text) : display startsChar (rowLine columns cells)
    = (List.zipWith (fun column cell => max column.width (display startsChar cell) + 3)
        columns cells).sum + 1 := by
  have hsum : display startsChar (List.zipWith cellText columns cells).flatten
      = (List.zipWith (fun column cell => max column.width (display startsChar cell) + 3)
          columns cells).sum := by
    induction columns generalizing cells with
    | nil => rfl
    | cons column columns ih =>
      cases cells with
      | nil => rfl
      | cons cell cells =>
        rw [List.zipWith_cons_cons, List.flatten_cons, display_append, ih, cellText, display_piece,
          display_justify startsChar_space, List.zipWith_cons_cons, List.sum_cons]
  rw [rowLine, display_append, hsum]
  rfl

/-! ## The room of the cells -/

/-- A row is as wide as its columns, or wider, and as wide exactly if its cells have room. -/
theorem cellsInside_iff {cells : List Text} (hlen : cells.length = columns.length) :
    (columns.map fun column => column.width + 3).sum
        ≤ (List.zipWith (fun column cell => max column.width (display startsChar cell) + 3)
          columns cells).sum ∧
      ((List.zipWith (fun column cell => max column.width (display startsChar cell) + 3)
          columns cells).sum = (columns.map fun column => column.width + 3).sum ↔
        CellsInside columns cells) := by
  induction columns generalizing cells with
  | nil =>
    obtain rfl := List.eq_nil_of_length_eq_zero hlen
    exact ⟨Nat.le_refl _, iff_of_true rfl .nil⟩
  | cons column columns ih =>
    obtain ⟨cell, cells, rfl⟩ := List.exists_cons_of_length_eq_add_one hlen
    obtain ⟨hle, hiff⟩ := ih (Nat.succ.inj hlen)
    have hinside : CellsInside (column :: columns) (cell :: cells) ↔
        display startsChar cell ≤ column.width ∧ CellsInside columns cells := List.forall₂_cons
    rw [hinside, ← hiff, List.map_cons, List.sum_cons, List.zipWith_cons_cons, List.sum_cons]
    omega

theorem namesInside_iff :
    (columns.map fun column => column.width + 3).sum
        ≤ (columns.map fun column => max column.width column.name.length + 3).sum ∧
      ((columns.map fun column => max column.width column.name.length + 3).sum
          = (columns.map fun column => column.width + 3).sum ↔
        ∀ column ∈ columns, column.name.length ≤ column.width) := by
  induction columns with
  | nil => exact ⟨Nat.le_refl _, iff_of_true rfl nofun⟩
  | cons column columns ih =>
    obtain ⟨hle, hiff⟩ := ih
    rw [List.forall_mem_cons, ← hiff, List.map_cons, List.sum_cons, List.map_cons, List.sum_cons]
    omega

/-- All lines of a table take the same room on the terminal exactly if every name and every cell
has room in its column. -/
theorem tableLines_aligned_iff (hnames : PlainNames columns) {rows : List (List Text)}
    (hrows : ∀ cells ∈ rows, RowOf columns cells) :
    (∀ l ∈ tableLines columns rows,
        display startsChar l = display startsChar (separatorLine columns)) ↔
      (∀ column ∈ columns, column.name.length ≤ column.width) ∧
        ∀ cells ∈ rows, CellsInside columns cells := by
  have hrow : ∀ cells ∈ rows, (display startsChar (rowLine columns cells)
      = display startsChar (separatorLine columns) ↔ CellsInside columns cells) := by
    intro cells hcells
    rw [display_rowLine, display_separatorLine, Nat.add_right_cancel_iff]
    exact (cellsInside_iff (hrows cells hcells).length_eq).2
  have hheader : display startsChar (headerLine columns)
      = display startsChar (separatorLine columns) ↔
        ∀ column ∈ columns, column.name.length ≤ column.width := by
    rw [display_headerLine hnames, display_separatorLine, Nat.add_right_cancel_iff]
    exact namesInside_iff.2
  rw [tableLines, List.forall_mem_cons, List.forall_mem_cons, List.forall_mem_cons,
    List.forall_mem_append, List.forall_mem_map, List.forall_mem_singleton, hheader,
    forall₂_congr hrow]
  constructor
  · rintro ⟨-, hnames, -, hcells, -⟩
    exact ⟨hnames, hcells⟩
  · rintro ⟨hnames, hcells⟩
    exact ⟨rfl, hnames, rfl, hcells, rfl⟩

theorem PrinterColumn.le_widen (column : PrinterColumn) (n : Nat) :
    column.width ≤ (column.widen n).width ∧ n ≤ (column.widen n).width ∧
      (column.widen n).name = column.name ∧ (column.widen n).rightAlign = column.rightAlign := by
  unfold PrinterColumn.widen
  split
  · next h => exact ⟨Nat.le_of_lt h, Nat.le_refl _, rfl, rfl⟩
  · next h => exact ⟨Nat.le_refl _, Nat.le_of_not_lt h, rfl, rfl⟩

/-- The same names and alignments, and widths that are not less. -/
def Wider (columns columns' : List PrinterColumn) : Prop :=
  List.Forall₂ (fun column column' => column.width ≤ column'.width ∧
    column'.name = column.name ∧ column'.rightAlign = column.rightAlign) columns columns'

theorem wider_fitColumns {cells : List Text} (hlen : cells.length = columns.length) :
    Wider columns (fitColumns columns cells) ∧ CellsInside (fitColumns columns cells) cells := by
  induction columns generalizing cells with
  | nil =>
    obtain rfl := List.eq_nil_of_length_eq_zero hlen
    exact ⟨.nil, .nil⟩
  | cons column columns ih =>
    obtain ⟨cell, cells, rfl⟩ := List.exists_cons_of_length_eq_add_one hlen
    obtain ⟨hwider, hinside⟩ := ih (Nat.succ.inj hlen)
    obtain ⟨hle, hcell, hname, halign⟩ := column.le_widen (display startsChar cell)
    exact ⟨.cons ⟨hle, hname, halign⟩ hwider, .cons hcell hinside⟩

theorem Wider.trans {columns' columns'' : List PrinterColumn} (h : Wider columns columns')
    (h' : Wider columns' columns'') : Wider columns columns'' := by
  induction h generalizing columns'' with
  | nil =>
    cases h'
    exact .nil
  | cons hhead _ ih =>
    cases h' with
    | cons hhead' htail' =>
      exact .cons ⟨Nat.le_trans hhead.1 hhead'.1, hhead'.2.1.trans hhead.2.1,
        hhead'.2.2.trans hhead.2.2⟩ (ih htail')

theorem Wider.cellsInside {columns' : List PrinterColumn} {cells : List Text}
    (h : Wider columns columns') (hinside : CellsInside columns cells) :
    CellsInside columns' cells := by
  induction h generalizing cells with
  | nil => exact hinside
  | cons hhead _ ih =>
    cases hinside with
    | cons hcell hcells => exact .cons (Nat.le_trans hcell hhead.1) (ih hcells)

/-- The columns of a printer that keeps its rows have room for every one of them. -/
theorem wider_fittedColumns {rows : List (List Text)}
    (hrows : ∀ cells ∈ rows, RowOf columns cells) :
    Wider columns (fittedColumns columns rows) ∧
      ∀ cells ∈ rows, CellsInside (fittedColumns columns rows) cells := by
  induction rows generalizing columns with
  | nil =>
    exact ⟨List.forall₂_same.2 fun column _ => ⟨Nat.le_refl _, rfl, rfl⟩, nofun⟩
  | cons cells rows ih =>
    obtain ⟨hfirst, hrest⟩ := List.forall_mem_cons.1 hrows
    obtain ⟨hwider, hinside⟩ := wider_fitColumns hfirst.length_eq
    obtain ⟨hwider', hinside'⟩ := ih fun cells' hcells =>
      (hrest cells' hcells).of_length_eq hfirst.length_fitColumns
    exact ⟨hwider.trans hwider', List.forall_mem_cons.2 ⟨hwider'.cellsInside hinside, hinside'⟩⟩

/-- No column becomes wider than the widest of its contents. -/
theorem width_fittedColumns_lt {n : Nat} {rows : List (List Text)}
    (hrows : ∀ cells ∈ rows, ∀ cell ∈ cells, display startsChar cell < n)
    (hcolumns : ∀ column ∈ columns, column.width < n) :
    ∀ column ∈ fittedColumns columns rows, column.width < n := by
  have hrow : ∀ {columns : List PrinterColumn} {cells : List Text},
      (∀ cell ∈ cells, display startsChar cell < n) → (∀ column ∈ columns, column.width < n) →
        ∀ column ∈ fitColumns columns cells, column.width < n := by
    intro columns cells hcells hcolumns column hmem
    rw [fitColumns, List.mem_iff_getElem] at hmem
    obtain ⟨i, hi, rfl⟩ := hmem
    rw [List.length_zipWith] at hi
    rw [List.getElem_zipWith, PrinterColumn.widen]
    split
    · exact hcells _ (List.getElem_mem (by omega))
    · exact hcolumns _ (List.getElem_mem (by omega))
  induction rows generalizing columns with
  | nil => exact hcolumns
  | cons cells rows ih =>
    obtain ⟨hfirst, hrest⟩ := List.forall_mem_cons.1 hrows
    exact ih hrest (hrow hfirst hcolumns)

/-! ## Reading the rows off -/

/-- No cell has blanks on the side on which it is filled. -/
def CellsTrimmed (columns : List PrinterColumn) (cells : List Text) : Prop :=
  List.Forall₂ (fun column cell => Trimmed space column.rightAlign cell) columns cells

theorem Wider.cellsTrimmed {columns' : List PrinterColumn} {cells : List Text}
    (h : Wider columns columns') (htrim : CellsTrimmed columns cells) :
    CellsTrimmed columns' cells := by
  induction h generalizing cells with
  | nil => exact htrim
  | cons hhead _ ih =>
    cases htrim with
    | cons hcell hcells => exact .cons (hhead.2.2 ▸ hcell) (ih hcells)

/-- The cells of a line can be read off, whatever comes behind the line. -/
theorem rowLine_inj {cells cells' : List Text} {rest rest' : Text}
    (hcells : CellsInside columns cells) (hcells' : CellsInside columns cells')
    (htrim : CellsTrimmed columns cells) (htrim' : CellsTrimmed columns cells')
    (h : line (rowLine columns cells) ++ rest = line (rowLine columns cells') ++ rest') :
    cells = cells' ∧ rest = rest' := by
  induction hcells generalizing cells' with
  | nil =>
    cases hcells'
    exact ⟨rfl, List.append_cancel_left h⟩
  | @cons column cell columns cells hcell _ ih =>
    cases hcells' with
    | @cons _ cell' _ cells' hcell' hcells' =>
      cases htrim with
      | cons hblank hblanks =>
        cases htrim' with
        | cons hblank' hblanks' =>
          have hline : ∀ (cell : Text) (cells : List Text) (rest : Text),
              line (rowLine (column :: columns) (cell :: cells)) ++ rest
                = text "| " ++ (justify startsChar space column.rightAlign column.width cell ++
                    space :: (line (rowLine columns cells) ++ rest)) := by
            intro cell cells rest
            have hspace : ∀ s : Text, text " " ++ s = space :: s := fun s => rfl
            rw [← hspace]
            simp only [rowLine, line, cellText, List.zipWith_cons_cons, List.flatten_cons,
              List.append_assoc]
          rw [hline, hline] at h
          have hwidth : display startsChar
                (justify startsChar space column.rightAlign column.width cell)
              = display startsChar
                (justify startsChar space column.rightAlign column.width cell') := by
            rw [display_justify startsChar_space, display_justify startsChar_space,
              Nat.max_eq_left hcell, Nat.max_eq_left hcell']
          obtain ⟨hfield, hrest⟩ := append_inj_of_display hwidth startsChar_space
            startsChar_space (List.append_cancel_left h)
          obtain ⟨hcells, hrest⟩ := ih hcells' hblanks hblanks' (List.cons.inj hrest).2
          exact ⟨by rw [justify_inj hblank hblank' hfield, hcells], hrest⟩

theorem rows_inj {rows rows' : List (List Text)} {foot foot' : Text}
    (hrows : ∀ cells ∈ rows, CellsInside columns cells ∧ CellsTrimmed columns cells)
    (hrows' : ∀ cells ∈ rows', CellsInside columns cells ∧ CellsTrimmed columns cells)
    (h : (rows.map (rowLine columns)).flatMap line ++ (line (separatorLine columns) ++ foot)
      = (rows'.map (rowLine columns)).flatMap line ++ (line (separatorLine columns) ++ foot')) :
    rows = rows' := by
  -- a line of cells starts with a bar, a separator with a plus
  have hbar : ∀ cells, (rowLine columns cells).head? = some 124 := by
    intro cells
    cases columns <;> cases cells <;> rfl
  have hplus : (separatorLine columns).head? = some 43 := by
    cases columns <;> rfl
  have hdiffer : ∀ cells rest rest', line (rowLine columns cells) ++ rest
      ≠ line (separatorLine columns) ++ rest' := by
    intro cells rest rest' heq
    have hhead := congrArg List.head? heq
    simp only [line, List.append_assoc, List.head?_append, hbar, hplus] at hhead
    cases hhead
  induction rows generalizing rows' with
  | nil =>
    cases rows' with
    | nil => rfl
    | cons cells' rows' =>
      rw [List.map_cons, List.flatMap_cons, List.append_assoc] at h
      exact absurd h.symm (hdiffer _ _ _)
  | cons cells rows ih =>
    rw [List.map_cons, List.flatMap_cons, List.append_assoc] at h
    cases rows' with
    | nil => exact absurd h (hdiffer _ _ _)
    | cons cells' rows' =>
      rw [List.map_cons, List.flatMap_cons, List.append_assoc] at h
      obtain ⟨⟨hinside, htrim⟩, hrest⟩ := List.forall_mem_cons.1 hrows
      obtain ⟨⟨hinside', htrim'⟩, hrest'⟩ := List.forall_mem_cons.1 hrows'
      obtain ⟨rfl, htail⟩ := rowLine_inj hinside hinside' htrim htrim' h
      rw [ih hrest hrest' htail]

/-- The widths can be read off a separator. -/
theorem separatorLine_inj {columns columns' : List PrinterColumn} {rest rest' : Text}
    (hlen : columns.length = columns'.length)
    (h : line (separatorLine columns) ++ rest = line (separatorLine columns') ++ rest') :
    columns.map (·.width) = columns'.map (·.width) ∧ rest = rest' := by
  have hplus : ∀ columns : List PrinterColumn, ∃ tail, separatorLine columns = 43 :: tail := by
    intro columns
    cases columns <;> exact ⟨_, rfl⟩
  induction columns generalizing columns' with
  | nil =>
    obtain rfl := List.eq_nil_of_length_eq_zero hlen.symm
    exact ⟨rfl, List.append_cancel_left h⟩
  | cons column columns ih =>
    obtain ⟨column', columns', rfl⟩ := List.exists_cons_of_length_eq_add_one hlen.symm
    have hline : ∀ (column : PrinterColumn) (columns : List PrinterColumn) (rest : Text),
        line (separatorLine (column :: columns)) ++ rest
          = text "+" ++ (List.replicate (column.width + 2) dash ++
              (line (separatorLine columns) ++ rest)) := by
      intro column columns rest
      simp only [separatorLine, line, separatorText, List.flatMap_cons, List.append_assoc]
    rw [hline, hline] at h
    obtain ⟨tail, htail⟩ := hplus columns
    obtain ⟨tail', htail'⟩ := hplus columns'
    have hdashes := List.append_cancel_left h
    rw [line, line, htail, htail'] at hdashes
    obtain ⟨hwidth, hrest⟩ := replicate_append_inj (show dash ≠ 43 by decide) hdashes
    have hsame : line (separatorLine columns) ++ rest = line (separatorLine columns') ++ rest' := by
      rw [line, line, htail, htail']
      exact congrArg (43 :: ·) hrest
    obtain ⟨hwidths, hrest⟩ := ih (Nat.succ.inj hlen) hsame
    exact ⟨by rw [List.map_cons, List.map_cons, hwidths, Nat.add_right_cancel hwidth], hrest⟩

theorem Wider.eq_of_widths {columns₀ columns columns' : List PrinterColumn}
    (h : Wider columns₀ columns) (h' : Wider columns₀ columns')
    (hwidths : columns.map (·.width) = columns'.map (·.width)) : columns = columns' := by
  induction h generalizing columns' with
  | nil =>
    cases h'
    rfl
  | @cons _ column _ columns hhead _ ih =>
    cases h' with
    | @cons _ column' _ columns' hhead' htail' =>
      obtain ⟨hwidth, hrest⟩ := List.cons.inj hwidths
      obtain ⟨name, width, rightAlign⟩ := column
      obtain ⟨name', width', rightAlign'⟩ := column'
      obtain rfl : width = width' := hwidth
      obtain rfl : name' = name := hhead'.2.1.trans hhead.2.1.symm
      obtain rfl : rightAlign' = rightAlign := hhead'.2.2.trans hhead.2.2.symm
      rw [ih htail' hrest]

/-- Tables with the same columns, widths apart, and different rows have different texts. -/
theorem fitted_tableText_inj {rows rows' : List (List Text)}
    (hrows : ∀ cells ∈ rows, RowOf columns cells) (hrows' : ∀ cells ∈ rows', RowOf columns cells)
    (htrim : ∀ cells ∈ rows, CellsTrimmed columns cells)
    (htrim' : ∀ cells ∈ rows', CellsTrimmed columns cells)
    (h : tableText (fittedColumns columns rows) rows
      = tableText (fittedColumns columns rows') rows') : rows = rows' := by
  obtain ⟨hwider, hinside⟩ := wider_fittedColumns hrows
  obtain ⟨hwider', hinside'⟩ := wider_fittedColumns hrows'
  have hempty : ∀ (columns : List PrinterColumn) (cells : List Text) (rows : List (List Text)),
      tableText columns (cells :: rows) ≠ tableText columns [] := by
    intro columns cells rows heq
    have hhead := congrArg List.head? heq
    rw [tableText_eq (List.cons_ne_nil _ _), headText] at hhead
    cases columns <;> cases hhead
  cases rows with
  | nil =>
    cases rows' with
    | nil => rfl
    | cons cells' rows' => exact absurd h.symm (hempty _ cells' rows')
  | cons cells rows =>
    cases rows' with
    | nil => exact absurd h (hempty _ cells rows)
    | cons cells' rows' =>
      have hlen : (fittedColumns columns (cells :: rows)).length
          = (fittedColumns columns (cells' :: rows')).length :=
        (length_fittedColumns hrows).trans (length_fittedColumns hrows').symm
      rw [tableText_eq (List.cons_ne_nil _ _), tableText_eq (List.cons_ne_nil _ _)] at h
      have hseparators := h
      simp only [headText, List.append_assoc] at hseparators
      have hcolumns := hwider.eq_of_widths hwider' (separatorLine_inj hlen hseparators).1
      rw [← hcolumns] at h hinside'
      refine rows_inj (fun cells hcells => ⟨hinside cells hcells, ?_⟩)
        (fun cells hcells => ⟨hinside' cells hcells, ?_⟩) (List.append_cancel_left h)
      · exact hwider.cellsTrimmed (htrim cells hcells)
      · exact hwider.cellsTrimmed (htrim' cells hcells)

end Columns

/-! ## The two printers -/

section Printers

variable {unwritten : Unwritten} {columns : List PrinterColumn} {rows rows' : List (List Text)}

/-- The names of the columns can be counted in 16 bits. -/
def ShortNames (columns : List PrinterColumn) : Prop :=
  ∀ column ∈ columns, column.name.length < 65536

/-- A printer over the columns, which keeps its rows. -/
def bufferedOver (columns : List PrinterColumn) : TablePrinter :=
  printerBuffered (columns.map fun column => (column.name, column.rightAlign))

/-- All lines of the table take the same room on the terminal. -/
def Aligned (columns : List PrinterColumn) (rows : List (List Text)) : Prop :=
  ∀ l ∈ tableLines columns rows,
    display startsChar l = display startsChar (separatorLine columns)

theorem columns_printerStream (hshort : ShortNames columns) : (printerStream columns).columns
    = columns.map fun column => column.widen column.name.length := by
  refine List.map_congr_left fun column hmem => ?_
  rw [Nat.mod_eq_of_lt (hshort column hmem), PrinterColumn.widen]

theorem columns_bufferedOver (hshort : ShortNames columns) : (bufferedOver columns).columns
    = columns.map fun column => { column with width := column.name.length } := by
  rw [bufferedOver, printerBuffered, List.map_map]
  refine List.map_congr_left fun column hmem => ?_
  show (⟨column.name, column.name.length % 65536, column.rightAlign⟩ : PrinterColumn) = _
  rw [Nat.mod_eq_of_lt (hshort column hmem)]

theorem RowOf.map {cells : List Text} (h : RowOf columns cells)
    (f : PrinterColumn → PrinterColumn) : RowOf (columns.map f) cells :=
  h.of_length_eq (List.length_map _)

theorem Wider.plainNames {columns' : List PrinterColumn} (h : Wider columns columns')
    (hnames : PlainNames columns) : PlainNames columns' := by
  induction h with
  | nil => exact hnames
  | cons hhead _ ih =>
    obtain ⟨hfirst, hrest⟩ := List.forall_mem_cons.1 hnames
    exact List.forall_mem_cons.2 ⟨hhead.2.1 ▸ hfirst, ih hrest⟩

theorem Wider.namesInside {columns' : List PrinterColumn} (h : Wider columns columns')
    (hinside : ∀ column ∈ columns, column.name.length ≤ column.width) :
    ∀ column ∈ columns', column.name.length ≤ column.width := by
  induction h with
  | nil => exact nofun
  | cons hhead _ ih =>
    obtain ⟨hfirst, hrest⟩ := List.forall_mem_cons.1 hinside
    refine List.forall_mem_cons.2 ⟨?_, ih hrest⟩
    rw [hhead.2.1]
    exact Nat.le_trans hfirst hhead.1

theorem PlainNames.map (hnames : PlainNames columns) {f : PrinterColumn → PrinterColumn}
    (hf : ∀ column, (f column).name = column.name) : PlainNames (columns.map f) := by
  refine List.forall_mem_map.2 fun column hmem => ?_
  rw [hf]
  exact hnames column hmem

theorem aligned_buffered (hnames : PlainNames columns) (hshort : ShortNames columns)
    (hrows : ∀ cells ∈ rows, RowOf columns cells) :
    Aligned ((bufferedOver columns).shownColumns rows) rows := by
  have hfit : (bufferedOver columns).shownColumns rows = fittedColumns
      (columns.map fun column => { column with width := column.name.length }) rows :=
    congrArg (fittedColumns · rows) (columns_bufferedOver hshort)
  have hrows' : ∀ cells ∈ rows, RowOf (columns.map fun column =>
      { column with width := column.name.length }) cells :=
    fun cells hcells => (hrows cells hcells).map _
  obtain ⟨hwider, hinside⟩ := wider_fittedColumns hrows'
  rw [hfit]
  refine (tableLines_aligned_iff (hwider.plainNames (hnames.map fun _ => rfl))
    fun cells hcells => (hrows' cells hcells).of_length_eq (length_fittedColumns hrows')).2
    ⟨hwider.namesInside (List.forall_mem_map.2 fun column _ => Nat.le_refl _), hinside⟩

theorem aligned_stream_iff (hnames : PlainNames columns) (hshort : ShortNames columns)
    (hrows : ∀ cells ∈ rows, RowOf columns cells) :
    Aligned ((printerStream columns).shownColumns rows) rows ↔
      ∀ cells ∈ rows, CellsInside (columns.map fun column =>
        column.widen column.name.length) cells := by
  have hstream : (printerStream columns).shownColumns rows
      = columns.map fun column => column.widen column.name.length :=
    columns_printerStream hshort
  rw [hstream]
  refine (tableLines_aligned_iff (hnames.map fun column => (column.le_widen _).2.2.1)
    fun cells hcells => (hrows cells hcells).map _).trans (and_iff_right ?_)
  refine List.forall_mem_map.2 fun column _ => ?_
  obtain ⟨-, hle, hname, -⟩ := column.le_widen column.name.length
  rw [hname]
  exact hle

/-- The printer that keeps its rows always prints lines of one width.  The one that streams them
does exactly if every cell has room in the width that its column was given. -/
theorem printedLines_aligned_iff (columns : List PrinterColumn) (hnames : PlainNames columns)
    (hshort : ShortNames columns) (rows : List (List Text))
    (hrows : ∀ cells ∈ rows, RowOf columns cells) :
    Aligned ((bufferedOver columns).shownColumns rows) rows ∧
      (Aligned ((printerStream columns).shownColumns rows) rows ↔
        ∀ cells ∈ rows, CellsInside (columns.map fun column =>
          column.widen column.name.length) cells) :=
  ⟨aligned_buffered hnames hshort hrows, aligned_stream_iff hnames hshort hrows⟩

/-- Whoever sees what the printer that keeps its rows has printed knows the rows, as long as no
cell has blanks where it is filled. -/
theorem printed_rows_inj (unwritten : Unwritten) (p : TablePrinter) (hnew : p.New)
    (hkind : p.kind = .buffered) (rows rows' : List (List Text))
    (hrows : ∀ cells ∈ rows, RowOf p.columns cells ∧ CellsTrimmed p.columns cells)
    (hrows' : ∀ cells ∈ rows', RowOf p.columns cells ∧ CellsTrimmed p.columns cells)
    (out out' : Text) (hrun : Runs (printTable unwritten p rows) out () out')
    (hrun' : Runs (printTable unwritten p rows') out () out') : rows = rows' := by
  have htext : ∀ rows : List (List Text), (∀ cells ∈ rows, RowOf p.columns cells) →
      Runs (printTable unwritten p rows) out () out' →
        out' = out ++ tableText (fittedColumns p.columns rows) rows := by
    intro rows hrows hrun
    obtain ⟨hprints, hoverruns⟩ := @printTable_cases unwritten p rows hnew hrows out
    have hshown : p.shownColumns rows = fittedColumns p.columns rows := by
      rw [TablePrinter.shownColumns, hkind]
    by_cases hfit : SeparatorsFit p rows
    · rw [← hshown]
      exact (hrun.unique (hprints hfit)).2
    · exact absurd hrun (hoverruns hfit).not_runs
  have hof := fun cells hcells => (hrows cells hcells).1
  have hof' := fun cells hcells => (hrows' cells hcells).1
  have hsame := (htext rows hof hrun).symm.trans (htext rows' hof' hrun')
  exact fitted_tableText_inj hof hof' (fun cells hcells => (hrows cells hcells).2)
    (fun cells hcells => (hrows' cells hcells).2) (List.append_cancel_left hsame)

end Printers

theorem plainNames_bookColumns : PlainNames bookColumns := fun _ hcolumn =>
  @plain_of_all (bookColumns.map (·.name)) (by decide) _ (List.mem_map_of_mem hcolumn)

theorem shortNames_bookColumns : ShortNames bookColumns := by
  unfold ShortNames
  decide

/-- The lines of the books are aligned where the rows are kept; a text is too long for the column
that is streamed. -/
theorem printedLines_aligned_iff_books :
    Aligned ((bufferedOver bookColumns).shownColumns books) books ∧
      ¬Aligned ((printerStream bookColumns).shownColumns books) books := by
  obtain ⟨hbuffered, hstream⟩ := printedLines_aligned_iff bookColumns plainNames_bookColumns
    shortNames_bookColumns books (rowOf_books rfl)
  refine ⟨hbuffered, fun haligned => ?_⟩
  have hinside := hstream.1 haligned [text "12", text "Evelina"] (by decide)
  obtain ⟨-, hrest⟩ := List.forall₂_cons.1 hinside
  obtain ⟨htitle, -⟩ := List.forall₂_cons.1 hrest
  revert htitle
  decide

theorem trimmed_book {id title : Text} (hid : Trimmed space true id)
    (htitle : Trimmed space false title) (hlen : id.length < 65536 ∧ title.length < 65536) :
    RowOf (bufferedOver bookColumns).columns [id, title] ∧
      CellsTrimmed (bufferedOver bookColumns).columns [id, title] :=
  ⟨⟨rfl, List.forall_mem_cons.2 ⟨hlen.1, List.forall_mem_singleton.2 hlen.2⟩⟩,
    .cons hid (.cons htitle .nil)⟩

theorem trimmed_books : ∀ cells ∈ books, RowOf (bufferedOver bookColumns).columns cells ∧
    CellsTrimmed (bufferedOver bookColumns).columns cells := by
  refine List.forall_mem_cons.2 ⟨?_, List.forall_mem_cons.2 ⟨?_, List.forall_mem_singleton.2 ?_⟩⟩
  · exact trimmed_book (by decide) (by decide) (by decide)
  · exact trimmed_book (by decide) (by decide) (by decide)
  · exact trimmed_book (by decide) (by decide) (by decide)

/-- One more book is printed differently under another number. -/
theorem printed_rows_inj_books : ∃ out out',
    Runs (printTable (fun size => Vector.replicate size 0) (bufferedOver bookColumns)
      ([text "7", text "Emmy"] :: books)) [] () out ∧
    Runs (printTable (fun size => Vector.replicate size 0) (bufferedOver bookColumns)
      ([text "8", text "Emmy"] :: books)) [] () out' ∧ out ≠ out' := by
  have hspec : ∀ id, Trimmed space true id → id.length < 65536 →
      ∀ cells ∈ [id, text "Emmy"] :: books, RowOf (bufferedOver bookColumns).columns cells ∧
        CellsTrimmed (bufferedOver bookColumns).columns cells := fun id hid hlen =>
    List.forall_mem_cons.2 ⟨trimmed_book hid (by decide) ⟨hlen, by decide⟩, trimmed_books⟩
  have hseven := hspec (text "7") (by decide) (by decide)
  have height := hspec (text "8") (by decide) (by decide)
  have hprints : ∀ rows, (∀ cells ∈ rows, RowOf (bufferedOver bookColumns).columns cells ∧
        CellsTrimmed (bufferedOver bookColumns).columns cells) →
      SeparatorsFit (bufferedOver bookColumns) rows →
      ∃ out, Runs (printTable (fun size => Vector.replicate size 0) (bufferedOver bookColumns)
        rows) [] () out := fun rows hrows hfit =>
    ⟨_, (printTable_cases (new_printerBuffered _)
      (fun cells hcells => (hrows cells hcells).1) []).1 hfit⟩
  obtain ⟨out, hrun⟩ := hprints _ hseven fun _ => by decide
  obtain ⟨out', hrun'⟩ := hprints _ height fun _ => by decide
  refine ⟨out, out', hrun, hrun', ?_⟩
  rintro rfl
  have hrows := printed_rows_inj (fun size => Vector.replicate size 0) (bufferedOver bookColumns)
    (new_printerBuffered _) rfl _ _ hseven height [] out hrun hrun'
  revert hrows
  decide

end Maxql.View
