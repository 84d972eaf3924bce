import Maxql.Engine.DatabaseRefines
import Maxql.View.Aligned

/-!
# What the SHOW statements print

The executors of `src/engine/dal/executor.c` hand their cells to a printer that
keeps its rows, and align all of them on the left.  There are two groups.

* The cells.  `Showable` is what a table of cells needs to be printed, and the
  lemmas below it say that the cells of each statement have it.
* The result.  `show_prints` is the text of a SHOW statement after any script.
-/

namespace Maxql.View

open Program Bytes Justify Simulation

/-- What the executor of a SHOW statement prints. -/
def printCells (unwritten : Unwritten) (names : List Text) (rows : List (List Text)) :
    Print Unit :=
  printTable unwritten (printerBuffered (names.map fun name => (name, false))) rows

/-- The columns in which it shows the cells. -/
def cellsColumns (names : List Text) (rows : List (List Text)) : List PrinterColumn :=
  fittedColumns (names.map fun name => ⟨name, name.length, false⟩) rows

/-! ## The cells -/

/-- Plain names, and as many cells in each row, of which none is longer than 255 bytes. -/
structure Showable (names : List Text) (rows : List (List Text)) : Prop where
  plain : ∀ name ∈ names, ∀ c ∈ name, startsChar c = true
  short : ∀ name ∈ names, name.length < 256
  lengths : ∀ cells ∈ rows, cells.length = names.length
  cells : ∀ cells ∈ rows, ∀ cell ∈ cells, cell.length < 256

section Showable

variable {names : List Text} {rows : List (List Text)}

theorem Showable.prints (h : Showable names rows) (unwritten : Unwritten) (out : Text) :
    Runs (printCells unwritten names rows) out ()
        (out ++ tableText (cellsColumns names rows) rows) ∧
      Aligned (cellsColumns names rows) rows := by
  obtain ⟨columns, hcolumns⟩ : ∃ columns : List PrinterColumn,
      columns = names.map fun name => ⟨name, 0, false⟩ := ⟨_, rfl⟩
  have hplain : PlainNames columns := hcolumns ▸ List.forall_mem_map.2 h.plain
  have hshort : ShortNames columns := by
    rw [hcolumns]
    exact List.forall_mem_map.2 fun name hname => Nat.lt_trans (h.short name hname) (by decide)
  have hrows : ∀ cells ∈ rows, RowOf columns cells := by
    intro cells hcells
    refine ⟨?_, fun cell hcell => Nat.lt_trans (h.cells cells hcells cell hcell) (by decide)⟩
    rw [hcolumns, List.length_map]
    exact h.lengths cells hcells
  have hprinter : printerBuffered (names.map fun name => (name, false))
      = bufferedOver columns := by
    rw [bufferedOver, hcolumns, List.map_map]
    rfl
  have hfitted : (bufferedOver columns).columns
      = names.map fun name => ⟨name, name.length, false⟩ := by
    rw [columns_bufferedOver hshort, hcolumns, List.map_map]
    rfl
  have hshown : (bufferedOver columns).shownColumns rows = cellsColumns names rows :=
    congrArg (fittedColumns · rows) hfitted
  have hrows' : ∀ cells ∈ rows, RowOf (bufferedOver columns).columns cells := by
    rw [columns_bufferedOver hshort]
    exact fun cells hcells => (hrows cells hcells).map _
  have hfit : SeparatorsFit (bufferedOver columns) rows := by
    intro _
    show ∀ column ∈ fittedColumns (bufferedOver columns).columns rows, column.width < 298
    rw [hfitted]
    refine width_fittedColumns_lt (fun cells hcells cell hcell => ?_)
      (List.forall_mem_map.2 fun name hname => Nat.lt_trans (h.short name hname) (by decide))
    have hlen := h.cells cells hcells cell hcell
    have hdisplay : display startsChar cell ≤ cell.length := display_le_length cell
    omega
  rw [printCells, hprinter, ← hshown]
  exact ⟨(printTable_cases (new_printerBuffered _) hrows' out).1 hfit,
    aligned_buffered hplain hshort hrows⟩

theorem length_yesNo_lt (b : Bool) : (yesNo b).length < 256 := by
  cases b <;> decide

/-- A default that can be printed comes from an array of at most 256 bytes. -/
theorem length_defaultCell_lt {unwritten : Unwritten} {printFloat : FloatFormat} {column : Column}
    (hcolumn : column.resolvedType.Sound) {default : Text}
    (h : defaultCell unwritten printFloat column = .ok default) : default.length < 256 := by
  unfold defaultCell at h
  split at h
  · obtain ⟨buf, hbuf, h⟩ := Checked.bind_eq_ok.1 h
    obtain ⟨-, rest, hrest⟩ := printString_eq_ok.1 h
    have hlen := length_formatDisplay hbuf
    have hwidth : column.displayWidth < 256 := displayWidth_lt hcolumn
    rw [Vector.length_toList, hrest, List.length_append, List.length_cons] at hlen
    omega
  · cases h
    decide

theorem showable_tables {T : Type} {K : TableKind T} {tables : List T} (h : SoundTables K tables) :
    Showable showTablesNames (tables.map fun t => [K.name t]) where
  plain := plain_of_all (by decide)
  short := by decide
  lengths := List.forall_mem_map.2 fun t _ => rfl
  cells := List.forall_mem_map.2 fun t ht => List.forall_mem_singleton.2
    (Nat.lt_of_le_of_lt (h.valid t ht).fits (by decide))

theorem showable_table {unwritten : Unwritten} {printFloat : FloatFormat} {schema : TableSchema}
    (hschema : PlannedTable schema) {indexMeta : IndexMeta}
    (h : showTableRows unwritten printFloat schema indexMeta = .ok rows) :
    Showable showTableNames rows := by
  have hrows : ∀ cells ∈ rows, ∃ column ∈ schema.columns, ∃ default hasIndex,
      defaultCell unwritten printFloat column = .ok default ∧
      cells = [column.columnName, column.resolvedType.resolvedTypeName, default,
        yesNo hasIndex] := by
    intro cells hcells
    obtain ⟨entry, hentry, hrow⟩ := forall₂_mem_right (mapM_eq_ok.1 h) hcells
    obtain ⟨hasIndex, -, hrow⟩ := Checked.bind_eq_ok.1 hrow
    obtain ⟨default, hdefault, hrow⟩ := Checked.bind_eq_ok.1 hrow
    cases hrow
    exact ⟨entry.1, List.fst_mem_of_mem_zipIdx hentry, default, hasIndex, hdefault, rfl⟩
  refine ⟨plain_of_all (by decide), by decide, fun cells hcells => ?_, fun cells hcells => ?_⟩
  · obtain ⟨column, -, default, hasIndex, -, rfl⟩ := hrows cells hcells
    rfl
  · obtain ⟨column, hcolumn, default, hasIndex, hdefault, rfl⟩ := hrows cells hcells
    have hplanned := hschema.columns column hcolumn
    have hname : column.columnName.length < 256 :=
      Nat.lt_of_le_of_lt hplanned.fits (by decide)
    have htype : column.resolvedType.resolvedTypeName.length < 256 := by
      obtain ⟨typeName, hasLen, len, hresolve⟩ := hplanned.type
      obtain ⟨-, -, -, hcopy⟩ := resolveType_eq_ok hresolve
      rw [hcopy]
      exact Nat.lt_of_le_of_lt (length_svToCstr_le _ 15) (by decide)
    have hcell := length_defaultCell_lt (hschema.sound.columns column hcolumn) hdefault
    simp only [List.forall_mem_cons]
    exact ⟨hname, htype, hcell, length_yesNo_lt _, nofun⟩

theorem length_partCell_lt (part : Option IndexPart) : (partCell part).length < 256 := by
  cases part with
  | none => decide
  | some part => exact Nat.lt_of_le_of_lt (List.length_take_le 63 _) (by decide)

theorem showable_index {schema : TableSchema} (hschema : SchemaSound schema)
    {indexMeta : IndexMeta} (hmeta : BuiltIndexes schema indexMeta)
    (h : showIndexRows indexMeta = .ok rows) : Showable showIndexNames rows := by
  have hplanned := (hmeta.planned hschema).1
  rw [showIndexRows_eq fun d hd => (hplanned d hd).type] at h
  cases h
  refine ⟨plain_of_all (by decide), by decide, List.forall_mem_map.2 fun d _ => rfl,
    List.forall_mem_map.2 fun d hd => ?_⟩
  have hname : d.name.length < 256 := Nat.lt_of_le_of_lt (hplanned d hd).fits (by decide)
  simp only [List.forall_mem_cons, List.forall_mem_map]
  exact ⟨hname, by decide, length_yesNo_lt _, fun j _ => length_partCell_lt _⟩

theorem showable_indexTypes : Showable showIndexTypesNames showIndexTypesRows where
  plain := plain_of_all (by decide)
  short := by decide
  lengths := by decide
  cells := by decide

end Showable

/-! ## The result -/

/-- The SHOW statements. -/
inductive IsShow : Query → Prop
  | tables : IsShow .showTables
  | table (stmt : ShowTableStmt) : IsShow (.showTable stmt)
  | index (stmt : ShowIndexStmt) : IsShow (.showIndex stmt)
  | indexTypes : IsShow .showIndexTypes

section Result

variable {strtof : Strtof} {unwritten : Unwritten} {printFloat : FloatFormat}

theorem showable_of_runs {T : Type} {K : TableKind T} {tables tables' : List T}
    (h : SoundTables K tables) {q : Query} (hshow : IsShow q) {names : List Text}
    {rows : List (List Text)}
    (hrun : Runs (pipelineRun K strtof unwritten printFloat q) tables (.ok (.cells names rows))
      tables') : Showable names rows := by
  -- the table of a statement that names one, and what its executor returns
  have honTable : ∀ {q : Query}, Runs (K.runOnTable unwritten printFloat q) tables
      (.ok (.cells names rows)) tables' → ∃ t ∈ tables, ∃ t',
        K.onTable unwritten printFloat t q = .ok (.ok (t', .cells names rows)) := by
    intro q hrun
    obtain ⟨t, pos, t', hlookup, hresult, -⟩ := TableKind.exists_of_runOnTable _ _ _ hrun
    exact ⟨t, List.mem_of_getElem? (lookupStages_eq_ok hlookup).1, t', hresult⟩
  cases hshow with
  | tables =>
    have hrest := Runs.rest (Runs.get tables) hrun
    cases hrest
    exact showable_tables h
  | indexTypes =>
    cases hrun
    exact showable_indexTypes
  | table stmt =>
    obtain ⟨t, ht, t', honTable⟩ := honTable hrun
    obtain ⟨rows', hrows, honTable⟩ := Checked.bind_eq_ok.1 honTable
    cases honTable
    exact showable_table (h.planned t ht) hrows
  | index stmt =>
    obtain ⟨t, ht, t', honTable⟩ := honTable hrun
    obtain ⟨rows', hrows, honTable⟩ := Checked.bind_eq_ok.1 honTable
    cases honTable
    exact showable_index (h.planned t ht).sound (h.built t ht) hrows

/-- After any script, the cells that a SHOW statement gets are printed as a table with lines of
one width, and its separators fit into their array. -/
theorem show_prints [UnionMemory] (strtof : Strtof) (unwritten : Unwritten)
    (printFloat : FloatFormat)
    (inputs : List Text) (answers : List (Except Error Response)) (tables tables' : List TableState)
    (hrun : Runs (script (engineRun (pipelineRun (databaseTables strtof) strtof unwritten
      printFloat)) inputs) [] answers tables) (q : Query) (hshow : IsShow q) (names : List Text)
    (rows : List (List Text))
    (hcells : Runs (pipelineRun (databaseTables strtof) strtof unwritten printFloat q) tables
      (.ok (.cells names rows)) tables') (out : Text) :
    Runs (printCells unwritten names rows) out ()
        (out ++ tableText (cellsColumns names rows) rows) ∧
      Aligned (cellsColumns names rows) rows := by
  have hsound : SoundTables (databaseTables strtof) tables :=
    script_invariant (fun _ _ _ _ hsound hrun =>
      hsound.engineRun (databaseTables_lawful strtof) hrun) (SoundTables.nil _) hrun
  exact (showable_of_runs hsound hshow hcells).prints unwritten out

end Result

open ClearedMemory

/-- What SHOW TABLE says of a table with a default and an index. -/
def setupColumns : List (List Text) :=
  [[text "c", text "char(2)", text "-", text "No"], [text "d", text "int", text "5", text "Yes"]]

/-- What SHOW INDEX says of its index. -/
def setupIndexes : List (List Text) :=
  [[text "i", text "btree", text "Yes", text "d(4)", text "c(1)", text "-", text "-"]]

theorem show_prints_setup :
    (Runs (printCells zeroed showTableNames setupColumns) [] ()
        (tableText (cellsColumns showTableNames setupColumns) setupColumns) ∧
      Aligned (cellsColumns showTableNames setupColumns) setupColumns) ∧
    Runs (printCells zeroed showIndexNames setupIndexes) [] ()
        (tableText (cellsColumns showIndexNames setupIndexes) setupIndexes) ∧
      Aligned (cellsColumns showIndexNames setupIndexes) setupIndexes :=
  ⟨show_prints noNumber zeroed halfFormat setupScript _ setupTables setupTables
      (runs_setupScript zeroed) (.showTable ⟨text "t"⟩) (.table _) showTableNames setupColumns
      rfl [],
    show_prints noNumber zeroed halfFormat setupScript _ setupTables setupTables
      (runs_setupScript zeroed) (.showIndex ⟨text "t"⟩) (.index _) showIndexNames setupIndexes
      rfl []⟩

end Maxql.View
