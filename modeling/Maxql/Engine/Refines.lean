import Mathlib.Data.List.InsertIdx
import Maxql.Engine.ExactChecks
import Maxql.Engine.IndexPlan

/-!
# The engine refines the logical table

A table with its data file and its indexes stands for a logical table.  Every
statement that the logical table admits has the same answer in both: the same
error with the same text, or the same output and tables that again belong
together.

* `Represents`: what a table and a logical table have to do with each other;
* `answerSelect_eq`: SELECT, whatever the planner decides;
* `answerStatement_matches`: a statement that changes the table.
-/

namespace Maxql

open Program Bytes KeyedList

/-! ## Tables that belong together -/

/-- The data file holds the rows of the logical table in their order, and the indexes are in
step. -/
structure Represents [UnionMemory] (t : TableState) (l : LogicalTable) : Prop where
  schema : t.schema = l.schema
  indexes : t.indexMeta = l.table.indexes
  rows : ∃ rows live, InSync t rows ∧ IndexedTable t live ∧
    (∀ offset row, rows offset = some row ↔ { row, offset } ∈ live) ∧
    live.map (·.row) = l.table.rows

theorem represents_create [UnionMemory] {schema : TableSchema} (h : SchemaSound schema) :
    Represents { schema, dataFile := [], indexes := [] } (LogicalTable.create schema) where
  schema := rfl
  indexes := rfl
  rows := by
    have hsync : InSync { schema, dataFile := [], indexes := [] } fun _ => none :=
      ⟨h, fileRows_empty, fun _ _ hrow => (by cases hrow),
        fun entry hentry => absurd hentry List.not_mem_nil,
        fun entry hentry => absurd hentry List.not_mem_nil⟩
    obtain ⟨live, ht, hlive⟩ := hsync.indexedTable
    have hscan : tableScan [] schema = .ok [] := rfl
    obtain rfl : [] = live := Except.ok.inj (hscan.symm.trans ht.scan)
    exact ⟨_, [], hsync, ht, hlive, rfl⟩

theorem InSync.typedFile {t : TableState} {rows : Nat → Option DataRow} (h : InSync t rows) :
    TypedFile t.schema t.dataFile rows :=
  ⟨h.schema.count, h.schema.columns, h.file, h.typed⟩

/-- Tables belong together if a scan gives the rows. -/
theorem InSync.represents [UnionMemory] {t : TableState} {rows : Nat → Option DataRow}
    (h : InSync t rows) {l : LogicalTable} {live : List StoredRow} (hschema : t.schema = l.schema)
    (hindexes : t.indexMeta = l.table.indexes)
    (hscan : tableScan t.dataFile t.schema = .ok live)
    (hrows : live.map (·.row) = l.table.rows) : Represents t l := by
  obtain ⟨live', ht, hlive⟩ := h.indexedTable
  obtain rfl : live = live' := Except.ok.inj (hscan.symm.trans ht.scan)
  exact ⟨hschema, hindexes, rows, live, h, ht, hlive, hrows⟩

/-! ## What a statement leaves as it is -/

section Kept

variable [UnionMemory] {indexes indexes' : IndexSet}

theorem indexSetInsert_meta {values : DataRow} {offset : Nat}
    (h : indexSetInsert indexes values offset = .ok indexes') :
    indexes'.map Prod.fst = indexes.map Prod.fst := by
  induction indexes generalizing indexes' with
  | nil =>
    cases h
    rfl
  | cons entry indexes ih =>
    obtain ⟨index, -, h⟩ := Checked.bind_eq_ok.1 h
    obtain ⟨rest, hrest, h⟩ := Checked.bind_eq_ok.1 h
    cases h
    rw [List.map_cons, ih hrest, List.map_cons]

theorem indexSetDelete_meta {values : DataRow} {all : Bool}
    (h : indexSetDelete indexes values = .ok (all, indexes')) :
    indexes'.map Prod.fst = indexes.map Prod.fst := by
  induction indexes generalizing all indexes' with
  | nil =>
    cases h
    rfl
  | cons entry indexes ih =>
    obtain ⟨⟨deleted, index⟩, -, h⟩ := Checked.bind_eq_ok.1 h
    cases deleted with
    | false =>
      cases h
      rfl
    | true =>
      obtain ⟨⟨all', rest⟩, hrest, h⟩ := Checked.bind_eq_ok.1 h
      cases h
      rw [List.map_cons, ih hrest, List.map_cons]

theorem deleteFromIndexes_meta {rows : List StoredRow}
    (h : deleteFromIndexes rows indexes = .ok indexes') :
    indexes'.map Prod.fst = indexes.map Prod.fst := by
  induction rows generalizing indexes with
  | nil =>
    cases h
    rfl
  | cons x rows ih =>
    obtain ⟨⟨all, indexes₁⟩, hdelete, h⟩ := Checked.bind_eq_ok.1 h
    rw [ih h, indexSetDelete_meta hdelete]

theorem writeUpdates_meta {pairs : List UpdatePair} {t t' : TableState}
    (h : writeUpdates pairs t = .ok t') : t'.schema = t.schema ∧ t'.indexMeta = t.indexMeta := by
  induction pairs generalizing t with
  | nil =>
    cases h
    exact ⟨rfl, rfl⟩
  | cons pair pairs ih =>
    obtain ⟨⟨dataFile, offset⟩, -, h⟩ := Checked.bind_eq_ok.1 h
    obtain ⟨⟨all, indexes₁⟩, hdelete, h⟩ := Checked.bind_eq_ok.1 h
    obtain ⟨indexes₂, hinsert, h⟩ := Checked.bind_eq_ok.1 h
    obtain ⟨hschema, hmeta⟩ := ih h
    exact ⟨hschema, hmeta.trans ((indexSetInsert_meta hinsert).trans (indexSetDelete_meta hdelete))⟩

end Kept

/-! ## The stages in front -/

section Stages

variable {strtof : Strtof} {t : TableState} {l : LogicalTable}

/-- The stages look at the schema and the definitions of the indexes only. -/
theorem analyzeSelect_bare (h : t.schema = l.schema) (stmt : SelectStmt) :
    analyzeSelect strtof l.bare stmt = analyzeSelect strtof t stmt := by
  unfold analyzeSelect analyzeTable findTable
  rw [h]
  rfl

theorem analyzeInsert_bare (strtof : Strtof) (h : t.schema = l.schema) (stmt : InsertStmt) :
    analyzeInsert strtof l.bare stmt = analyzeInsert strtof t stmt := by
  unfold analyzeInsert analyzeTable findTable
  rw [h]
  rfl

theorem analyzeDelete_bare (h : t.schema = l.schema) (stmt : DeleteStmt) :
    analyzeDelete strtof l.bare stmt = analyzeDelete strtof t stmt := by
  unfold analyzeDelete analyzeTable findTable
  rw [h]
  rfl

theorem analyzeUpdate_bare (h : t.schema = l.schema) (stmt : UpdateStmt) :
    analyzeUpdate strtof l.bare stmt = analyzeUpdate strtof t stmt := by
  unfold analyzeUpdate analyzeTable findTable
  rw [h]
  rfl

theorem planTable_bare (h : t.schema = l.schema) (table : Text) :
    planTable l.bare table = planTable t table := by
  unfold planTable findTable
  rw [h]
  rfl

theorem planDropIndex_bare (h : t.schema = l.schema) (hindexes : t.indexMeta = l.table.indexes)
    (stmt : DropIndexStmt) : planDropIndex l.bare stmt = planDropIndex t stmt := by
  unfold planDropIndex
  rw [LogicalTable.bare_indexMeta, hindexes, h]
  rfl

/-- After the stages in front, the executors match. -/
theorem matches_stages [UnionMemory] {α : Type} {stages : Except Error α}
    {execute : α → Checked (Except Error (TableState × Response))}
    {spec : α → Except Error (LogicalTable × Response)}
    (h : ∀ plan, stages = .ok plan → ∃ result, execute plan = .ok result ∧
      Matches Represents result (spec plan)) :
    ∃ result, runStages stages execute = .ok result ∧
      Matches Represents result (stages >>= spec) := by
  cases stages with
  | error e => exact ⟨_, rfl, .error e⟩
  | ok plan => exact h plan rfl

/-- What is printed is added behind the stages. -/
theorem runStages_map {α : Type} {stages : Except Error α}
    {execute : α → Checked (Except Error TableState)} {response : Response} :
    (do return (← runStages stages execute).map (·, response) :
        Checked (Except Error (TableState × Response)))
      = runStages stages fun plan => do return (← execute plan).map (·, response) := by
  cases stages <;> rfl

end Stages

/-! ## Statements -/

section Statements

variable {strtof : Strtof} {t : TableState} {l : LogicalTable}

/-- The rows that a filter keeps, before and after the offsets are forgotten. -/
theorem filter_rows {live : List StoredRow} {rows : List DataRow}
    (h : live.map (·.row) = rows) (p : DataRow → Bool) :
    (live.filter fun x => p x.row).map (·.row) = rows.filter p := by
  rw [← h, List.filter_map]
  rfl

theorem length_filter_rows {live : List StoredRow} {rows : List DataRow}
    (h : live.map (·.row) = rows) (p : DataRow → Bool) :
    (live.filter fun x => p x.row).length = (rows.filter p).length := by
  rw [← filter_rows h p, List.length_map]

theorem floatsExact_of_logical {live : List StoredRow} (hrows : live.map (·.row) = l.table.rows)
    {conditions : List Condition} (h : l.ComparesExactly strtof conditions) {filter : WhereFilter}
    (hfilter : analyzeWhereConditions strtof conditions l.schema = .ok filter) :
    FloatsExact live filter := by
  intro x hx
  apply h filter hfilter
  rw [← hrows]
  exact List.mem_map_of_mem hx

variable [UnionMemory]

/-- SELECT gets the rows of the logical table that pass, whatever the planner decides. -/
theorem Represents.select_spec (h : Represents t l) {stmt : SelectStmt}
    (hexact : l.ComparesExactly strtof stmt.conditions) {plan : SelectExecPlan}
    (hplan : (do validateSelect stmt; analyzeSelect strtof t stmt) = .ok plan) :
    ∃ decision stored, planSelect t plan = .ok decision ∧
      executeSelect t plan decision = .ok stored ∧
      stored.map (·.row) = l.table.rows.filter (passes plan.filter) := by
  obtain ⟨rows, live, -, ht, -, hrows⟩ := h.rows
  obtain ⟨-, -, hanalyze⟩ := bind_eq_ok.1 hplan
  obtain ⟨-, -, hanalyze⟩ := bind_eq_ok.1 hanalyze
  obtain ⟨order, -, hanalyze⟩ := bind_eq_ok.1 hanalyze
  obtain ⟨filter, hfilter, hanalyze⟩ := bind_eq_ok.1 hanalyze
  cases hanalyze
  have hfloats := floatsExact_of_logical hrows hexact (h.schema ▸ hfilter)
  obtain ⟨decision, hselect, hmatched, hscan⟩ :=
    ht.matchedRows_spec (analyzeWhere_typed hfilter) hfloats
  unfold planSelect
  cases stmt.ignoreIndex with
  | true => exact ⟨none, _, rfl, hscan, filter_rows hrows _⟩
  | false => exact ⟨decision, _, hselect, hmatched, filter_rows hrows _⟩

/-- The rows of a logical table are of the types of its columns. -/
theorem Represents.rowTyped (h : Represents t l) :
    ∀ row ∈ l.table.rows, RowTyped t.schema.columns row := by
  obtain ⟨rows, live, hsync, -, hlive, hrows⟩ := h.rows
  intro row hrow
  rw [← hrows] at hrow
  obtain ⟨stored, hstored, rfl⟩ := List.mem_map.1 hrow
  exact hsync.typed stored.offset stored.row ((hlive stored.offset stored.row).2 hstored)

/-- SELECT prints the rows of the logical table that pass. -/
theorem answerSelect_eq (h : Represents t l) {stmt : SelectStmt}
    (hexact : l.ComparesExactly strtof stmt.conditions) :
    answerSelect strtof t stmt = .ok (l.select strtof stmt) := by
  unfold answerSelect LogicalTable.select
  rw [analyzeSelect_bare h.schema]
  cases hplan : (do validateSelect stmt; analyzeSelect strtof t stmt) with
  | error e => rfl
  | ok plan =>
    obtain ⟨decision, stored, hdecision, hexecute, hstored⟩ := h.select_spec hexact hplan
    show planSelect t plan >>= _ = _
    rw [hdecision, Checked.ok_bind, hexecute, Checked.ok_bind]
    show Except.ok (Except.ok (Response.rows plan.queryColumnOrder _))
      = Except.ok (Except.ok (Response.rows plan.queryColumnOrder _))
    rw [← hstored, List.map_map]
    rfl

/-- A statement that stores no row keeps the indexes in step. -/
theorem keepsIndexes_of_handsNone {s : Statement} (hinsert : ∀ stmt, s ≠ .insert stmt)
    (hupdate : ∀ stmt, s ≠ .update stmt) : KeepsIndexes strtof t s where
  assigns := fun stmt _ hs => absurd hs (hupdate stmt)
  blanks := by
    intro values hhands
    cases hhands with
    | insert => exact absurd rfl (hinsert _)
    | update => exact absurd rfl (hupdate _)
  keys := fun stmt _ _ _ hs => absurd hs (hupdate stmt)

/-- The indexes are in step after a statement that ran to its end. -/
theorem InSync.after {rows : Nat → Option DataRow} (h : InSync t rows) {s : Statement}
    (hs : KeepsIndexes strtof t s) {t' : TableState} {response : Response}
    (hrun : answerStatement strtof t s = .ok (.ok (t', response))) : ∃ rows', InSync t' rows' :=
  h.step hs (statementStep_of_run (answerStatement_state hrun))

/-- A row of the logical table with the key of `values`, seen from the indexes. -/
theorem taken_eq {live : List StoredRow} (ht : IndexedTable t live)
    (hrows : live.map (·.row) = l.table.rows) {entry : IndexDefinition × KeyMap}
    (hentry : entry ∈ t.indexes) {values stored : DataRow}
    (hkey : keyBytes entry.1 stored = keyBytes entry.1 values) :
    l.table.taken entry.1 stored = (entry.2 (keyBytes entry.1 values)).isSome := by
  rw [Bool.eq_iff_iff, Keyed.taken_iff, ← hrows, Option.isSome_iff_exists, hkey]
  constructor
  · rintro ⟨row, hrow, heq⟩
    obtain ⟨x, hx, rfl⟩ := List.mem_map.1 hrow
    exact ⟨x.offset, (ht.lookup hentry).2 ⟨x, hx, rfl, heq⟩⟩
  · rintro ⟨offset, hlook⟩
    obtain ⟨x, hx, -, heq⟩ := (ht.lookup hentry).1 hlook
    exact ⟨x.row, List.mem_map_of_mem hx, heq⟩

omit [UnionMemory] in
/-- The scan of a table to which a row has been added. -/
theorem InSync.scan_store {rows : Nat → Option DataRow} {live : List StoredRow}
    (h : InSync t rows) (hasc : live.Pairwise fun x y => x.offset < y.offset)
    (hlive : ∀ offset row, rows offset = some row ↔ { row, offset } ∈ live) {t' : TableState}
    {row : DataRow}
    (h' : InSync t' (Function.update rows t.dataFile.length (some row))) :
    tableScan t'.dataFile t'.schema
      = .ok (live ++ [{ row, offset := t.dataFile.length }]) := by
  have hfresh := h.file.fresh (Nat.le_refl t.dataFile.length)
  apply h'.typedFile.scan_eq
  · rw [List.pairwise_append]
    refine ⟨hasc, List.pairwise_singleton _ _, fun x hx y hy => ?_⟩
    obtain rfl := List.mem_singleton.1 hy
    show x.offset < t.dataFile.length
    by_contra hge
    have hnone := h.file.fresh (Nat.not_lt.1 hge)
    rw [(hlive x.offset x.row).2 hx] at hnone
    cases hnone
  · intro offset row'
    rw [List.mem_append, List.mem_singleton, StoredRow.mk.injEq]
    by_cases hoffset : offset = t.dataFile.length
    · subst hoffset
      rw [Function.update_self, ← hlive, hfresh, Option.some.injEq]
      simp [eq_comm]
    · rw [Function.update_of_ne hoffset, hlive]
      simp [hoffset]

theorem answerInsert_matches (h : Represents t l) {stmt : InsertStmt}
    (hadmits : l.Admits strtof (.insert stmt)) :
    ∃ result, answerStatement strtof t (.insert stmt) = .ok result ∧
      Matches Represents result (l.insert strtof stmt) := by
  have hrun : answerStatement strtof t (.insert stmt) = runStages
      (do validateInsert stmt; analyzeInsert strtof t stmt)
      fun values => do return (← executeInsert t values).map (·, .affectedRows 1) := runStages_map
  rw [hrun]
  unfold LogicalTable.insert
  rw [analyzeInsert_bare strtof h.schema]
  refine matches_stages fun values hplan => ?_
  obtain ⟨rows, live, hsync, ht, hlive, hrows⟩ := h.rows
  obtain ⟨-, -, hanalyze⟩ := bind_eq_ok.1 hplan
  have hrow := analyzeInsert_typed hsync.schema hanalyze
  have hhanded : l.handsOver strtof (.insert stmt) = [values] := by
    apply LogicalTable.handsOver_insert
    rw [analyzeInsert_bare strtof h.schema, hplan]
  have hblanks : ∀ entry ∈ t.indexes, BlanksBehind t.schema entry.1 values := by
    intro entry hentry
    rw [h.schema]
    apply hadmits.blanks values (hhanded ▸ List.mem_singleton_self values)
    rw [← h.indexes]
    exact List.mem_map_of_mem hentry
  have hkey : ∀ entry ∈ t.indexes, keyBytes entry.1 (storedRow l.schema.columns values)
      = keyBytes entry.1 values := by
    intro entry hentry
    rw [← h.schema]
    exact keyBytes_storedRow hsync.schema.columns (hsync.valid entry hentry) hrow
      (hblanks entry hentry)
  have hcheck := indexSetHasDuplicate_find
    (q := fun indexDef => l.table.taken indexDef (storedRow l.schema.columns values))
    (hsync.hasKeys hrow) fun entry hentry => taken_eq ht hrows hentry (hkey entry hentry)
  have hmeta : t.indexes.map Prod.fst = l.table.indexes := h.indexes
  rw [hmeta] at hcheck
  unfold executeInsert
  rw [hcheck, Checked.ok_bind]
  cases hfind : l.table.indexes.find? fun indexDef =>
      l.table.taken indexDef (storedRow l.schema.columns values) with
  | some indexDef =>
    rw [Keyed.insert_of_taken hfind]
    exact ⟨_, rfl, .error _⟩
  | none =>
    obtain ⟨table, hinsert, hindexes, htable⟩ := Keyed.exists_insert hfind
    rw [hinsert]
    have hfree : ∀ entry ∈ t.indexes, entry.2 (keyBytes entry.1 values) = none := by
      intro entry hentry
      have hnot := List.find?_eq_none.1 hfind entry.1 (hmeta ▸ List.mem_map_of_mem hentry)
      rw [taken_eq ht hrows hentry (hkey entry hentry)] at hnot
      simpa using hnot
    obtain ⟨dataFile, indexes, hstore, hindex, -, hsame, hsync'⟩ := hsync.store hrow hblanks hfree
    refine ⟨.ok ({ t with dataFile, indexes }, .affectedRows 1), ?_, .ok ?_ _⟩
    · simp only [hstore, Checked.ok_bind, hindex]
      rfl
    · have hscan := hsync.scan_store (tableScan_ascending ht.scan) hlive hsync'
      refine hsync'.represents h.schema ?_ hscan ?_
      · exact hsame.trans (h.indexes.trans hindexes.symm)
      · rw [List.map_append, hrows, htable, ← h.schema]
        rfl

theorem answerDelete_matches (h : Represents t l) {stmt : DeleteStmt}
    (hadmits : l.Admits strtof (.delete stmt)) :
    ∃ result, answerStatement strtof t (.delete stmt) = .ok result ∧
      Matches Represents result (l.delete strtof stmt) := by
  unfold LogicalTable.delete
  rw [analyzeDelete_bare h.schema]
  refine matches_stages fun filter hplan => ?_
  obtain ⟨rows, live, hsync, ht, hlive, hrows⟩ := h.rows
  obtain ⟨-, -, hanalyze⟩ := bind_eq_ok.1 hplan
  obtain ⟨-, -, hfilter⟩ := bind_eq_ok.1 hanalyze
  have hfloats := floatsExact_of_logical hrows hadmits.exact (h.schema ▸ hfilter)
  obtain ⟨decision, hselect, hmatched, hnoindex⟩ :=
    ht.matchedRows_spec (analyzeWhere_typed hfilter) hfloats
  have hvalid : ∀ d ∈ t.indexMeta, d.Valid t.schema := by
    intro d hd
    obtain ⟨entry, hentry, rfl⟩ := List.mem_map.1 hd
    exact hsync.valid entry hentry
  obtain ⟨⟨t', hexecute, hschema, hscan⟩, hcount⟩ := hsync.typedFile.executeDelete hvalid ht.scan
    hlive (analyzeWhere_typed hfilter)
  -- the plan gives the rows of the scan
  have hplain : executeDelete t filter decision = executeDelete t filter none := by
    unfold executeDelete
    rw [hmatched, hnoindex]
  have hplainCount : deleteAffectedRows t filter decision = deleteAffectedRows t filter none := by
    unfold deleteAffectedRows
    rw [hmatched, hnoindex]
  have hanswer : (do
      let decision ← planDelete t filter
      let count ← deleteAffectedRows t filter decision
      return (← executeDelete t filter decision).map (·, Response.affectedRows count) :
        Checked (Except Error (TableState × Response)))
      = .ok (.ok (t', .affectedRows (l.table.rows.filter (passes filter)).length)) := by
    show selectBestIndex filter t.indexMeta >>= _ = _
    rw [hselect, Checked.ok_bind, hplainCount, hcount, Checked.ok_bind, hplain, hexecute,
      length_filter_rows hrows]
    rfl
  refine ⟨_, hanswer, .ok ?_ _⟩
  have hrun : answerStatement strtof t (.delete stmt)
      = .ok (.ok (t', .affectedRows (l.table.rows.filter (passes filter)).length)) := by
    show runStages _ _ = _
    rw [hplan]
    exact hanswer
  have hkeeps : KeepsIndexes strtof t (.delete stmt) :=
    keepsIndexes_of_handsNone (fun _ hs => (by cases hs)) fun _ hs => (by cases hs)
  obtain ⟨rows', hsync'⟩ := hsync.after hkeeps hrun
  refine hsync'.represents (hschema.trans h.schema) ?_ hscan ?_
  · obtain ⟨matched, -, hexecute⟩ := Checked.bind_eq_ok.1 hexecute
    obtain ⟨indexes, hindexes, hexecute⟩ := Checked.bind_eq_ok.1 hexecute
    have hmeta := deleteFromIndexes_meta hindexes
    refine Eq.trans ?_ h.indexes
    split at hexecute
    · cases hexecute
      rfl
    · cases hexecute
      exact hmeta
  · exact filter_rows hrows fun row => !passes filter row

end Statements

/-! ## UPDATE -/

section Update

variable {strtof : Strtof} {t : TableState} {l : LogicalTable}

theorem analyzeUpdate_assigns {stmt : UpdateStmt} {plan : UpdateExecPlan}
    (hplan : (do validateUpdate stmt; analyzeUpdate strtof t stmt) = .ok plan)
    (hfits : AssignsEach (fun c v => resolvedTypeValidate c.resolvedType v = .ok) t.schema.columns
      plan.values) : AssignsColumns t.schema.columns plan.values := by
  have happly := (analyzeUpdate_apart hplan).2
  refine ⟨happly.distinct, fun q hq => ?_⟩
  have hlt : q.1 < t.schema.columns.length := happly.inside q hq
  exact ⟨_, List.getElem?_eq_getElem hlt, hfits q hq _ (List.getElem?_eq_getElem hlt)⟩

variable [UnionMemory]

/-- The pairs of an UPDATE, one for each row that changes. -/
def changedPairs (plan : UpdateExecPlan) (live : List StoredRow) : List UpdatePair :=
  (live.filter fun x => isChanged plan x.row).map fun x =>
    { original := x, updated := assignedRow plan.values x.row }

theorem mem_changedPairs {plan : UpdateExecPlan} {live : List StoredRow} {pair : UpdatePair} :
    pair ∈ changedPairs plan live ↔ ∃ x ∈ live, isChanged plan x.row = true ∧
      pair = { original := x, updated := assignedRow plan.values x.row } := by
  unfold changedPairs
  rw [List.mem_map]
  constructor
  · rintro ⟨x, hx, rfl⟩
    obtain ⟨hx, hchanged⟩ := List.mem_filter.1 hx
    exact ⟨x, hx, hchanged, rfl⟩
  · rintro ⟨x, hx, hchanged, rfl⟩
    exact ⟨x, List.mem_filter.2 ⟨hx, hchanged⟩, rfl⟩

/-- The rows that the pairs hand to `storage_insert_row`. -/
theorem updated_changedPairs {plan : UpdateExecPlan} {live : List StoredRow}
    {rows : List DataRow} (hrows : live.map (·.row) = rows) :
    (changedPairs plan live).map (·.updated)
      = (rows.filter (isChanged plan)).map (assignedRow plan.values) := by
  unfold changedPairs
  rw [← filter_rows hrows, List.map_map, List.map_map]
  rfl

/-- An UPDATE that is about to check its rows. -/
structure ReadyToUpdate (strtof : Strtof) (t : TableState) (l : LogicalTable) (stmt : UpdateStmt)
    (plan : UpdateExecPlan) (rows : Nat → Option DataRow) (live : List StoredRow) : Prop where
  sync : InSync t rows
  table : IndexedTable t live
  places : ∀ offset row, rows offset = some row ↔ { row, offset } ∈ live
  logical : live.map (·.row) = l.table.rows
  schema : t.schema = l.schema
  indexes : t.indexMeta = l.table.indexes
  planned : (do validateUpdate stmt; analyzeUpdate strtof t stmt) = .ok plan
  filter : FilterTyped t.schema plan.filter
  values : AssignsColumns t.schema.columns plan.values
  blanks : ∀ pair ∈ changedPairs plan live, ∀ d ∈ t.indexMeta,
    BlanksBehind t.schema d pair.updated
  columns : ∀ d ∈ t.indexMeta, (changedPairs plan live).Pairwise fun a b =>
    EqualIn d a.updated b.updated ↔ keyBytes d a.updated = keyBytes d b.updated

variable {stmt : UpdateStmt} {plan : UpdateExecPlan} {rows : Nat → Option DataRow}
  {live : List StoredRow}

theorem ReadyToUpdate.of_admits (hsync : InSync t rows) (ht : IndexedTable t live)
    (hlive : ∀ offset row, rows offset = some row ↔ { row, offset } ∈ live)
    (hrows : live.map (·.row) = l.table.rows) (hschema : t.schema = l.schema)
    (hindexes : t.indexMeta = l.table.indexes)
    (hplan : (do validateUpdate stmt; analyzeUpdate strtof t stmt) = .ok plan)
    (hadmits : l.Admits strtof (.update stmt)) :
    ReadyToUpdate strtof t l stmt plan rows live := by
  have hbare : (do validateUpdate stmt; analyzeUpdate strtof l.bare stmt) = .ok plan := by
    rw [analyzeUpdate_bare hschema, hplan]
  have hhanded : l.handsOver strtof (.update stmt)
      = (changedPairs plan live).map (·.updated) := by
    rw [LogicalTable.handsOver_update hbare, updated_changedPairs hrows]
  have hfits := hadmits.fits stmt plan rfl hbare
  rw [← hschema] at hfits
  refine ⟨hsync, ht, hlive, hrows, hschema, hindexes, hplan, (analyzeUpdate_apart hplan).1,
    analyzeUpdate_assigns hplan hfits, ?_, ?_⟩
  · intro pair hpair d hd
    rw [hschema]
    exact hadmits.blanks _ (hhanded ▸ List.mem_map_of_mem hpair) d (hindexes ▸ hd)
  · intro d hd
    have hcolumns := hadmits.columns d (hindexes ▸ hd)
    rw [hhanded, List.pairwise_map] at hcolumns
    exact hcolumns

namespace ReadyToUpdate

variable (h : ReadyToUpdate strtof t l stmt plan rows live)
include h

theorem typed : ∀ x ∈ live, rows x.offset = some x.row ∧ RowTyped t.schema.columns x.row :=
  h.sync.typedFile.typedRows h.places

theorem updated_typed {pair : UpdatePair} (hpair : pair ∈ changedPairs plan live) :
    rows pair.original.offset = some pair.original.row ∧
      RowTyped t.schema.columns pair.updated := by
  obtain ⟨x, hx, -, rfl⟩ := mem_changedPairs.1 hpair
  obtain ⟨hrow, htyped⟩ := h.typed x hx
  exact ⟨hrow, h.values.rowTyped htyped⟩

theorem valid : ∀ d ∈ t.indexMeta, d.Valid t.schema := by
  intro d hd
  obtain ⟨entry, hentry, rfl⟩ := List.mem_map.1 hd
  exact h.sync.valid entry hentry

theorem offsets : (changedPairs plan live).Pairwise fun a b =>
    a.original.offset < b.original.offset := by
  unfold changedPairs
  rw [List.pairwise_map]
  exact (tableScan_ascending h.table.scan).sublist List.filter_sublist

/-- The key of an updated row, before and after it is stored. -/
theorem key_stored {pair : UpdatePair} (hpair : pair ∈ changedPairs plan live)
    {d : IndexDefinition} (hd : d ∈ t.indexMeta) :
    keyBytes d (LogicalTable.updatedRow l.schema plan pair.original.row)
      = keyBytes d pair.updated := by
  have hkey := keyBytes_storedRow h.sync.schema.columns (h.valid d hd) (h.updated_typed hpair).2
    (h.blanks pair hpair d hd)
  obtain ⟨x, -, -, rfl⟩ := mem_changedPairs.1 hpair
  rw [LogicalTable.updatedRow, ← h.schema]
  exact hkey

/-- What `index_set_has_conflict` asks is whether the key would move to one that is taken. -/
theorem moves_iff {pair : UpdatePair} (hpair : pair ∈ changedPairs plan live)
    {entry : IndexDefinition × KeyMap} (hentry : entry ∈ t.indexes) :
    l.table.moves (LogicalTable.updatedRow l.schema plan) pair.original.row entry.1 = true ↔
      ∃ o, entry.2 (keyBytes entry.1 pair.updated) = some o ∧ pair.original.offset ≠ o := by
  have hkey := h.key_stored hpair (List.mem_map_of_mem hentry)
  have htaken := taken_eq h.table h.logical hentry hkey
  obtain ⟨x, hx, -, rfl⟩ := mem_changedPairs.1 hpair
  have hself := (h.table.lookup hentry).2 ⟨x, hx, rfl, rfl⟩
  rw [Keyed.moves_iff, htaken, hkey, Option.isSome_iff_exists]
  constructor
  · rintro ⟨hne, o, hlook⟩
    refine ⟨o, hlook, ?_⟩
    rintro rfl
    obtain ⟨y, hy, hoffset, heq⟩ := (h.table.lookup hentry).1 hlook
    rw [eq_of_offset_eq (tableScan_ascending h.table.scan) hy hx hoffset] at heq
    exact hne heq.symm
  · rintro ⟨o, hlook, hne⟩
    refine ⟨?_, o, hlook⟩
    intro heq
    simp only at hlook
    rw [heq, hself] at hlook
    exact hne (Option.some.inj hlook)

/-- The keys of the updated rows, before and after they are stored. -/
theorem keys_stored {d : IndexDefinition} (hd : d ∈ t.indexMeta) :
    ((l.table.rows.filter (isChanged plan)).map fun row =>
      keyBytes d (LogicalTable.updatedRow l.schema plan row))
        = (changedPairs plan live).map fun pair => keyBytes d pair.updated := by
  have hmap : (changedPairs plan live).map (fun pair => keyBytes d pair.updated)
      = (changedPairs plan live).map fun pair =>
        keyBytes d (LogicalTable.updatedRow l.schema plan pair.original.row) :=
    List.map_congr_left fun pair hpair => (h.key_stored hpair hd).symm
  rw [hmap, changedPairs, ← filter_rows h.logical, List.map_map, List.map_map]
  rfl

/-- Two updated rows have one key where they agree in the columns of the index. -/
theorem shared_iff {d : IndexDefinition} (hd : d ∈ t.indexMeta) :
    ((l.table.rows.filter (isChanged plan)).map fun row =>
        keyBytes d (LogicalTable.updatedRow l.schema plan row)).Nodup ↔
      (changedPairs plan live).Pairwise fun a b => ¬EqualIn d a.updated b.updated := by
  rw [h.keys_stored hd, List.Nodup, List.pairwise_map]
  have hcolumns := h.columns d hd
  constructor
  · intro hne
    exact (hne.and hcolumns).imp fun ⟨hne, hiff⟩ hequal => hne (hiff.1 hequal)
  · intro hne
    exact (hne.and hcolumns).imp fun ⟨hne, hiff⟩ hequal => hne (hiff.2 hequal)

/-- The checks refuse what the logical table refuses, for the same index. -/
theorem checkUpdates_eq : checkUpdates t (changedPairs plan live) = .ok (
    match l.table.firstMoved (isChanged plan) (LogicalTable.updatedRow l.schema plan) with
    | some d => .error (duplicateError d)
    | none =>
      match l.table.firstShared (isChanged plan) (LogicalTable.updatedRow l.schema plan) with
      | some d => .error (batchError d)
      | none => .ok ()) := by
  have hmeta : t.indexes.map Prod.fst = l.table.indexes := h.indexes
  have hconflict := updateConflict_find
    (q := fun pair d =>
      l.table.moves (LogicalTable.updatedRow l.schema plan) pair.original.row d)
    (fun pair hpair => h.sync.hasKeys (h.updated_typed hpair).2)
    fun pair hpair entry hentry => h.moves_iff hpair hentry
  have hbatch := batchCheckUniqueKeys_find
    (q := fun d => !decide ((l.table.rows.filter (isChanged plan)).map fun row =>
      keyBytes d (LogicalTable.updatedRow l.schema plan row)).Nodup)
    h.sync.valid (fun pair hpair => (h.updated_typed hpair).2.ofTypes)
    fun entry hentry => by
      rw [← h.shared_iff (List.mem_map_of_mem hentry)]
      simp
  have hmoved : ((changedPairs plan live).findSome? fun pair => l.table.indexes.find?
      (l.table.moves (LogicalTable.updatedRow l.schema plan) pair.original.row))
        = l.table.firstMoved (isChanged plan) (LogicalTable.updatedRow l.schema plan) := by
    unfold Keyed.firstMoved changedPairs
    rw [← filter_rows h.logical, List.findSome?_map, List.findSome?_map]
    rfl
  rw [hmeta] at hconflict hbatch
  rw [checkUpdates, hconflict, Checked.ok_bind, hmoved, hbatch]
  cases l.table.firstMoved (isChanged plan) (LogicalTable.updatedRow l.schema plan) with
  | some d => rfl
  | none =>
    show (match l.table.firstShared (isChanged plan) (LogicalTable.updatedRow l.schema plan) with
      | some d => Except.ok (.error (batchError d))
      | none => Except.ok (.ok ()) : Checked (Except Error Unit)) = _
    cases l.table.firstShared (isChanged plan) (LogicalTable.updatedRow l.schema plan) <;> rfl

/-- The rows that change, whatever the planner decides. -/
theorem exists_decision (hfloats : FloatsExact live plan.filter) :
    ∃ decision, planUpdate t plan = .ok decision ∧
      collectUpdates t plan decision = .ok (changedPairs plan live) := by
  obtain ⟨decision, hselect, hmatched, hnoindex⟩ := h.table.matchedRows_spec h.filter hfloats
  refine ⟨decision, hselect, ?_⟩
  have hplain : collectUpdates t plan decision = collectUpdates t plan none := by
    unfold collectUpdates
    rw [hmatched, hnoindex]
  rw [hplain]
  exact collectUpdates_scan h.table.scan (fun x hx => (h.typed x hx).2.ofTypes) h.filter h.values

theorem keepsIndexes {decision : Option IndexDecision}
    (hdecision : planUpdate t plan = .ok decision)
    (hpairs : collectUpdates t plan decision = .ok (changedPairs plan live))
    (hshared : l.table.firstShared (isChanged plan) (LogicalTable.updatedRow l.schema plan)
      = none) :
    KeepsIndexes strtof t (.update stmt) where
  assigns := by
    intro stmt' plan' hstmt hplan'
    cases hstmt
    cases h.planned.symm.trans hplan'
    exact h.values.each
  blanks := by
    intro values hhands d hd
    cases hhands with
    | update hplan' hdecision' hpairs' _ hpair =>
      cases h.planned.symm.trans hplan'
      cases hdecision.symm.trans hdecision'
      cases hpairs.symm.trans hpairs'
      exact h.blanks _ hpair d hd
  keys := by
    intro stmt' plan' decision' pairs hstmt hplan' hdecision' hpairs' _ d hd
    cases hstmt
    cases h.planned.symm.trans hplan'
    cases hdecision.symm.trans hdecision'
    cases hpairs.symm.trans hpairs'
    have hnot := List.find?_eq_none.1 hshared d (h.indexes ▸ hd)
    simp only [Bool.not_eq_true', decide_eq_false_iff_not, not_not] at hnot
    rw [h.keys_stored hd, List.Nodup, List.pairwise_map] at hnot
    unfold UniqueKeys
    rw [List.pairwise_map]
    exact hnot

/-- An UPDATE that passes the checks leaves the rows of the logical table. -/
theorem exists_updated {decision : Option IndexDecision}
    (hdecision : planUpdate t plan = .ok decision)
    (hpairs : collectUpdates t plan decision = .ok (changedPairs plan live))
    (hmoved : l.table.firstMoved (isChanged plan) (LogicalTable.updatedRow l.schema plan) = none)
    (hshared : l.table.firstShared (isChanged plan) (LogicalTable.updatedRow l.schema plan) = none)
    {table : Keyed keyBytes} (hindexes : table.indexes = l.table.indexes)
    (htable : table.rows = (l.table.rows.filter fun row => !isChanged plan row)
      ++ (l.table.rows.filter (isChanged plan)).map (LogicalTable.updatedRow l.schema plan)) :
    ∃ t', executeUpdate t plan decision = .ok (.ok t') ∧ Represents t' { l with table } := by
  have hcheck : checkUpdates t (changedPairs plan live) = .ok (.ok ()) := by
    rw [h.checkUpdates_eq, hmoved, hshared]
  obtain ⟨t', hwrite⟩ := exists_writeUpdates h.sync.typedFile h.valid
    (fun pair hpair => (h.updated_typed hpair).1) (fun pair hpair => (h.updated_typed hpair).2)
    h.offsets
  have hexecute : ∀ decision, collectUpdates t plan decision = .ok (changedPairs plan live) →
      executeUpdate t plan decision = .ok (.ok t') := by
    intro decision hpairs
    rw [executeUpdate, hpairs, Checked.ok_bind, hcheck, Checked.ok_bind]
    simp only [hwrite, Checked.ok_bind]
  have hscanned := collectUpdates_scan h.table.scan (fun x hx => (h.typed x hx).2.ofTypes)
    h.filter h.values
  obtain ⟨replaced, hschema, hscan, hreplaced, -⟩ := h.sync.typedFile.executeUpdate h.table.scan
    h.places plan h.filter h.values (hexecute none hscanned)
  obtain ⟨-, hmeta⟩ := writeUpdates_meta hwrite
  obtain ⟨rows', hsync'⟩ := h.sync.update (h.keepsIndexes hdecision hpairs hshared) h.planned
    hdecision hpairs hcheck hwrite
  refine ⟨t', hexecute decision hpairs, hsync'.represents (hschema.trans h.schema) ?_ hscan ?_⟩
  · exact hmeta.trans (h.indexes.trans hindexes.symm)
  · rw [List.map_append, hreplaced, htable, ← h.schema,
      filter_rows h.logical fun row => !isChanged plan row,
      ← filter_rows h.logical (isChanged plan), List.map_map]
    rfl

end ReadyToUpdate

theorem answerUpdate_matches (h : Represents t l) (hadmits : l.Admits strtof (.update stmt)) :
    ∃ result, answerStatement strtof t (.update stmt) = .ok result ∧
      Matches Represents result (l.update strtof stmt) := by
  unfold LogicalTable.update
  rw [analyzeUpdate_bare h.schema]
  refine matches_stages fun plan hplan => ?_
  obtain ⟨rows, live, hsync, ht, hlive, hrows⟩ := h.rows
  have hready := ReadyToUpdate.of_admits hsync ht hlive hrows h.schema h.indexes hplan hadmits
  have hfloats : FloatsExact live plan.filter := by
    obtain ⟨-, -, hanalyze⟩ := bind_eq_ok.1 hplan
    obtain ⟨-, -, hanalyze⟩ := bind_eq_ok.1 hanalyze
    obtain ⟨values, -, hanalyze⟩ := bind_eq_ok.1 hanalyze
    obtain ⟨filter, hfilter, hanalyze⟩ := bind_eq_ok.1 hanalyze
    cases hanalyze
    exact floatsExact_of_logical hrows hadmits.exact (h.schema ▸ hfilter)
  obtain ⟨decision, hdecision, hpairs⟩ := hready.exists_decision hfloats
  have hcount : updateAffectedRows t plan decision
      = .ok (l.table.rows.filter (isChanged plan)).length := by
    unfold updateAffectedRows changedPairs at *
    rw [hpairs, Checked.ok_bind, List.length_map, length_filter_rows hrows]
  simp only [hdecision, hcount, Checked.ok_bind]
  have hrefused : ∀ e, checkUpdates t (changedPairs plan live) = .ok (.error e) →
      executeUpdate t plan decision = .ok (.error e) := by
    intro e hcheck
    rw [executeUpdate, hpairs, Checked.ok_bind, hcheck]
    rfl
  have hcheck := hready.checkUpdates_eq
  cases hmoved : l.table.firstMoved (isChanged plan) (LogicalTable.updatedRow l.schema plan) with
  | some d =>
    rw [hmoved] at hcheck
    rw [hrefused _ hcheck, Keyed.update_of_moved hmoved]
    exact ⟨_, rfl, .error _⟩
  | none =>
    cases hshared :
        l.table.firstShared (isChanged plan) (LogicalTable.updatedRow l.schema plan) with
    | some d =>
      rw [hmoved, hshared] at hcheck
      rw [hrefused _ hcheck, Keyed.update_of_shared hmoved hshared]
      exact ⟨_, rfl, .error _⟩
    | none =>
      obtain ⟨table, hupdate, hindexes, htable⟩ := Keyed.exists_update hmoved hshared
      obtain ⟨t', hexecute, hrepresents⟩ :=
        hready.exists_updated hdecision hpairs hmoved hshared hindexes htable
      rw [hexecute, hupdate]
      exact ⟨_, rfl, .ok hrepresents _⟩

end Update

/-! ## CREATE INDEX, DROP INDEX and TRUNCATE TABLE -/

section Ddl

variable [UnionMemory] {strtof : Strtof} {t : TableState} {l : LogicalTable}

theorem answerCreateIndex_matches (h : Represents t l) (stmt : CreateIndexStmt) :
    ∃ result, answerStatement strtof t (.createIndex stmt) = .ok result ∧
      Matches Represents result (l.createIndex stmt) := by
  have hrun : answerStatement strtof t (.createIndex stmt) = runStages (do
      validateCreateIndex stmt
      planTable t stmt.table
      planCreateIndex t.schema t.indexMeta stmt)
      fun indexDef => do return (← executeCreateIndex t indexDef).map (·, .ok) := runStages_map
  have hkeeps : KeepsIndexes strtof t (.createIndex stmt) :=
    keepsIndexes_of_handsNone (fun _ hs => (by cases hs)) fun _ hs => (by cases hs)
  obtain ⟨rows, live, hsync, ht, hlive, hrows⟩ := h.rows
  have hstages : (do
      validateCreateIndex stmt
      planTable l.bare stmt.table
      planCreateIndex l.schema l.table.indexes stmt) = (do
      validateCreateIndex stmt
      planTable t stmt.table
      planCreateIndex t.schema t.indexMeta stmt) := by
    rw [planTable_bare h.schema, h.schema, h.indexes]
  unfold LogicalTable.createIndex
  rw [hstages]
  cases hplan : (do
      validateCreateIndex stmt
      planTable t stmt.table
      planCreateIndex t.schema t.indexMeta stmt) with
  | error e =>
    rw [hrun, hplan]
    exact ⟨_, rfl, .error e⟩
  | ok indexDef =>
    obtain ⟨-, -, hvalid⟩ := bind_eq_ok.1 hplan
    obtain ⟨-, -, hvalid⟩ := bind_eq_ok.1 hvalid
    have hvalid := planCreateIndex_valid hvalid
    have hkeys : (live.map fun x => keyBytes indexDef x.row)
        = l.table.rows.map (keyBytes indexDef) := by
      rw [← hrows, List.map_map]
      rfl
    have hfill := backfillIndex_total hvalid hsync.schema.columns
      (fun x hx => (ht.typed x hx).ofTypes) ht.scan
    rw [hkeys] at hfill
    rcases hfill with ⟨hnodup, index, hfill⟩ | ⟨hshared, hfill⟩
    · obtain ⟨table, hadd, hindexes, htable⟩ := Keyed.exists_addIndex hnodup
      have hanswer : answerStatement strtof t (.createIndex stmt)
          = .ok (.ok ({ t with indexes := t.indexes ++ [(indexDef, index)] }, .ok)) := by
        rw [hrun, hplan, runStages, executeCreateIndex, hfill]
        rfl
      refine ⟨_, hanswer, ?_⟩
      dsimp only [bind, Except.bind]
      rw [hadd]
      obtain ⟨rows', hsync'⟩ := hsync.after hkeeps hanswer
      refine .ok ?_ _
      refine hsync'.represents h.schema ?_ ht.scan (hrows.trans htable.symm)
      rw [hindexes, ← h.indexes]
      exact List.map_append
    · refine ⟨.error (duplicateError indexDef), ?_, ?_⟩
      · rw [hrun, hplan, runStages, executeCreateIndex, hfill]
        rfl
      · dsimp only [bind, Except.bind]
        rw [Keyed.addIndex_of_shared hshared]
        exact .error _

theorem answerDropIndex_matches (h : Represents t l) (stmt : DropIndexStmt) :
    ∃ result, answerStatement strtof t (.dropIndex stmt) = .ok result ∧
      Matches Represents result (l.dropIndex stmt) := by
  have hkeeps : KeepsIndexes strtof t (.dropIndex stmt) :=
    keepsIndexes_of_handsNone (fun _ hs => (by cases hs)) fun _ hs => (by cases hs)
  obtain ⟨rows, live, hsync, ht, hlive, hrows⟩ := h.rows
  unfold LogicalTable.dropIndex
  rw [planTable_bare h.schema, planDropIndex_bare h.schema h.indexes]
  cases hplan : (do
      validateDropIndex stmt
      planTable t stmt.table
      planDropIndex t stmt) with
  | error e =>
    refine ⟨.error e, ?_, .error e⟩
    show (do return (← runStages _ _).map _) = _
    rw [hplan]
    rfl
  | ok pos =>
    have hanswer : answerStatement strtof t (.dropIndex stmt)
        = .ok (.ok ({ t with indexes := t.indexes.eraseIdx pos }, .ok)) := by
      show (do return (← runStages _ _).map _) = _
      rw [hplan]
      rfl
    refine ⟨_, hanswer, ?_⟩
    obtain ⟨rows', hsync'⟩ := hsync.after hkeeps hanswer
    show Matches Represents _ (.ok ({ l with table := l.table.dropIndex pos }, .ok))
    refine .ok ?_ _
    refine hsync'.represents h.schema ?_ ht.scan hrows
    show (t.indexes.eraseIdx pos).map Prod.fst = l.table.indexes.eraseIdx pos
    rw [← h.indexes]
    exact (List.eraseIdx_map Prod.fst t.indexes pos).symm

theorem answerTruncate_matches (h : Represents t l) (stmt : TruncateTableStmt) :
    ∃ result, answerStatement strtof t (.truncate stmt) = .ok result ∧
      Matches Represents result (l.truncate stmt) := by
  have hkeeps : KeepsIndexes strtof t (.truncate stmt) :=
    keepsIndexes_of_handsNone (fun _ hs => (by cases hs)) fun _ hs => (by cases hs)
  obtain ⟨rows, live, hsync, ht, hlive, hrows⟩ := h.rows
  unfold LogicalTable.truncate
  rw [planTable_bare h.schema]
  cases hplan : (do validateTruncateTable stmt; planTable t stmt.table) with
  | error e =>
    refine ⟨.error e, ?_, .error e⟩
    show (do return (← runStages _ _).map _) = _
    rw [hplan]
    rfl
  | ok _ =>
    have hanswer : answerStatement strtof t (.truncate stmt)
        = .ok (.ok ({ t with
            dataFile := []
            indexes := t.indexes.map fun entry => (entry.1, indexCreate) }, .ok)) := by
      show (do return (← runStages _ _).map _) = _
      rw [hplan]
      rfl
    refine ⟨_, hanswer, ?_⟩
    obtain ⟨rows', hsync'⟩ := hsync.after hkeeps hanswer
    show Matches Represents _ (.ok ({ l with table := l.table.clear }, .ok))
    refine .ok ?_ _
    refine hsync'.represents h.schema ?_ rfl rfl
    show (t.indexes.map fun entry => (entry.1, indexCreate)).map Prod.fst = l.table.indexes
    rw [← h.indexes, List.map_map]
    rfl

/-- Every statement that the logical table admits has its answer in both. -/
theorem answerStatement_matches (h : Represents t l) {s : Statement}
    (hadmits : l.Admits strtof s) :
    ∃ result, answerStatement strtof t s = .ok result ∧
      Matches Represents result (l.answer strtof s) := by
  cases s with
  | insert stmt => exact answerInsert_matches h hadmits
  | delete stmt => exact answerDelete_matches h hadmits
  | update stmt => exact answerUpdate_matches h hadmits
  | createIndex stmt => exact answerCreateIndex_matches h stmt
  | dropIndex stmt => exact answerDropIndex_matches h stmt
  | truncate stmt => exact answerTruncate_matches h stmt

end Ddl

end Maxql
