import Maxql.Engine.SoundTables

/-!
# The engine refines the logical database

A table with a data file and indexes answers every statement as a logical table
does, as long as the statement meets what the logical table admits: the same
output, or the same error with the same text.

* `databaseTables_simulates`: one statement;
* `exists_logical_answer`: a logical database answers what it admits;
* `admitsInput_of_parse`, `comparesExactly_of_strings`: what it admits.
-/

namespace Maxql

open Program Bytes Simulation KeyedList

/-! ## Admitted queries -/

/-- What a query must meet on the table that it names. -/
def LogicalTable.AdmitsQuery [UnionMemory] (strtof : Strtof) (l : LogicalTable) : Query → Prop
  | .select stmt => l.ComparesExactly strtof stmt.conditions
  | .showTable _ => ∀ c ∈ l.schema.columns, c.DefaultFits
  | q => ∀ s : Statement, s.toQuery = q → l.Admits strtof s

/-- What a text must meet in a logical database. -/
def AdmitsInput [UnionMemory] (strtof : Strtof) (ls : List LogicalTable) (input : Text) : Prop :=
  NamedMeets (logicalTables strtof) (LogicalTable.AdmitsQuery strtof) ls input

variable {strtof : Strtof} {unwritten : Unwritten} {printFloat : FloatFormat}

theorem LogicalTable.AdmitsQuery.statement [UnionMemory] {l : LogicalTable} {s : Statement}
    (h : l.AdmitsQuery strtof s.toQuery) : l.Admits strtof s := by
  cases s with
  | insert stmt => exact h (.insert stmt) rfl
  | delete stmt => exact h (.delete stmt) rfl
  | update stmt => exact h (.update stmt) rfl
  | createIndex stmt => exact h (.createIndex stmt) rfl
  | dropIndex stmt => exact h (.dropIndex stmt) rfl
  | truncate stmt => exact h (.truncate stmt) rfl

theorem databaseTables_simulates [UnionMemory] (strtof : Strtof) :
    (databaseTables strtof).Simulates (logicalTables strtof) Represents
      (LogicalTable.AdmitsQuery strtof) where
  schema := Represents.schema
  indexMeta := Represents.indexes
  create := represents_create
  select := by
    intro t l stmt result hR hok hrun
    cases hrun
    exact answerSelect_eq hR hok
  answer := by
    intro t l s result hR hok hrun
    cases hrun
    exact answerStatement_matches hR hok.statement

/-! ## Answers -/

/-- A logical table has an answer to every query that it admits. -/
theorem exists_onTable [UnionMemory] (unwritten : Unwritten) (hfloats : PrintsFloats printFloat)
    {l : LogicalTable}
    (hplanned : PlannedTable l.schema) (hbuilt : BuiltIndexes l.schema l.table.indexes) {q : Query}
    (hok : l.AdmitsQuery strtof q) :
    ∃ result, (logicalTables strtof).onTable unwritten printFloat l q = .ok result := by
  obtain ⟨hindexes, -⟩ := hbuilt.planned hplanned.sound
  cases q with
  | showTable stmt =>
    have hrows := (showTableRows_whole_iff unwritten hfloats
      hplanned.sound.defaults fun d hd => (hindexes d hd).someParts).2 hok
    refine ⟨.ok (l, .cells showTableNames (tableCells printFloat l.schema l.table.indexes)), ?_⟩
    show (do
      let rows ← showTableRows unwritten printFloat l.schema l.table.indexes
      return Except.ok (l, Response.cells showTableNames rows) :
        Checked (Except Error (LogicalTable × Response))) = _
    rw [hrows]
    rfl
  | showIndex stmt =>
    have hrows := showIndexRows_eq fun d hd => (hindexes d hd).type
    refine ⟨.ok (l, .cells showIndexNames (indexCells l.table.indexes)), ?_⟩
    show (do
      let rows ← showIndexRows l.table.indexes
      return Except.ok (l, Response.cells showIndexNames rows) :
        Checked (Except Error (LogicalTable × Response))) = _
    rw [hrows]
    rfl
  | select | insert | update | delete | truncateTable | createIndex | dropIndex | dropTable
  | createTable | showTables | showIndexTypes | unknown => exact ⟨_, rfl⟩

/-- A logical database answers every text that it admits. -/
theorem exists_logical_answer [UnionMemory] (hfloats : PrintsFloats printFloat)
    {ls : List LogicalTable} (hsound : SoundTables (logicalTables strtof) ls) {input : Text}
    (hok : AdmitsInput strtof ls input) : ∃ answer ls',
      Runs (engineRun (pipelineRun (logicalTables strtof) strtof unwritten printFloat) input) ls
        answer ls' := by
  obtain ⟨q, error, hparse, -⟩ := parseInput_total input
  suffices h : error = none → ∃ answer ls', Runs
      (pipelineRun (logicalTables strtof) strtof unwritten printFloat q) ls answer ls' by
    cases error with
    | some e => exact ⟨_, _, Runs.bind (Runs.lift hparse _) (Runs.pure _ _)⟩
    | none =>
      obtain ⟨answer, ls', hrun⟩ := h rfl
      exact ⟨answer, ls', Runs.bind (Runs.lift hparse _) hrun⟩
  rintro rfl
  have hnamed : ∃ answer ls',
      Runs ((logicalTables strtof).runOnTable unwritten printFloat q) ls answer ls' := by
    cases hlookup : lookupStages (lookupNamed (logicalTables strtof).name ls) q with
    | error e =>
      refine ⟨.error e, ls, Runs.bind (Runs.get ls) ?_⟩
      rw [hlookup]
      exact Runs.pure _ _
    | ok entry =>
      obtain ⟨l, pos⟩ := entry
      have hl := List.mem_of_getElem? (lookupStages_eq_ok hlookup).1
      obtain ⟨result, hresult⟩ := exists_onTable unwritten hfloats
        (hsound.planned l hl) (hsound.built l hl) (hok q l pos hparse hlookup)
      cases result with
      | error e =>
        refine ⟨.error e, ls, Runs.bind (Runs.get ls) ?_⟩
        rw [hlookup]
        exact Runs.bind (Runs.lift hresult _) (Runs.pure _ _)
      | ok pair =>
        refine ⟨.ok pair.2, ls.set pos pair.1, Runs.bind (Runs.get ls) ?_⟩
        rw [hlookup]
        exact Runs.bind (Runs.lift hresult _) rfl
  cases q with
  | createTable stmt =>
    cases hplan : (do
        validateCreateTable stmt
        planCreateTable strtof (ls.map (logicalTables strtof).name) stmt) with
    | error e =>
      refine ⟨.error e, ls, Runs.bind (Runs.get ls) ?_⟩
      rw [hplan]
      exact Runs.pure _ _
    | ok schema =>
      refine ⟨.ok .ok, ls ++ [(logicalTables strtof).create schema], Runs.bind (Runs.get ls) ?_⟩
      rw [hplan]
      rfl
  | dropTable stmt =>
    cases hlookup : lookupStages (lookupNamed (logicalTables strtof).name ls) (.dropTable stmt) with
    | error e =>
      refine ⟨.error e, ls, Runs.bind (Runs.get ls) ?_⟩
      rw [hlookup]
      exact Runs.pure _ _
    | ok entry =>
      refine ⟨.ok .ok, ls.eraseIdx entry.2, Runs.bind (Runs.get ls) ?_⟩
      rw [hlookup]
      rfl
  | showTables | showIndexTypes | unknown => exact ⟨_, _, rfl⟩
  | select | insert | update | delete | truncateTable | createIndex | dropIndex | showTable
  | showIndex => exact hnamed

/-- Strings are not compared as numbers are. -/
theorem comparesExactly_of_strings {l : LogicalTable} {conditions : List Condition}
    (h : ∀ c ∈ conditions, c.value.type = .string) : l.ComparesExactly strtof conditions := by
  intro filter hfilter row _ v _ p hp a b _ hb
  obtain ⟨c, hc, hp⟩ := forall₂_mem_right (mapM_eq_ok.1 hfilter) hp
  obtain ⟨pos, -, hp⟩ := bind_eq_ok.1 hp
  obtain ⟨value, hvalue, hp⟩ := bind_eq_ok.1 hp
  unfold convertFor convertValue at hvalue
  rw [h c hc] at hvalue
  dsimp only at hvalue
  split at hvalue
  · next converted hstring =>
    cases hvalue
    unfold convertString at hstring
    split at hstring
    · cases hstring
    · cases hstring
      dsimp only at hp
      split at hp
      · cases hp
      · cases hp
        cases hb
  · cases hvalue

/-- The text is that of the query. -/
theorem admitsInput_of_parse [UnionMemory] {ls : List LogicalTable} {input : Text} {q : Query}
    (hparse : parseInput input = .ok (q, none))
    (h : ∀ l ∈ ls, l.AdmitsQuery strtof q) : AdmitsInput strtof ls input := by
  intro q' l pos hparse' hlookup
  cases hparse.symm.trans hparse'
  exact h l (List.mem_of_getElem? (lookupStages_eq_ok hlookup).1)

open ClearedMemory

/-- Memory whose bytes are zero. -/
def zeroed : Unwritten := fun size => Vector.replicate size 0

end Maxql
