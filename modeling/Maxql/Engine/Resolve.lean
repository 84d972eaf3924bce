import Maxql.Engine.Ddl
import Maxql.Parser.Grammar

/-!
# Table names

`database_table_by_name`, the stage of each pipeline that looks a table up, and
the stages in front of it.  The name of the statement is first copied into an
array of 32 bytes, which cuts it.  The validators refuse a longer name, but
`show table` and `show index` have no validator.

* `queryTarget`: the table that a pipeline runs against;
* `runQuery`: the pipelines of the statements that name a table;
* `runQuery_single`: over one table they are the pipelines of that table;
* `resolvesExactly_iff`: when a name stands for the table of this name only.
-/

namespace Maxql

open Program Bytes

/-! ## The lookup -/

/-- The tables of a database, each with its files. -/
abbrev DatabaseState := List TableState

def databaseTableByName (database : DatabaseState) (name : Text) : Option TableState :=
  database.find? fun t => name == t.schema.tableName

/-- The lookup of the table that a statement names, with the error of the caller. -/
def lookupTable (code : ErrorCode) (complaint : Text) (database : DatabaseState) (table : Text) :
    Except Error TableState :=
  let tableName := svToCstr table (maxTableNameSize + 1)
  match databaseTableByName database tableName with
  | some t => .ok t
  | none => errorFmt code (text "Table '" ++ tableName ++ complaint)

def validateDropTable (stmt : DropTableStmt) : Except Error Unit :=
  if stmt.table.length > maxTableNameSize then
    errorFmt .validator (text "Table name is too long")
  else .ok ()

/-- The existing table that a statement names. -/
def Query.namedTable : Query → Option Text
  | .select stmt => some stmt.table
  | .insert stmt => some stmt.table
  | .update stmt => some stmt.table
  | .delete stmt => some stmt.table
  | .dropTable stmt => some stmt.table
  | .truncateTable stmt => some stmt.table
  | .createIndex stmt => some stmt.table
  | .dropIndex stmt => some stmt.table
  | .showTable stmt => some stmt.table
  | .showIndex stmt => some stmt.table
  | .createTable _ | .showTables | .showIndexTypes | .unknown => none

/-- The stages of a pipeline up to the lookup of the table.  A statement that names no
existing table has no such stage. -/
def queryTarget (database : DatabaseState) : Query → Except Error TableState
  | .select stmt => do
    validateSelect stmt
    lookupTable .analyzer (text "' not exist") database stmt.table
  | .insert stmt => do
    validateInsert stmt
    lookupTable .analyzer (text "' not exist") database stmt.table
  | .update stmt => do
    validateUpdate stmt
    lookupTable .analyzer (text "' not exist") database stmt.table
  | .delete stmt => do
    validateDelete stmt
    lookupTable .analyzer (text "' not exist") database stmt.table
  | .dropTable stmt => do
    validateDropTable stmt
    lookupTable .planner (text "' not found") database stmt.table
  | .truncateTable stmt => do
    validateTruncateTable stmt
    lookupTable .planner (text "' not found") database stmt.table
  | .createIndex stmt => do
    validateCreateIndex stmt
    lookupTable .planner (text "' not found") database stmt.table
  | .dropIndex stmt => do
    validateDropIndex stmt
    lookupTable .planner (text "' not found") database stmt.table
  | .showTable stmt => lookupTable .executor (text "' not found") database stmt.table
  | .showIndex stmt => lookupTable .executor (text "' not found") database stmt.table
  | .createTable _ | .showTables | .showIndexTypes | .unknown =>
    errorFmt .internal (text "No pipeline defined for query type")

/-! ## The pipelines -/

/-- What a statement does with its table. -/
inductive Outcome where
  | rows (rows : List StoredRow)
  | changed (t : TableState)
  | dropped
  | shown

/-- The stages behind the lookup.  The pipelines over one table repeat the checks that have
passed. -/
def runOn [UnionMemory] (strtof : Strtof) (t : TableState) : Query → Checked (Except Error Outcome)
  | .select stmt => do return (← runSelect strtof t stmt).map .rows
  | .insert stmt => do return (← runInsert strtof t stmt).map .changed
  | .update stmt => do return (← runUpdate strtof t stmt).map .changed
  | .delete stmt => do return (← runDelete strtof t stmt).map .changed
  | .truncateTable stmt => do return (← runTruncateTable t stmt).map .changed
  | .createIndex stmt => do return (← runCreateIndex t stmt).map .changed
  | .dropIndex stmt => do return (← runDropIndex t stmt).map .changed
  | .dropTable _ => return .ok .dropped
  | _ => return .ok .shown

def runQuery [UnionMemory] (strtof : Strtof) (database : DatabaseState) (q : Query) :
    Checked (Except Error Outcome) :=
  runStages (queryTarget database q) fun t => runOn strtof t q

/-! ## One table -/

theorem lookupTable_single (code : ErrorCode) (complaint : Text) (t : TableState) (table : Text) :
    lookupTable code complaint [t] table = (findTable code complaint t table).map fun _ => t := by
  unfold lookupTable findTable databaseTableByName
  cases h : svToCstr table (maxTableNameSize + 1) == t.schema.tableName <;>
    simp [List.find?, h, errorFmt, Except.map]

/-- The stages up to the lookup change nothing for a pipeline that starts with them. -/
theorem runStages_lookup {α β γ : Type} {validate : Except Error Unit} {code : ErrorCode}
    {complaint table : Text} {t : TableState} {more : Except Error α}
    {execute : α → Checked (Except Error β)} {make : β → γ}
    {run : TableState → Checked (Except Error γ)}
    (hrun : run t = do
      return (← runStages (do validate; findTable code complaint t table; more) execute).map make) :
    runStages (do validate; lookupTable code complaint [t] table) run = run t := by
  rw [lookupTable_single, hrun]
  cases validate with
  | error e => rfl
  | ok =>
    cases hfind : findTable code complaint t table with
    | error e => rfl
    | ok =>
      show run t = _
      rw [hrun, hfind]

def Statement.toQuery : Statement → Query
  | .insert stmt => .insert stmt
  | .delete stmt => .delete stmt
  | .update stmt => .update stmt
  | .createIndex stmt => .createIndex stmt
  | .dropIndex stmt => .dropIndex stmt
  | .truncate stmt => .truncateTable stmt

/-- Over one table the pipelines are those of the table. -/
theorem runQuery_single [UnionMemory] (strtof : Strtof) (t : TableState) (s : Statement) :
    runQuery strtof [t] s.toQuery = do return (← runStatement strtof t s).map .changed := by
  cases s with
  | insert stmt => exact runStages_lookup rfl
  | delete stmt => exact runStages_lookup rfl
  | update stmt => exact runStages_lookup rfl
  | createIndex stmt => exact runStages_lookup rfl
  | dropIndex stmt => exact runStages_lookup rfl
  | truncate stmt =>
    have hstages : (do validateTruncateTable stmt; planTable t stmt.table)
        = (do validateTruncateTable stmt; planTable t stmt.table; pure () : Except Error Unit) := by
      cases validateTruncateTable stmt <;> cases planTable t stmt.table <;> rfl
    have hrun : runOn strtof t (.truncateTable stmt) = do
        return (← runStages (do validateTruncateTable stmt; planTable t stmt.table; pure ())
          fun _ => executeTruncateTable t).map Outcome.changed := by
      rw [runOn, runTruncateTable, hstages]
    exact runStages_lookup hrun

/-! ## Exactness -/

theorem lookupTable_eq_ok {code : ErrorCode} {complaint table : Text} {database : DatabaseState}
    {t : TableState} (h : lookupTable code complaint database table = .ok t) :
    t ∈ database ∧ t.schema.tableName = svToCstr table (maxTableNameSize + 1) := by
  unfold lookupTable at h
  dsimp only at h
  split at h
  · next found hfound =>
    cases h
    refine ⟨List.mem_of_find?_eq_some hfound, ?_⟩
    have hname := List.find?_some hfound
    exact (beq_iff_eq.1 hname).symm
  · cases h

theorem exists_lookupTable {code : ErrorCode} {complaint table : Text} {database : DatabaseState}
    {t : TableState} (ht : t ∈ database)
    (hname : t.schema.tableName = svToCstr table (maxTableNameSize + 1)) :
    ∃ t', lookupTable code complaint database table = .ok t' := by
  unfold lookupTable
  dsimp only
  cases hfind : databaseTableByName database (svToCstr table (maxTableNameSize + 1)) with
  | some t' => exact ⟨t', rfl⟩
  | none =>
    have hnone := List.find?_eq_none.1 hfind t ht
    rw [hname, beq_self_eq_true] at hnone
    exact absurd rfl hnone

/-- A check of the length that comes first. -/
theorem length_le_of_check {table msg : Text} {code : ErrorCode} {more : Except Error Unit}
    {u : Unit} (h : (if table.length > maxTableNameSize then errorFmt code msg else more) = .ok u) :
    table.length ≤ maxTableNameSize := by
  by_contra hlong
  rw [if_pos (by omega)] at h
  cases h

def Query.isShow : Query → Bool
  | .showTable _ | .showIndex _ => true
  | _ => false

/-- Every pipeline but two refuses a name that does not fit before it looks it up. -/
theorem queryTarget_eq_ok {database : DatabaseState} {q : Query} {ident : Text} {t : TableState}
    (hq : q.namedTable = some ident) (h : queryTarget database q = .ok t) :
    (q.isShow = false → ident.length ≤ maxTableNameSize) ∧ t ∈ database ∧
      t.schema.tableName = svToCstr ident (maxTableNameSize + 1) := by
  cases q with
  | showTable stmt =>
    cases hq
    exact ⟨fun h => (by cases h), lookupTable_eq_ok h⟩
  | showIndex stmt =>
    cases hq
    exact ⟨fun h => (by cases h), lookupTable_eq_ok h⟩
  | createTable | showTables | showIndexTypes | unknown => cases hq
  | createIndex stmt =>
    cases hq
    obtain ⟨_, hvalid, hlookup⟩ := bind_eq_ok.1 h
    refine ⟨fun _ => ?_, lookupTable_eq_ok hlookup⟩
    unfold validateCreateIndex at hvalid
    split at hvalid
    · cases hvalid
    · split at hvalid
      · cases hvalid
      · exact length_le_of_check hvalid
  | select | insert | update | delete | dropTable | truncateTable | dropIndex =>
    cases hq
    obtain ⟨_, hvalid, hlookup⟩ := bind_eq_ok.1 h
    exact ⟨fun _ => length_le_of_check hvalid, lookupTable_eq_ok hlookup⟩

/-- A name stands for the table of this name only, and for none where there is none, exactly
where the pipeline checks its length, it fits, or no table is called what is left of it. -/
theorem resolvesExactly_iff [UnionMemory] (strtof : Strtof) (database : DatabaseState) (q : Query)
    (ident : Text) (hq : q.namedTable = some ident) (hident : isIdentifier ident = true) :
    ((∀ t, queryTarget database q = .ok t → t.schema.tableName = ident) ∧
      ((∀ t ∈ database, t.schema.tableName ≠ ident) →
        ∃ e, runQuery strtof database q = .ok (.error e))) ↔
    q.isShow = false ∨ ident.length ≤ maxTableNameSize ∨
      ∀ t ∈ database, t.schema.tableName ≠ ident.take maxTableNameSize := by
  have hzero := isIdentifier_zero_not_mem hident
  constructor
  · rintro ⟨hexact, -⟩
    by_contra hfails
    simp only [not_or, Bool.not_eq_false, not_forall, not_le, not_not] at hfails
    obtain ⟨hshow, hlong, t, ht, hname⟩ := hfails
    rw [← svToCstr_eq_take hzero] at hname
    -- The lookup succeeds, with a name that is shorter than the identifier.
    obtain ⟨t', htarget⟩ : ∃ t', queryTarget database q = .ok t' := by
      cases q with
      | showTable stmt =>
        cases hq
        exact exists_lookupTable ht hname
      | showIndex stmt =>
        cases hq
        exact exists_lookupTable ht hname
      | _ => cases hshow
    have hident' := hexact t' htarget
    rw [(queryTarget_eq_ok hq htarget).2.2, svToCstr_eq_take hzero] at hident'
    have hlen := congrArg List.length hident'
    rw [List.length_take] at hlen
    omega
  · intro hwhen
    have hexact : ∀ t, queryTarget database q = .ok t → t.schema.tableName = ident := by
      intro t htarget
      obtain ⟨hcheck, hmem, hname⟩ := queryTarget_eq_ok hq htarget
      obtain hshow | hfits | hnone := hwhen
      · rw [hname, svToCstr_eq hzero (hcheck hshow)]
      · rw [hname, svToCstr_eq hzero hfits]
      · rw [svToCstr_eq_take hzero] at hname
        exact absurd hname (hnone t hmem)
    refine ⟨hexact, fun hnone => ?_⟩
    cases htarget : queryTarget database q with
    | error e => exact ⟨e, by rw [runQuery, htarget]; rfl⟩
    | ok t => exact absurd (hexact t htarget) (hnone t (queryTarget_eq_ok hq htarget).2.1)

/-! ## A table whose name fills its array -/

open ClearedMemory

/-- A table whose name fills its array. -/
def longNamed : TableState where
  schema := { tableName := List.replicate 31 97, columns := [] }
  dataFile := []
  indexes := []

theorem resolvesExactly_iff_select :
    (∀ t, queryTarget [longNamed] (.select ⟨[], List.replicate 32 97, false, []⟩) = .ok t →
        t.schema.tableName = List.replicate 32 97) ∧
      ((∀ t ∈ [longNamed], t.schema.tableName ≠ List.replicate 32 97) →
        ∃ e, runQuery (fun _ => ⟨false, 0, []⟩) [longNamed] (.select ⟨[], List.replicate 32 97, false, []⟩)
          = .ok (.error e)) :=
  (resolvesExactly_iff _ _ _ _ rfl (by decide)).2 (.inl rfl)

/-- `show table` with a name of 32 letters shows the table named by the first 31. -/
theorem showTable_cutsName :
    ¬∀ (strtof : Strtof) (database : DatabaseState) (q : Query) (ident : Text),
      q.namedTable = some ident → isIdentifier ident = true →
        (∀ t, queryTarget database q = .ok t → t.schema.tableName = ident) ∧
        ((∀ t ∈ database, t.schema.tableName ≠ ident) →
          ∃ e, runQuery strtof database q = .ok (.error e)) := by
  intro h
  obtain ⟨hexact, -⟩ := h (fun _ => ⟨false, 0, []⟩) [longNamed] (.showTable ⟨List.replicate 32 97⟩)
    (List.replicate 32 97) rfl (by decide)
  have htarget : queryTarget [longNamed] (.showTable ⟨List.replicate 32 97⟩) = .ok longNamed := rfl
  have hname := hexact longNamed htarget
  exact absurd hname (by decide)

end Maxql
