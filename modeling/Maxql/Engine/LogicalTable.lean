import Maxql.Engine.Answer
import Maxql.Engine.InSync
import Maxql.Lib.KeyedList

/-!
# Logical tables

What the engine is for: a table is a list of rows under unique indexes, without
files, offsets or a plan.  The statements are checked and analyzed as in
`src/engine`; what they do then is said by the operations of a keyed list.

The groups are the tables, the statements, and what a statement must meet so
that the engine does the same.
-/

namespace Maxql

open KeyedList

/-! ## Tables -/

/-- The rows of a table in the order in which a scan gives them, and its indexes. -/
@[ext] structure LogicalTable where
  schema : TableSchema
  table : Keyed keyBytes

/-- The conditions of a statement. -/
def Statement.conditions : Statement → List Condition
  | .delete stmt => stmt.conditions
  | .update stmt => stmt.conditions
  | _ => []

namespace LogicalTable

def create (schema : TableSchema) : LogicalTable := { schema, table := Keyed.empty keyBytes }

/-- The table without rows, which is all that the validators, analyzers and planners of a
statement look at. -/
def bare (l : LogicalTable) : TableState where
  schema := l.schema
  dataFile := []
  indexes := l.table.indexes.map fun indexDef => (indexDef, indexCreate)

@[simp] theorem bare_indexMeta (l : LogicalTable) : l.bare.indexMeta = l.table.indexes := by
  simp [bare, TableState.indexMeta, Function.comp_def]

/-! ## Statements -/

/-- The rows that pass, in the order of the table. -/
def select [UnionMemory] (strtof : Strtof) (l : LogicalTable) (stmt : SelectStmt)
    : Except Error Response := do
  let plan ← (do validateSelect stmt; analyzeSelect strtof l.bare stmt)
  return .rows plan.queryColumnOrder
    ((l.table.rows.filter (passes plan.filter)).map (selectedValues plan.queryColumnOrder))

/-- The row that an UPDATE leaves for a row that changes. -/
def updatedRow [UnionMemory] (schema : TableSchema) (plan : UpdateExecPlan) (row : DataRow)
    : DataRow :=
  storedRow schema.columns (assignedRow plan.values row)

def insert (strtof : Strtof) (l : LogicalTable) (stmt : InsertStmt) :
    Except Error (LogicalTable × Response) := do
  let values ← (do validateInsert stmt; analyzeInsert strtof l.bare stmt)
  match l.table.insert (storedRow l.schema.columns values) with
  | .error indexDef => .error (duplicateError indexDef)
  | .ok table => return ({ l with table }, .affectedRows 1)

def delete [UnionMemory] (strtof : Strtof) (l : LogicalTable) (stmt : DeleteStmt) :
    Except Error (LogicalTable × Response) := do
  let filter ← (do validateDelete stmt; analyzeDelete strtof l.bare stmt)
  return ({ l with table := l.table.delete (passes filter) },
    .affectedRows (l.table.rows.filter (passes filter)).length)

def update [UnionMemory] (strtof : Strtof) (l : LogicalTable) (stmt : UpdateStmt) :
    Except Error (LogicalTable × Response) := do
  let plan ← (do validateUpdate stmt; analyzeUpdate strtof l.bare stmt)
  match l.table.update (isChanged plan) (updatedRow l.schema plan) with
  | .error (.taken indexDef) => .error (duplicateError indexDef)
  | .error (.shared indexDef) => .error (batchError indexDef)
  | .ok table => return ({ l with table },
      .affectedRows (l.table.rows.filter (isChanged plan)).length)

def createIndex (l : LogicalTable) (stmt : CreateIndexStmt) :
    Except Error (LogicalTable × Response) := do
  let indexDef ← (do
    validateCreateIndex stmt
    planTable l.bare stmt.table
    planCreateIndex l.schema l.table.indexes stmt)
  match l.table.addIndex indexDef with
  | .error indexDef => .error (duplicateError indexDef)
  | .ok table => return ({ l with table }, .ok)

def dropIndex (l : LogicalTable) (stmt : DropIndexStmt) :
    Except Error (LogicalTable × Response) := do
  let indexPos ← (do
    validateDropIndex stmt
    planTable l.bare stmt.table
    planDropIndex l.bare stmt)
  return ({ l with table := l.table.dropIndex indexPos }, .ok)

def truncate (l : LogicalTable) (stmt : TruncateTableStmt) :
    Except Error (LogicalTable × Response) := do
  let _ ← (do validateTruncateTable stmt; planTable l.bare stmt.table)
  return ({ l with table := l.table.clear }, .ok)

def answer [UnionMemory] (strtof : Strtof) (l : LogicalTable) :
    Statement → Except Error (LogicalTable × Response)
  | .insert stmt => l.insert strtof stmt
  | .delete stmt => l.delete strtof stmt
  | .update stmt => l.update strtof stmt
  | .createIndex stmt => l.createIndex stmt
  | .dropIndex stmt => l.dropIndex stmt
  | .truncate stmt => l.truncate stmt

/-! ## Admitted statements -/

/-- The rows that the statement hands to `storage_insert_row`. -/
def handsOver [UnionMemory] (strtof : Strtof) (l : LogicalTable) : Statement → List DataRow
  | .insert stmt =>
    match (do validateInsert stmt; analyzeInsert strtof l.bare stmt) with
    | .ok values => [values]
    | .error _ => []
  | .update stmt =>
    match (do validateUpdate stmt; analyzeUpdate strtof l.bare stmt) with
    | .ok plan => (l.table.rows.filter (isChanged plan)).map (assignedRow plan.values)
    | .error _ => []
  | _ => []

theorem handsOver_insert [UnionMemory] {strtof : Strtof} {l : LogicalTable} {stmt : InsertStmt}
    {values : DataRow}
    (h : (do validateInsert stmt; analyzeInsert strtof l.bare stmt) = .ok values) :
    l.handsOver strtof (.insert stmt) = [values] := by
  simp only [handsOver, h]

theorem handsOver_update [UnionMemory] {strtof : Strtof} {l : LogicalTable} {stmt : UpdateStmt}
    {plan : UpdateExecPlan}
    (h : (do validateUpdate stmt; analyzeUpdate strtof l.bare stmt) = .ok plan) :
    l.handsOver strtof (.update stmt)
      = (l.table.rows.filter (isChanged plan)).map (assignedRow plan.values) := by
  simp only [handsOver, h]

/-- Values of the rows that compare equal to a value of the conditions are that value. -/
def ComparesExactly (strtof : Strtof) (l : LogicalTable) (conditions : List Condition) : Prop :=
  ∀ filter, analyzeWhereConditions strtof conditions l.schema = .ok filter →
    ∀ row ∈ l.table.rows, ∀ v ∈ row, ∀ p ∈ filter, ExactFloats v p.value

/-- What a statement must meet so that the engine and the logical table agree. -/
structure Admits [UnionMemory] (strtof : Strtof) (l : LogicalTable) (s : Statement) : Prop where
  /-- A lookup by key finds what a comparison would find. -/
  exact : l.ComparesExactly strtof s.conditions
  /-- The values of an UPDATE fit their columns. -/
  fits : ∀ stmt plan, s = .update stmt →
    (do validateUpdate stmt; analyzeUpdate strtof l.bare stmt) = .ok plan →
    AssignsEach (fun c v => resolvedTypeValidate c.resolvedType v = .ok) l.schema.columns
      plan.values
  /-- The parts of the indexes end before the spaces at the end of a value. -/
  blanks : ∀ values ∈ l.handsOver strtof s, ∀ indexDef ∈ l.table.indexes,
    BlanksBehind l.schema indexDef values
  /-- Two rows of one UPDATE agree in the columns of an index if they have one key in it. -/
  columns : ∀ indexDef ∈ l.table.indexes, (l.handsOver strtof s).Pairwise fun a b =>
    EqualIn indexDef a b ↔ keyBytes indexDef a = keyBytes indexDef b

end LogicalTable

end Maxql
