import Maxql.Engine.Ast
import Maxql.Index.IndexSet

/-!
# SELECT, INSERT, DELETE and UPDATE

The validators, analyzers, planners and executors of `src/engine/dml`, with
`src/scan/index_scan.c`, over a database of one table.  A row source is the
list of the rows that it gives, because nothing is written while it is open.
-/

namespace Maxql

open Program Bytes

/-! ## The table -/

/-- A table: its schema, its data file and its indexes with their definitions. -/
structure TableState where
  schema : TableSchema
  dataFile : List UInt8
  indexes : IndexSet

def TableState.indexMeta (t : TableState) : IndexMeta := t.indexes.map Prod.fst

/-- The lookup of the table that a statement names, with the error of the caller. -/
def findTable (code : ErrorCode) (complaint : Text) (t : TableState) (table : Text) :
    Except Error Unit :=
  let tableName := svToCstr table (maxTableNameSize + 1)
  if tableName == t.schema.tableName then .ok ()
  else errorFmt code (text "Table '" ++ tableName ++ complaint)

/-- The lookup of an analyzer. -/
def analyzeTable (t : TableState) (table : Text) : Except Error Unit :=
  findTable .analyzer (text "' not exist") t table

/-! ## Plans -/

structure WherePredicate where
  columnIndex : Nat
  value : DataValue
  op : ConditionOp
  deriving DecidableEq, Repr

abbrev WhereFilter := List WherePredicate

/-- An `IndexDecision` with `use_index` set. -/
structure IndexDecision where
  indexDef : IndexDefinition
  values : DataRow
  columnPositions : List Nat
  deriving DecidableEq, Repr

structure SelectExecPlan where
  queryColumnOrder : List Nat
  filter : WhereFilter
  ignoreIndex : Bool
  deriving DecidableEq, Repr

/-- The values with their column positions. -/
structure UpdateExecPlan where
  values : List (Nat × DataValue)
  filter : WhereFilter
  deriving DecidableEq, Repr

/-! ## Validators -/

def validateSelect (stmt : SelectStmt) : Except Error Unit :=
  if stmt.table.length > maxTableNameSize then
    errorFmt .validator (text "Table name is too long")
  else if stmt.columns.length > maxColumnsInSelect then
    errorFmt .validator (text "Too many columns")
  else if stmt.columns.any (·.length > maxColumnNameSize) then
    errorFmt .validator (text "Column name is too long")
  else if hasDuplicate stmt.columns then
    errorFmt .validator (text "Duplicate column")
  else if stmt.conditions.length > maxWhereConditions then
    errorFmt .validator (text "Too many where conditions")
  else if stmt.conditions.any (·.column.length > maxColumnNameSize) then
    errorFmt .validator (text "Column name is too long")
  else .ok ()

def validateInsert (stmt : InsertStmt) : Except Error Unit :=
  if stmt.table.length > maxTableNameSize then
    errorFmt .validator (text "Table name is too long")
  else if stmt.assignments.length > maxColumnsPerTable then
    errorFmt .validator (text "Too many assignments")
  else if stmt.assignments.any (·.column.length > maxColumnNameSize) then
    errorFmt .validator (text "Column name is too long")
  else if hasDuplicate (stmt.assignments.map (·.column)) then
    errorFmt .validator (text "Duplicate column")
  else .ok ()

def validateDelete (stmt : DeleteStmt) : Except Error Unit :=
  if stmt.table.length > maxTableNameSize then
    errorFmt .validator (text "Table name is too long")
  else if stmt.conditions.length > maxWhereConditions then
    errorFmt .validator (text "Too many where conditions")
  else if stmt.conditions.any (·.column.length > maxColumnNameSize) then
    errorFmt .validator (text "Column name is too long")
  else .ok ()

def validateUpdate (stmt : UpdateStmt) : Except Error Unit :=
  if stmt.table.length > maxTableNameSize then
    errorFmt .validator (text "Table name is too long")
  else if stmt.assignments.length > maxColumnsPerTable then
    errorFmt .validator (text "Too many assignments")
  else if stmt.assignments.any (·.column.length > maxColumnNameSize) then
    errorFmt .validator (text "Column name is too long")
  else if hasDuplicate (stmt.assignments.map (·.column)) then
    errorFmt .validator (text "Duplicate column")
  else if stmt.conditions.length > maxWhereConditions then
    errorFmt .validator (text "Too many where conditions")
  else if stmt.conditions.any (·.column.length > maxColumnNameSize) then
    errorFmt .validator (text "Column name is too long")
  else .ok ()

/-! ## Analyzers -/

/-- `find_column_index`, with the error of its callers. -/
def findColumnIndex (schema : TableSchema) (columnName : Text) : Except Error Nat :=
  match schema.columns.findIdx? fun column => columnName == column.columnName with
  | some columnIndex => .ok columnIndex
  | none => errorFmt .analyzer (text "Column '" ++ columnName
      ++ text "' is not present in table '" ++ schema.tableName ++ text "'")

/-- `convert_value`, with the error of its callers. -/
def convertFor (strtof : Strtof) (columnName : Text) (value : RawValue) :
    Except Error DataValue :=
  match convertValue strtof value with
  | .ok v => .ok v
  | .error e => errorFmt .analyzer (text "Invalid value for column '" ++ columnName
      ++ text "': " ++ convertResultMsg e)

/-- The column at a position that `find_column_index` has given. -/
def columnAt (schema : TableSchema) (columnIndex : Nat) : Column :=
  schema.columns.getD columnIndex
    { columnName := [], resolvedType := ⟨.int, 0, []⟩, hasDefault := false,
      defaultValue := .null }

theorem columnAt_eq {schema : TableSchema} {pos : Nat} {column : Column}
    (h : schema.columns[pos]? = some column) : columnAt schema pos = column := by
  rw [columnAt, List.getD_eq_getElem?_getD, h]
  rfl

def analyzeSelectColumns (columns : List Text) (schema : TableSchema) :
    Except Error (List Nat) :=
  if columns = [] then .ok (List.range schema.columns.length)
  else columns.mapM (findColumnIndex schema)

/-- One round of `analyze_where_conditions`. -/
def analyzeCondition (strtof : Strtof) (schema : TableSchema) (condition : Condition) :
    Except Error WherePredicate := do
  let columnIndex ← findColumnIndex schema condition.column
  let value ← convertFor strtof condition.column condition.value
  let column := columnAt schema columnIndex
  let colTypeInfo := column.resolvedType.typeInfo
  if colTypeInfo.valueType ≠ value.type then
    errorFmt .analyzer (text "Column '" ++ column.columnName ++ text "' type ("
      ++ colTypeInfo.typeName ++ text ") do not match provided value")
  else .ok { columnIndex, value, op := condition.op }

def analyzeWhereConditions (strtof : Strtof) (conditions : List Condition)
    (schema : TableSchema) : Except Error WhereFilter :=
  conditions.mapM (analyzeCondition strtof schema)

def analyzeSelect (strtof : Strtof) (t : TableState) (stmt : SelectStmt) :
    Except Error SelectExecPlan := do
  analyzeTable t stmt.table
  let queryColumnOrder ← analyzeSelectColumns stmt.columns t.schema
  let filter ← analyzeWhereConditions strtof stmt.conditions t.schema
  .ok { queryColumnOrder, filter, ignoreIndex := stmt.ignoreIndex }

/-- The assignments of `analyze_insert`, over the columns that have a value so far. -/
def analyzeAssignments (strtof : Strtof) (schema : TableSchema) :
    List Assignment → List (Option DataValue) → Except Error (List (Option DataValue))
  | [], values => .ok values
  | assignment :: assignments, values => do
    let columnIndex ← findColumnIndex schema assignment.column
    let column := columnAt schema columnIndex
    let value ← convertFor strtof column.columnName assignment.value
    let result := resolvedTypeValidate column.resolvedType value
    if result ≠ .ok then
      errorFmt .analyzer (text "Invalid value for column '" ++ column.columnName
        ++ text "': " ++ validateTypeResultMsg result)
    else analyzeAssignments strtof schema assignments (values.set columnIndex (some value))

/-- A column that is left takes its default. -/
def valueOrDefault (column : Column) : Option DataValue → Except Error DataValue
  | some value => .ok value
  | none =>
    if column.hasDefault then .ok column.defaultValue
    else errorFmt .analyzer (text "Column '" ++ column.columnName
      ++ text "' have no default value")

def fillDefaults : List Column → List (Option DataValue) → Except Error DataRow
  | [], _ => .ok []
  | column :: columns, values => do
    let value ← valueOrDefault column (values.headD none)
    let rest ← fillDefaults columns values.tail
    .ok (value :: rest)

def analyzeInsert (strtof : Strtof) (t : TableState) (stmt : InsertStmt) :
    Except Error DataRow := do
  analyzeTable t stmt.table
  if stmt.assignments.length > t.schema.columns.length then
    errorFmt .analyzer (text "Too many assignments for table '" ++ t.schema.tableName
      ++ text "'")
  else
    let values ← analyzeAssignments strtof t.schema stmt.assignments
      (List.replicate t.schema.columns.length none)
    fillDefaults t.schema.columns values

def analyzeDelete (strtof : Strtof) (t : TableState) (stmt : DeleteStmt) :
    Except Error WhereFilter := do
  analyzeTable t stmt.table
  analyzeWhereConditions strtof stmt.conditions t.schema

/-- One assignment of `analyze_update`. -/
def analyzeUpdateAssignment (strtof : Strtof) (schema : TableSchema)
    (assignment : Assignment) : Except Error (Nat × DataValue) := do
  let columnIndex ← findColumnIndex schema assignment.column
  let value ← convertFor strtof assignment.column assignment.value
  .ok (columnIndex, value)

def analyzeUpdate (strtof : Strtof) (t : TableState) (stmt : UpdateStmt) :
    Except Error UpdateExecPlan := do
  analyzeTable t stmt.table
  let values ← stmt.assignments.mapM (analyzeUpdateAssignment strtof t.schema)
  let filter ← analyzeWhereConditions strtof stmt.conditions t.schema
  .ok { values, filter }

/-! ## Planners -/

/-- `column_covered`: the first predicate on the column, if the index supports it. -/
def columnCovered (columnPos : Nat) (type : IndexType) (filter : WhereFilter) :
    Checked (Option WherePredicate) :=
  match filter.find? fun predicate => columnPos == predicate.columnIndex with
  | none => .ok none
  | some predicate => do
    if ← indexSupportsOp type predicate.op then .ok (some predicate) else .ok none

def scoreParts (type : IndexType) (filter : WhereFilter) : List IndexPart → Checked Nat
  | [] => .ok 0
  | part :: parts => do
    match ← columnCovered part.columnPos type filter with
    | none => .ok 0
    | some _ =>
      let score ← scoreParts type filter parts
      .ok (score + 1)

def scoreIndex (indexDef : IndexDefinition) (filter : WhereFilter) : Checked Nat :=
  scoreParts indexDef.type filter indexDef.parts

/-- `choose_best_index`, with the best score and index so far. -/
def chooseBestIndex (filter : WhereFilter) : IndexMeta → (maxScore : Nat) →
    Option IndexDefinition → Checked (Option IndexDefinition)
  | [], _, best => .ok best
  | indexDef :: indexMeta, maxScore, best => do
    let score ← scoreIndex indexDef filter
    let vt ← indexVtableOf indexDef.type
    if vt.requiresFullMatch && score != indexDef.parts.length then
      chooseBestIndex filter indexMeta maxScore best
    else if score > maxScore then chooseBestIndex filter indexMeta score (some indexDef)
    else chooseBestIndex filter indexMeta maxScore best

/-- The predicates that `fill_best_index` copies into the decision. -/
def coveringPredicates (type : IndexType) (filter : WhereFilter) :
    List IndexPart → Checked (List (Nat × WherePredicate))
  | [] => .ok []
  | part :: parts => do
    match ← columnCovered part.columnPos type filter with
    | none => .ok []
    | some predicate =>
      let rest ← coveringPredicates type filter parts
      .ok ((part.columnPos, predicate) :: rest)

def fillBestIndex (indexDef : Option IndexDefinition) (filter : WhereFilter) :
    Checked (Option IndexDecision) :=
  match indexDef with
  | none => .ok none
  | some indexDef => do
    let predicates ← coveringPredicates indexDef.type filter indexDef.parts
    if predicates = [] then .ok none
    else .ok (some {
      indexDef
      values := predicates.map fun p => p.2.value
      columnPositions := predicates.map Prod.fst })

def selectBestIndex (filter : WhereFilter) (indexMeta : IndexMeta) :
    Checked (Option IndexDecision) := do
  let best ← chooseBestIndex filter indexMeta 0 none
  fillBestIndex best filter

def planSelect (t : TableState) (plan : SelectExecPlan) : Checked (Option IndexDecision) :=
  if plan.ignoreIndex then .ok none else selectBestIndex plan.filter t.indexMeta

def planDelete (t : TableState) (filter : WhereFilter) : Checked (Option IndexDecision) :=
  selectBestIndex filter t.indexMeta

def planUpdate (t : TableState) (plan : UpdateExecPlan) : Checked (Option IndexDecision) :=
  selectBestIndex plan.filter t.indexMeta

/-! ## Row sources -/

variable [UnionMemory]

/-- The index whose file is named after the definition. -/
def indexOpen (t : TableState) (indexDef : IndexDefinition) : Checked KeyMap :=
  match t.indexes.find? fun entry => entry.1 == indexDef with
  | some entry => .ok entry.2
  | none => .error .badAddress

/-- The rows of an index scan: at most one. -/
def indexScan (t : TableState) (decision : IndexDecision) : Checked (List StoredRow) := do
  let index ← indexOpen t decision.indexDef
  let key ← indexBuildKey decision.indexDef decision.values decision.values.length
  match index key with
  | none => .ok []
  | some offset =>
    match ← storageLoadRow t.dataFile t.schema offset with
    | some row => .ok [{ row, offset }]
    | none => .ok []

def createRowSource (t : TableState) (decision : Option IndexDecision) :
    Checked (List StoredRow) :=
  match decision with
  | some decision => indexScan t decision
  | none => tableScan t.dataFile t.schema

def matchesWhere (row : DataRow) : WhereFilter → Checked Bool
  | [] => .ok true
  | predicate :: filter => do
    let value ← readAt row predicate.columnIndex
    let cmpResult ← compareValue value predicate.value
    if compareMatchesOp predicate.op cmpResult then matchesWhere row filter else .ok false

/-- The rows of a source that pass the filter. -/
def matchingRows (filter : WhereFilter) : List StoredRow → Checked (List StoredRow)
  | [] => .ok []
  | storedRow :: rows => do
    let matched ← matchesWhere storedRow.row filter
    let rest ← matchingRows filter rows
    .ok (if matched then storedRow :: rest else rest)

/-- The loop of the executors over a row source. -/
def matchedRows (t : TableState) (filter : WhereFilter) (decision : Option IndexDecision) :
    Checked (List StoredRow) := do
  let source ← createRowSource t decision
  matchingRows filter source

/-! ## Executors -/

/-- `execute_select`: the rows that are printed. -/
def executeSelect (t : TableState) (plan : SelectExecPlan)
    (decision : Option IndexDecision) : Checked (List StoredRow) :=
  matchedRows t plan.filter decision

def duplicateError (indexDef : IndexDefinition) : Error :=
  { code := .executor
    msg := (text "Duplicate value(s) for unique index '" ++ indexDef.name ++ text "'").take 255 }

def executeInsert (t : TableState) (values : DataRow) :
    Checked (Except Error TableState) := do
  match ← indexSetHasDuplicate t.indexes values with
  | some indexDef => .ok (.error (duplicateError indexDef))
  | none =>
    let (dataFile, offset) ← storageInsertRow t.dataFile values t.schema
    let indexes ← indexSetInsert t.indexes values offset
    .ok (.ok { t with dataFile, indexes })

/-- The loop of `execute_delete` over the rows that match.  The result of
`index_set_delete` is not looked at. -/
def deleteFromIndexes : List StoredRow → IndexSet → Checked IndexSet
  | [], indexes => .ok indexes
  | storedRow :: rows, indexes => do
    let (_, indexes) ← indexSetDelete indexes storedRow.row
    deleteFromIndexes rows indexes

def executeDelete (t : TableState) (filter : WhereFilter) (decision : Option IndexDecision) :
    Checked (Except Error TableState) := do
  let rows ← matchedRows t filter decision
  let indexes ← deleteFromIndexes rows t.indexes
  if rows = [] then .ok (.ok t)
  else
    .ok (.ok { t with
      dataFile := storageDeleteRows t.dataFile (rows.map (·.offset))
      indexes })

structure UpdatePair where
  original : StoredRow
  updated : DataRow
  deriving DecidableEq, Repr

/-- `fill_update_row`: the updated row, and whether a value has changed. -/
def fillUpdateRow : (values : List (Nat × DataValue)) → (updated : DataRow) →
    (hasChanges : Bool) → Checked (DataRow × Bool)
  | [], updated, hasChanges => .ok (updated, hasChanges)
  | (columnPos, value) :: values, updated, hasChanges => do
    let current ← readAt updated columnPos
    let result ← compareValue value current
    if result ≠ 0 then
      let updated ← writeAt updated columnPos value
      fillUpdateRow values updated true
    else fillUpdateRow values updated hasChanges

/-- The rows that match and change, each with its new values. -/
def updatePairs (values : List (Nat × DataValue)) : List StoredRow → Checked (List UpdatePair)
  | [] => .ok []
  | original :: rows => do
    let (updated, hasChanges) ← fillUpdateRow values original.row false
    let pairs ← updatePairs values rows
    .ok (if hasChanges then { original, updated } :: pairs else pairs)

/-- Both rows have equal values in all columns of the index. -/
def equalInIndex (a b : DataRow) : List IndexPart → Checked Bool
  | [] => .ok true
  | part :: parts => do
    let va ← readAt a part.columnPos
    let vb ← readAt b part.columnPos
    if (← compareValue va vb) ≠ 0 then .ok false else equalInIndex a b parts

def hasEqual (indexDef : IndexDefinition) (a : DataRow) : List UpdatePair → Checked Bool
  | [] => .ok false
  | pair :: pairs => do
    if ← equalInIndex a pair.updated indexDef.parts then .ok true
    else hasEqual indexDef a pairs

def indexBatchHasDuplicates (indexDef : IndexDefinition) : List UpdatePair → Checked Bool
  | [] => .ok false
  | pair :: pairs => do
    if ← hasEqual indexDef pair.updated pairs then .ok true
    else indexBatchHasDuplicates indexDef pairs

/-- `batch_check_unique_keys`: the first index for which two rows of the batch agree. -/
def batchCheckUniqueKeys (pairs : List UpdatePair) : IndexSet → Checked (Option IndexDefinition)
  | [] => .ok none
  | (indexDef, _) :: indexes => do
    if ← indexBatchHasDuplicates indexDef pairs then .ok (some indexDef)
    else batchCheckUniqueKeys pairs indexes

/-- The loop of `execute_update` over `index_set_has_conflict`. -/
def updateConflict (indexes : IndexSet) : List UpdatePair → Checked (Option IndexDefinition)
  | [] => .ok none
  | pair :: pairs => do
    match ← indexSetHasConflict indexes pair.updated pair.original.offset with
    | some indexDef => .ok (some indexDef)
    | none => updateConflict indexes pairs

/-- The loop of `execute_update` that writes. -/
def writeUpdates : List UpdatePair → TableState → Checked TableState
  | [], t => .ok t
  | pair :: pairs, t => do
    let dataFile := storageDeleteRow t.dataFile pair.original.offset
    let (dataFile, offset) ← storageInsertRow dataFile pair.updated t.schema
    let (_, indexes) ← indexSetDelete t.indexes pair.original.row
    let indexes ← indexSetInsert indexes pair.updated offset
    writeUpdates pairs { t with dataFile, indexes }

def batchError (indexDef : IndexDefinition) : Error :=
  { code := .index
    msg := (text "Update contains duplicates for unique index '" ++ indexDef.name
      ++ text "'").take 255 }

/-- The rows that `execute_update` is about to write. -/
def collectUpdates (t : TableState) (plan : UpdateExecPlan) (decision : Option IndexDecision) :
    Checked (List UpdatePair) := do
  let rows ← matchedRows t plan.filter decision
  updatePairs plan.values rows

/-- The two checks of `execute_update`. -/
def checkUpdates (t : TableState) (pairs : List UpdatePair) : Checked (Except Error Unit) := do
  match ← updateConflict t.indexes pairs with
  | some indexDef => .ok (.error (duplicateError indexDef))
  | none =>
    match ← batchCheckUniqueKeys pairs t.indexes with
    | some indexDef => .ok (.error (batchError indexDef))
    | none => .ok (.ok ())

def executeUpdate (t : TableState) (plan : UpdateExecPlan) (decision : Option IndexDecision) :
    Checked (Except Error TableState) := do
  let pairs ← collectUpdates t plan decision
  match ← checkUpdates t pairs with
  | .error e => .ok (.error e)
  | .ok () =>
    let t ← writeUpdates pairs t
    .ok (.ok t)

/-! ## Pipelines -/

/-- A pipeline whose first stages fail or give a plan. -/
def runStages {α β : Type} (stages : Except Error α) (execute : α → Checked (Except Error β)) :
    Checked (Except Error β) :=
  match stages with
  | .error e => .ok (.error e)
  | .ok plan => execute plan

def runSelect (strtof : Strtof) (t : TableState) (stmt : SelectStmt) :
    Checked (Except Error (List StoredRow)) :=
  runStages (do validateSelect stmt; analyzeSelect strtof t stmt) fun plan => do
    let decision ← planSelect t plan
    let rows ← executeSelect t plan decision
    .ok (.ok rows)

def runInsert (strtof : Strtof) (t : TableState) (stmt : InsertStmt) :
    Checked (Except Error TableState) :=
  runStages (do validateInsert stmt; analyzeInsert strtof t stmt) (executeInsert t)

def runDelete (strtof : Strtof) (t : TableState) (stmt : DeleteStmt) :
    Checked (Except Error TableState) :=
  runStages (do validateDelete stmt; analyzeDelete strtof t stmt) fun filter => do
    let decision ← planDelete t filter
    executeDelete t filter decision

def runUpdate (strtof : Strtof) (t : TableState) (stmt : UpdateStmt) :
    Checked (Except Error TableState) :=
  runStages (do validateUpdate stmt; analyzeUpdate strtof t stmt) fun plan => do
    let decision ← planUpdate t plan
    executeUpdate t plan decision

end Maxql
