import Maxql.Disk.Ddl

/-!
# INSERT, UPDATE and CREATE INDEX over files

The executors that check unique keys, with the file operations in the order of
the source: `execute_insert` and `execute_update` of
`src/engine/dml/executor.c`, `execute_create_index` of
`src/engine/ddl/executor.c`, and what they call of `src/storage`, `src/index`
and `src/scan`.  The rows of a row source stand in a list, because nothing is
written while it is open.
-/

namespace Maxql.Disk

open Program Bytes

/-! ## Data files -/

/-- `storage_open` does not look at the error of `open_file`. -/
def storageOpen (tableName : Text) : Prog World (Stream (.data tableName)) := do
  let (dataFile, _) ← openFile (.data tableName) .update .storage
    (text "Failed to open data file")
  return dataFile

/-- `storage_insert_row`: the offset of the new row. -/
def storageInsertRow [UnionMemory] {tableName : Text} (dataFile : Stream (.data tableName))
    (values : DataRow) (schema : TableSchema) : Prog World Nat := do
  let bytes ← dataFile.contents
  let (bytes, offset) ← Maxql.storageInsertRow bytes values schema
  dataFile.flush bytes
  return offset

def storageDeleteRow {tableName : Text} (dataFile : Stream (.data tableName)) (offset : Nat) :
    Prog World Unit := do
  let bytes ← dataFile.contents
  dataFile.flush (Maxql.storageDeleteRow bytes offset)

/-! ## Indexes -/

/-- `index_load` does not look at the error of `open_file`.  From a file without a byte
`btree_load` hands out a tree that it has freed. -/
def indexLoad (tableName : Text) (indexDef : IndexDefinition) : Prog World KeyMap := do
  let (file, _) ← openFile (.index tableName indexDef.name) .read .storage
    (text "Cannot open index file")
  match (← file.contents : Option KeyMap) with
  | some index => return index
  | none => liftM (Except.error Fault.badAddress : Checked KeyMap)

def indexSetLoad (tableName : Text) : IndexMeta → Prog World IndexSet
  | [] => return []
  | indexDef :: indexMeta => do
    let index ← indexLoad tableName indexDef
    let indexSet ← indexSetLoad tableName indexMeta
    return (indexDef, index) :: indexSet

/-- `backfill_index` on a new index.  The first row gives its tree a root. -/
def backfillIndex [UnionMemory] (schema : TableSchema) (indexDef : IndexDefinition) :
    Prog World (Except Error (Option KeyMap)) := do
  let dataFile ← storageOpen schema.tableName
  let bytes ← dataFile.contents
  match ← (Maxql.backfillIndex bytes schema indexDef indexCreate :
      Checked (Except Error KeyMap)) with
  | .error e => return .error e
  | .ok index =>
    let rows ← tableScan bytes schema
    return .ok (if rows.isEmpty then none else some index)

/-! ## Row sources -/

/-- The rows of an index scan: at most one.  In a file without a byte `btree_search_stream` goes
by a root that it has not read. -/
def indexScan [UnionMemory] (schema : TableSchema) (decision : IndexDecision) :
    Prog World (List StoredRow) := do
  let (indexFile, _) ← openFile (.index schema.tableName decision.indexDef.name) .read .index
    (text "Cannot open index file")
  let key ← indexBuildKey decision.indexDef decision.values decision.values.length
  match (← indexFile.contents : Option KeyMap) with
  | none => liftM (Except.error Fault.uninitialised : Checked (List StoredRow))
  | some index =>
    let dataFile ← storageOpen schema.tableName
    match index key with
    | none => return []
    | some offset =>
      let bytes ← dataFile.contents
      match ← (storageLoadRow bytes schema offset : Checked (Option DataRow)) with
      | some row => return [{ row, offset }]
      | none => return []

def createRowSource [UnionMemory] (schema : TableSchema) (decision : Option IndexDecision) :
    Prog World (List StoredRow) :=
  match decision with
  | some decision => indexScan schema decision
  | none => do
    let dataFile ← storageOpen schema.tableName
    let bytes ← dataFile.contents
    tableScan bytes schema

/-! ## Executors -/

def executeInsert [UnionMemory] (table : TableMeta) (values : DataRow) : Prog World
    (Except Error Unit) := do
  let dataFile ← storageOpen table.name
  let indexSet ← indexSetLoad table.name table.indexMeta
  match ← (indexSetHasDuplicate indexSet values : Checked (Option IndexDefinition)) with
  | some indexDef => return .error (duplicateError indexDef)
  | none =>
    let offset ← storageInsertRow dataFile values table.schema
    let indexSet ← indexSetInsert indexSet values offset
    indexSetSave table.name (rooted indexSet)
    return .ok ()

/-- The loop of `execute_update` that writes.  The result of `index_set_delete` is not looked
at. -/
def writeUpdates [UnionMemory] {tableName : Text} (dataFile : Stream (.data tableName))
    (schema : TableSchema) : List UpdatePair → IndexSet → Prog World IndexSet
  | [], indexSet => return indexSet
  | pair :: pairs, indexSet => do
    storageDeleteRow dataFile pair.original.offset
    let offset ← storageInsertRow dataFile pair.updated schema
    let (_, indexSet) ← indexSetDelete indexSet pair.original.row
    let indexSet ← indexSetInsert indexSet pair.updated offset
    writeUpdates dataFile schema pairs indexSet

def executeUpdate [UnionMemory] (table : TableMeta) (plan : UpdateExecPlan)
    (decision : Option IndexDecision) : Prog World (Except Error Unit) := do
  let indexSet ← indexSetLoad table.name table.indexMeta
  let source ← createRowSource table.schema decision
  let rows ← matchingRows plan.filter source
  let pairs ← updatePairs plan.values rows
  match ← (updateConflict indexSet pairs : Checked (Option IndexDefinition)) with
  | some indexDef => return .error (duplicateError indexDef)
  | none =>
    match ← (batchCheckUniqueKeys pairs indexSet : Checked (Option IndexDefinition)) with
    | some indexDef => return .error (batchError indexDef)
    | none =>
      let dataFile ← storageOpen table.name
      let indexSet ← writeUpdates dataFile table.schema pairs indexSet
      indexSetSave table.name (rooted indexSet)
      return .ok ()

def executeCreateIndex [UnionMemory] (unwritten : Unwritten) (printFloat : FloatFormat) (pos : Nat)
    (indexDef : IndexDefinition) : Prog World (Except Error Unit) := do
  let w ← get
  let table ← readAt w.tables pos
  match ← backfillIndex table.schema indexDef with
  | .error e => return .error e
  | .ok index =>
    indexSave table.name indexDef index
    let indexMeta := table.indexMeta ++ [indexDef]
    modify fun w => { w with tables := w.tables.set pos { table with indexMeta } }
    schemaSaveTable unwritten printFloat table.schema (some indexMeta)

/-! ## Pipelines -/

/-- The statements that check unique keys. -/
inductive KeyStatement where
  | insert (stmt : InsertStmt)
  | update (stmt : UpdateStmt)
  | createIndex (stmt : CreateIndexStmt)
  deriving DecidableEq, Repr

/-- The validator and the analyzer of INSERT. -/
def insertStages (strtof : Strtof) (stmt : InsertStmt) (tables : Database) :
    Except Error (TableMeta × DataRow) := do
  validateInsert stmt
  let (table, _) ← lookupTable .analyzer (text "' not exist") tables stmt.table
  if stmt.assignments.length > table.schema.columns.length then
    errorFmt .analyzer (text "Too many assignments for table '" ++ table.name ++ text "'")
  else
    let values ← analyzeAssignments strtof table.schema stmt.assignments
      (List.replicate table.schema.columns.length none)
    let values ← fillDefaults table.schema.columns values
    return (table, values)

/-- The validator and the analyzer of UPDATE. -/
def updateStages (strtof : Strtof) (stmt : UpdateStmt) (tables : Database) :
    Except Error (TableMeta × UpdateExecPlan) := do
  validateUpdate stmt
  let (table, _) ← lookupTable .analyzer (text "' not exist") tables stmt.table
  let values ← stmt.assignments.mapM (analyzeUpdateAssignment strtof table.schema)
  let filter ← analyzeWhereConditions strtof stmt.conditions table.schema
  return (table, { values, filter })

/-- The validator and the planner of CREATE INDEX. -/
def createIndexStages (stmt : CreateIndexStmt) (tables : Database) :
    Except Error (Nat × IndexDefinition) := do
  validateCreateIndex stmt
  let (table, pos) ← lookupTable .planner (text "' not found") tables stmt.table
  let indexDef ← planCreateIndex table.schema table.indexMeta stmt
  return (pos, indexDef)

/-- `pipeline_run` on a statement. -/
def runKeyStatement [UnionMemory] (strtof : Strtof) (unwritten : Unwritten)
    (printFloat : FloatFormat) : KeyStatement → Prog World (Except Error Unit)
  | .insert stmt => runPipeline (insertStages strtof stmt) fun (table, values) =>
    executeInsert table values
  | .update stmt => runPipeline (updateStages strtof stmt) fun (table, plan) => do
    let decision ← selectBestIndex plan.filter table.indexMeta
    executeUpdate table plan decision
  | .createIndex stmt => runPipeline (createIndexStages stmt) fun (pos, indexDef) =>
    executeCreateIndex unwritten printFloat pos indexDef

end Maxql.Disk
