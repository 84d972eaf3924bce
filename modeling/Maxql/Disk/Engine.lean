import Maxql.Disk.Dml
import Maxql.Engine.Database

/-!
# The engine over files

The executors that are left of `src/engine`, with the file operations in the
order of the source, and `engine_run` over the files of a database.  What a
statement prints is its answer.

The groups are the executors, the stages in front of them, and the pipelines.
-/

namespace Maxql.Disk

open Program Bytes

/-! ## Executors -/

def executeSelect [UnionMemory] (table : TableMeta) (plan : SelectExecPlan)
    (decision : Option IndexDecision) : Prog World (Except Error Response) := do
  let source ← createRowSource table.schema decision
  let rows ← matchingRows plan.filter source
  return .ok (.rows plan.queryColumnOrder
    (rows.map fun x => selectedValues plan.queryColumnOrder x.row))

def storageDeleteRows {tableName : Text} (dataFile : Stream (.data tableName))
    (offsets : List Nat) : Prog World Unit := do
  let bytes ← dataFile.contents
  dataFile.flush (Maxql.storageDeleteRows bytes offsets)

/-- The result of `index_set_delete` is not looked at. -/
def executeDelete [UnionMemory] (table : TableMeta) (filter : WhereFilter)
    (decision : Option IndexDecision) : Prog World (Except Error Response) := do
  let indexSet ← indexSetLoad table.name table.indexMeta
  let source ← createRowSource table.schema decision
  let rows ← matchingRows filter source
  let indexSet ← deleteFromIndexes rows indexSet
  if rows = [] then return .ok (.affectedRows 0)
  else
    let dataFile ← storageOpen table.name
    storageDeleteRows dataFile (rows.map (·.offset))
    indexSetSave table.name (rooted indexSet)
    return .ok (.affectedRows rows.length)

/-- `execute_update`, with the number that it prints. -/
def answerUpdate [UnionMemory] (table : TableMeta) (plan : UpdateExecPlan)
    (decision : Option IndexDecision) : Prog World (Except Error Response) := do
  let indexSet ← indexSetLoad table.name table.indexMeta
  let source ← createRowSource table.schema decision
  let rows ← matchingRows plan.filter source
  let pairs ← updatePairs plan.values rows
  match ← (updateConflict indexSet pairs : Checked (Option IndexDefinition)) with
  | some indexDef => return .error (duplicateError indexDef)
  | none =>
    match ← (batchCheckUniqueKeys pairs indexSet : Checked (Option IndexDefinition)) with
    | some indexDef => return .error (batchError indexDef)
    | none =>
      let dataFile ← storageOpen table.name
      let indexSet ← writeUpdates dataFile table.schema pairs indexSet
      indexSetSave table.name (rooted indexSet)
      return .ok (.affectedRows pairs.length)

/-- `schema_remove_index_def` changes the list of the tables before the schema file is written,
and the index file goes last. -/
def executeDropIndex (unwritten : Unwritten) (printFloat : FloatFormat) (pos indexPos : Nat)
    (indexName : Text) : Prog World (Except Error Unit) := do
  let w ← get
  let table ← readAt w.tables pos
  let indexMeta := table.indexMeta.eraseIdx indexPos
  set { w with tables := w.tables.set pos { table with indexMeta } }
  match ← schemaSaveTable unwritten printFloat table.schema (some indexMeta) with
  | .error e => return .error e
  | .ok () =>
    indexDeleteFile table.schema.tableName indexName
    return .ok ()

/-! ## Stages -/

/-- The validator and the analyzer of SELECT. -/
def selectStages (strtof : Strtof) (stmt : SelectStmt) (tables : Database) :
    Except Error (TableMeta × SelectExecPlan) := do
  validateSelect stmt
  let (table, _) ← lookupTable .analyzer (text "' not exist") tables stmt.table
  let queryColumnOrder ← analyzeSelectColumns stmt.columns table.schema
  let filter ← analyzeWhereConditions strtof stmt.conditions table.schema
  return (table, { queryColumnOrder, filter, ignoreIndex := stmt.ignoreIndex })

/-- The validator and the analyzer of DELETE. -/
def deleteStages (strtof : Strtof) (stmt : DeleteStmt) (tables : Database) :
    Except Error (TableMeta × WhereFilter) := do
  validateDelete stmt
  let (table, _) ← lookupTable .analyzer (text "' not exist") tables stmt.table
  let filter ← analyzeWhereConditions strtof stmt.conditions table.schema
  return (table, filter)

/-- The validator and the planner of DROP INDEX: the positions of the table and the index, and
the name of the index. -/
def dropIndexStages (stmt : DropIndexStmt) (tables : Database) :
    Except Error (Nat × Nat × Text) := do
  validateDropIndex stmt
  let (table, pos) ← lookupTable .planner (text "' not found") tables stmt.table
  let indexName := svToCstr stmt.index (maxIndexNameSize + 1)
  match table.indexMeta.findIdx? fun indexDef => indexDef.name == indexName with
  | some indexPos => return (pos, indexPos, indexName)
  | none => errorFmt .planner (text "Index '" ++ indexName ++ text "' is not present in table '"
      ++ table.name ++ text "'")

/-! ## Pipelines -/

section Pipelines

variable (strtof : Strtof) (unwritten : Unwritten) (printFloat : FloatFormat)

/-- A pipeline whose first stages look at the list of the tables only. -/
def answerPipeline {α : Type} (stages : Database → Except Error α)
    (execute : α → Prog World (Except Error Response)) : Prog World (Except Error Response) := do
  let w ← get
  match stages w.tables with
  | .error e => return .error e
  | .ok plan => execute plan

/-- What an executor prints at its end. -/
def printing (response : Response) (p : Prog World (Except Error Unit)) :
    Prog World (Except Error Response) := do
  return (← p).map fun () => response

/-- `pipeline_run` over files. -/
def pipelineRun [UnionMemory] : Query → Prog World (Except Error Response)
  | .createTable stmt =>
    printing .ok (runTableStatement strtof unwritten printFloat (.createTable stmt))
  | .dropTable stmt =>
    printing .ok (runTableStatement strtof unwritten printFloat (.dropTable stmt))
  | .truncateTable stmt =>
    printing .ok (runTableStatement strtof unwritten printFloat (.truncateTable stmt))
  | .insert stmt =>
    printing (.affectedRows 1) (runKeyStatement strtof unwritten printFloat (.insert stmt))
  | .createIndex stmt =>
    printing .ok (runKeyStatement strtof unwritten printFloat (.createIndex stmt))
  | .dropIndex stmt => answerPipeline (dropIndexStages stmt) fun (pos, indexPos, indexName) =>
    printing .ok (executeDropIndex unwritten printFloat pos indexPos indexName)
  | .select stmt => answerPipeline (selectStages strtof stmt) fun (table, plan) => do
    let decision ← (if plan.ignoreIndex then .ok none
      else selectBestIndex plan.filter table.indexMeta : Checked (Option IndexDecision))
    executeSelect table plan decision
  | .delete stmt => answerPipeline (deleteStages strtof stmt) fun (table, filter) => do
    let decision ← selectBestIndex filter table.indexMeta
    executeDelete table filter decision
  | .update stmt => answerPipeline (updateStages strtof stmt) fun (table, plan) => do
    let decision ← selectBestIndex plan.filter table.indexMeta
    answerUpdate table plan decision
  | .showTables => do
    let w ← get
    return .ok (.cells showTablesNames (w.tables.map fun table => [table.name]))
  | .showTable stmt =>
    answerPipeline (fun tables => lookupTable .executor (text "' not found") tables stmt.table)
      fun (table, _) => do
        let rows ← showTableRows unwritten printFloat table.schema table.indexMeta
        return .ok (.cells showTableNames rows)
  | .showIndex stmt =>
    answerPipeline (fun tables => lookupTable .executor (text "' not found") tables stmt.table)
      fun (table, _) => do
        let rows ← showIndexRows table.indexMeta
        return .ok (.cells showIndexNames rows)
  | .showIndexTypes => return .ok (.cells showIndexTypesNames showIndexTypesRows)
  | .unknown => return errorFmt .internal (text "No pipeline defined for query type")

end Pipelines

/-- `execute_update` is what `answerUpdate` does, without the number. -/
theorem executeUpdate_eq [UnionMemory] (table : TableMeta) (plan : UpdateExecPlan)
    (decision : Option IndexDecision) :
    executeUpdate table plan decision
      = do return (← answerUpdate table plan decision).map fun _ => () := by
  unfold executeUpdate answerUpdate
  simp only [bind_assoc]
  refine bind_congr fun indexSet => bind_congr fun source => bind_congr fun rows =>
    bind_congr fun pairs => bind_congr fun conflict => ?_
  cases conflict with
  | some indexDef => rfl
  | none =>
    simp only [bind_assoc]
    refine bind_congr fun shared => ?_
    cases shared with
    | some indexDef => rfl
    | none =>
      simp only [bind_assoc]
      rfl

end Maxql.Disk
