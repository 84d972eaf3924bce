import Maxql.Database.CatalogRun
import Maxql.Disk.Files
import Maxql.Engine.Resolve
import Maxql.Schema.Load
import Maxql.Schema.Save

/-!
# CREATE TABLE, DROP TABLE and TRUNCATE TABLE over files

The executors of `src/engine/ddl/executor.c` that create, empty and remove
tables, with the file operations in the order of the source, and the pipelines
around them.  A pointer to an entry of the list of tables is its position.
-/

namespace Maxql.Disk

open Program Bytes

/-! ## Schema and data files -/

/-- `schema_save_table` -/
def schemaSaveTable (unwritten : Unwritten) (printFloat : FloatFormat) (schema : TableSchema)
    (indexMeta : Option IndexMeta) : Prog World (Except Error Unit) := do
  let (schemaFile, fileError) ← openFile (.schema schema.tableName) .write .storage
    (text "Failed to create schema file")
  match fileError with
  | .error e => return .error e
  | .ok () =>
    let buf ← Maxql.schemaSaveTable unwritten printFloat schema indexMeta
    schemaFile.flush buf
    return .ok ()

theorem schemaSaveTable_fails {w : World} (unwritten : Unwritten) (printFloat : FloatFormat)
    (h : w.failsIn = some 0) (schema : TableSchema) (indexMeta : Option IndexMeta) :
    ∃ e, Runs (schemaSaveTable unwritten printFloat schema indexMeta) w (.error e) w.tick :=
  ⟨_, Runs.bind (openFile_null (fopen_fails h)) rfl⟩

theorem schemaSaveTable_goes {unwritten : Unwritten} {printFloat : FloatFormat} {w : World}
    (h : w.failsIn ≠ some 0) {schema : TableSchema}
    {indexMeta : Option IndexMeta} {buf : Text}
    (hbuf : Maxql.schemaSaveTable unwritten printFloat schema indexMeta = .ok buf) :
    Runs (schemaSaveTable unwritten printFloat schema indexMeta) w (.ok ())
      (w.tick.put (.schema schema.tableName) (some buf)) := by
  refine Runs.bind (openFile_opened (fopen_write h)) (Runs.bind (Runs.lift hbuf _) ?_)
  refine Runs.bind (Runs.modify _ _) ?_
  rw [World.put_put]
  exact Runs.pure _ _

/-- Only the opening of the file can fail. -/
theorem schemaSaveTable_onError {w : World} (h : w.failsIn ≠ some 0) (unwritten : Unwritten)
    (printFloat : FloatFormat) (schema : TableSchema) (indexMeta : Option IndexMeta)
    (I : World → Prop) : OnError (schemaSaveTable unwritten printFloat schema indexMeta) w I := by
  refine (onError_of_runs (openFile_opened (fopen_write h))).2 ?_
  refine OnError.lift fun buf _ => ?_
  exact onError_bind_ok _ () _ I

def schemaRemoveTable (tableName : Text) : Prog World Bool :=
  removeFile (.schema tableName)

def storageRemoveTable (tableName : Text) : Prog World Bool :=
  removeFile (.data tableName)

def storageCreateTable (tableName : Text) : Prog World (Except Error Unit) := do
  let (_, fileError) ← openFile (.data tableName) .create .storage
    (text "Failed to create data file")
  return fileError

/-! ## Index files -/

/-- `index_delete_file` does not look at the result of `delete_file`. -/
def indexDeleteFile (tableName indexName : Text) : Prog World Unit := do
  let _ ← deleteFile (.index tableName indexName) .storage (text "Cannot delete index file")

def indexSetPurge (tableName : Text) : IndexMeta → Prog World Unit
  | [] => return
  | indexDef :: indexMeta => do
    indexDeleteFile tableName indexDef.name
    indexSetPurge tableName indexMeta

/-- `index_save` does not look at the error of `open_file`.  A tree without a root leaves no
byte. -/
def indexSave (tableName : Text) (indexDef : IndexDefinition) (index : Option KeyMap) :
    Prog World Unit := do
  let (file, _) ← openFile (.index tableName indexDef.name) .write .storage
    (text "Cannot create index file")
  file.flush index

/-- The indexes of a table, with a root or without. -/
abbrev TreeSet := List (IndexDefinition × Option KeyMap)

def indexSetSave (tableName : Text) : TreeSet → Prog World Unit
  | [] => return
  | (indexDef, index) :: indexSet => do
    indexSave tableName indexDef index
    indexSetSave tableName indexSet

/-- A new tree has no root. -/
def indexSetCreate (table : TableMeta) : TreeSet :=
  table.indexMeta.map fun indexDef => (indexDef, none)

/-- The trees of indexes that have been loaded.  A tree that has a root keeps one. -/
def rooted (indexSet : IndexSet) : TreeSet :=
  indexSet.map fun entry => (entry.1, some entry.2)

theorem indexSave_goes {w : World} (h : w.failsIn ≠ some 0) (tableName : Text)
    (indexDef : IndexDefinition) (index : Option KeyMap) :
    Runs (indexSave tableName indexDef index) w ()
      (w.tick.put (.index tableName indexDef.name) (some index)) := by
  let file : FileName := .index tableName indexDef.name
  have hflush := Runs.modify (fun w : World => w.put file (some index))
    (w.tick.put file (some file.empty))
  rw [World.put_put] at hflush
  exact Runs.bind (openFile_opened (fopen_write h)) hflush

/-! ## The list of the tables -/

def databaseSave (unwritten : Unwritten) : Prog World (Except Error Unit) := do
  let (file, fileError) ← openFile .catalog .write .storage (text "Cannot open catalog file")
  match fileError with
  | .error e => return .error e
  | .ok () =>
    let w ← get
    let buffer ← catalogText (unwritten catalogBufferSize).toList w.tables
    file.flush buffer
    return .ok ()

/-- `database_add_table` takes the table from the list again where the list cannot be saved. -/
def databaseAddTable (unwritten : Unwritten) (schema : TableSchema) :
    Prog World (Except Error Unit) := do
  modify fun w => { w with tables := databasePush w.tables schema }
  match ← databaseSave unwritten with
  | .error e =>
    modify fun w => { w with tables := w.tables.dropLast }
    return .error e
  | .ok () => return .ok ()

def databaseRemoveTable (unwritten : Unwritten) (tableName : NameRef) :
    Prog World (Except Error Unit) := do
  let w ← get
  let tables ← databaseShift w.tables tableName
  set { w with tables }
  databaseSave unwritten

/-! ## Executors -/

def executeCreateTable (unwritten : Unwritten) (printFloat : FloatFormat) (schema : TableSchema) :
    Prog World (Except Error Unit) := do
  match ← schemaSaveTable unwritten printFloat schema none with
  | .error e => return .error e
  | .ok () =>
    match ← storageCreateTable schema.tableName with
    | .error e => return .error e
    | .ok () => databaseAddTable unwritten schema

def executeDropTable (unwritten : Unwritten) (pos : Nat) : Prog World (Except Error Unit) := do
  let w ← get
  let table ← readAt w.tables pos
  indexSetPurge table.name table.indexMeta
  if !(← schemaRemoveTable table.name) then
    return errorFmt .executor (text "Cannot delete schema file")
  else if !(← storageRemoveTable table.name) then
    return errorFmt .executor (text "Cannot delete data file")
  else databaseRemoveTable unwritten (.entry pos)

def executeTruncateTable (pos : Nat) : Prog World (Except Error Unit) := do
  let w ← get
  let table ← readAt w.tables pos
  if !(← storageRemoveTable table.name) then
    return errorFmt .storage (text "Cannot delete data file")
  else
    match ← storageCreateTable table.name with
    | .error e => return .error e
    | .ok () =>
      indexSetPurge table.name table.indexMeta
      indexSetSave table.name (indexSetCreate table)
      return .ok ()

/-! ## Pipelines -/

/-- `database_table_by_name`: the entry and its position. -/
def databaseTableByName (tables : Database) (name : Text) : Option (TableMeta × Nat) :=
  tables.zipIdx.find? fun entry => name == entry.1.name

/-- The lookup of the table that a statement names, with the error of the caller. -/
def lookupTable (code : ErrorCode) (complaint : Text) (tables : Database) (table : Text) :
    Except Error (TableMeta × Nat) :=
  let tableName := svToCstr table (maxTableNameSize + 1)
  match databaseTableByName tables tableName with
  | some entry => .ok entry
  | none => errorFmt code (text "Table '" ++ tableName ++ complaint)

theorem lookupTable_eq_ok {code : ErrorCode} {complaint table : Text} {tables : Database}
    {t : TableMeta} {pos : Nat} (h : lookupTable code complaint tables table = .ok (t, pos)) :
    tables[pos]? = some t ∧ t.name = svToCstr table (maxTableNameSize + 1) := by
  unfold lookupTable databaseTableByName at h
  dsimp only at h
  split at h
  · next entry hfound =>
    cases h
    have hname := List.find?_some hfound
    exact ⟨List.mem_zipIdx_iff_getElem?.1 (List.mem_of_find?_eq_some hfound),
      (beq_iff_eq.1 hname).symm⟩
  · cases h

/-- A pipeline whose first stages look at the list of the tables only. -/
def runPipeline {α : Type} (stages : Database → Except Error α)
    (execute : α → Prog World (Except Error Unit)) : Prog World (Except Error Unit) := do
  let w ← get
  match stages w.tables with
  | .error e => return .error e
  | .ok plan => execute plan

theorem onError_runPipeline {α : Type} {stages : Database → Except Error α}
    {execute : α → Prog World (Except Error Unit)} {w : World} (I : World → Prop)
    (hI : I w) :
    OnError (runPipeline stages execute) w I ↔
      ∀ plan, stages w.tables = .ok plan → OnError (execute plan) w I := by
  refine Iff.trans (onError_of_runs (Runs.get w)) ?_
  cases hstages : stages w.tables with
  | error e =>
    refine Iff.trans (onError_of_error (Runs.pure _ _)) ?_
    exact iff_of_true hI nofun
  | ok plan =>
    constructor
    · intro h plan' hplan
      cases hplan
      exact h
    · exact fun h => h plan rfl

/-- The statements that create, empty or remove a table. -/
inductive TableStatement where
  | createTable (stmt : CreateTableStmt)
  | dropTable (stmt : DropTableStmt)
  | truncateTable (stmt : TruncateTableStmt)
  deriving DecidableEq, Repr

/-- The validator and the planner of CREATE TABLE. -/
def createTableStages (strtof : Strtof) (stmt : CreateTableStmt) (tables : Database) :
    Except Error TableSchema := do
  validateCreateTable stmt
  planCreateTable strtof (tables.map (·.name)) stmt

/-- The validator and the planner of DROP TABLE. -/
def dropTableStages (stmt : DropTableStmt) (tables : Database) : Except Error Nat := do
  validateDropTable stmt
  let (_, pos) ← lookupTable .planner (text "' not found") tables stmt.table
  return pos

/-- The validator and the planner of TRUNCATE TABLE. -/
def truncateTableStages (stmt : TruncateTableStmt) (tables : Database) : Except Error Nat := do
  validateTruncateTable stmt
  let (_, pos) ← lookupTable .planner (text "' not found") tables stmt.table
  return pos

/-- `pipeline_run` on a statement. -/
def runTableStatement (strtof : Strtof) (unwritten : Unwritten) (printFloat : FloatFormat) :
    TableStatement → Prog World (Except Error Unit)
  | .createTable stmt =>
    runPipeline (createTableStages strtof stmt) (executeCreateTable unwritten printFloat)
  | .dropTable stmt => runPipeline (dropTableStages stmt) (executeDropTable unwritten)
  | .truncateTable stmt => runPipeline (truncateTableStages stmt) executeTruncateTable

/-! ## Loading -/

/-- `schema_load_table` on the schema file of a table. -/
def schemaLoader (strtof : Strtof) (files : (file : FileName) → Option file.Contents) :
    SchemaLoader := fun tableName =>
  match files (.schema tableName) with
  | none => errorFmt .storage (text "Schema file do not exists")
  | some file =>
    match h : schemaLoadTable strtof tableName file with
    | .ok loaded => loaded
    | .error _ => absurd h fun h => by
      obtain ⟨loaded, hload⟩ := schemaLoadTable_total strtof tableName file
      rw [h] at hload
      cases hload

/-- `database_load(schema_load_table, …)` -/
def databaseLoad (strtof : Strtof) (files : (file : FileName) → Option file.Contents) :
    Checked (Except Error Database) :=
  match files .catalog with
  | none => .ok (errorFmt .storage (text "Cannot open catalog file"))
  | some file => Maxql.databaseLoad (schemaLoader strtof files) file

end Maxql.Disk
