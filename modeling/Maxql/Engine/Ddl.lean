import Maxql.Engine.Dml

/-!
# CREATE TABLE, CREATE INDEX, DROP INDEX and TRUNCATE TABLE

The validators, planners and executors of `src/engine/ddl`, over a database
of one table.  `plan_create_table` needs the names of the tables only, to
refuse one that is there.
-/

namespace Maxql

open Program Bytes

/-- The lookup of a planner. -/
def planTable (t : TableState) (table : Text) : Except Error Unit :=
  findTable .planner (text "' not found") t table

/-! ## Validators -/

/-- The checks of `validate_create_table` on one column, with the columns behind it. -/
def validateColumnDef (columnDef : ColumnDef) (rest : List ColumnDef) : Except Error Unit :=
  if rest.any (·.column == columnDef.column) then
    errorFmt .validator (text "Duplicate column name in definition")
  else if columnDef.column.length > maxColumnNameSize then
    errorFmt .validator (text "Column name is too long")
  else if columnDef.type.name.length > maxTypeNameSize then
    errorFmt .validator (text "Column type is too long")
  else if typeByName (svToCstr columnDef.type.name (maxTypeNameSize + 1)) = none then
    errorFmt .validator (text "Unknown column type")
  else .ok ()

def validateColumnDefs : List ColumnDef → Except Error Unit
  | [] => .ok ()
  | columnDef :: rest => do
    validateColumnDef columnDef rest
    validateColumnDefs rest

def validateCreateTable (stmt : CreateTableStmt) : Except Error Unit := do
  if stmt.columnDefs.length > maxColumnsPerTable then
    errorFmt .validator (text "Too many columns definitions for table")
  else
    validateColumnDefs stmt.columnDefs
    if stmt.table.length > maxTableNameSize then
      errorFmt .validator (text "Table name is too long")
    else .ok ()

def validateCreateIndex (stmt : CreateIndexStmt) : Except Error Unit :=
  if stmt.name.length > maxIndexNameSize then
    errorFmt .validator (text "Index name is too long")
  else if stmt.type.length > maxIndexTypeNameSize then
    errorFmt .validator (text "Index type is too long")
  else if stmt.table.length > maxTableNameSize then
    errorFmt .validator (text "Table name is too long")
  else if stmt.keyParts.length > maxIndexColumnCount then
    errorFmt .validator (text "Too many key parts provided")
  else if stmt.keyParts.any (·.column.length > maxColumnNameSize) then
    errorFmt .validator (text "Column name is too long")
  else if hasDuplicate (stmt.keyParts.map (·.column)) then
    errorFmt .validator (text "Index must not have duplicate columns")
  else .ok ()

def validateDropIndex (stmt : DropIndexStmt) : Except Error Unit :=
  if stmt.table.length > maxTableNameSize then
    errorFmt .validator (text "Table name is too long")
  else if stmt.index.length > maxIndexNameSize then
    errorFmt .validator (text "Index name is too long")
  else .ok ()

def validateTruncateTable (stmt : TruncateTableStmt) : Except Error Unit :=
  if stmt.table.length > maxTableNameSize then
    errorFmt .validator (text "Table name is too long")
  else .ok ()

/-! ## CREATE TABLE -/

/-- A length of `char` or `varchar` as `plan_create_table` reads it. -/
def planTypeLength (columnName : Text) (type : ColumnTypeDef) : Except Error Nat :=
  if !type.hasLen then .ok 0
  else
    match convertInt type.len with
    | .ok (.int n) =>
      if n.toInt < 0 ∨ n.toInt > 255 then
        errorFmt .planner (text "Column '" ++ columnName ++ text "' length is out of range")
      else .ok n.toInt.toNat
    | .ok _ => errorFmt .planner (text "Column '" ++ columnName ++ text "' length is out of range")
    | .error e => errorFmt .planner (text "Invalid value for column '" ++ columnName
        ++ text "': " ++ convertResultMsg e)

/-- The default of a column as `plan_create_table` reads it. -/
def planDefault (strtof : Strtof) (columnName : Text) (rt : ResolvedType)
    (columnDef : ColumnDef) : Except Error DataValue :=
  if !columnDef.hasDefault then .ok .null
  else
    match convertValue strtof columnDef.defaultValue with
    | .error e => errorFmt .planner (text "Invalid value for column '" ++ columnName
        ++ text "': " ++ convertResultMsg e)
    | .ok value =>
      let result := resolvedTypeValidate rt value
      if result ≠ .ok then
        errorFmt .planner (text "Invalid default column '" ++ columnName ++ text "' value: "
          ++ validateTypeResultMsg result)
      else .ok value

/-- One round of `plan_create_table`. -/
def planColumn (strtof : Strtof) (columnDef : ColumnDef) : Except Error Column := do
  let columnName := svToCstr columnDef.column (maxColumnNameSize + 1)
  let typeName := svToCstr columnDef.type.name (maxTypeNameSize + 1)
  let length ← planTypeLength columnName columnDef.type
  match resolveType typeName columnDef.type.hasLen length with
  | .error e => errorFmt .planner (text "Column '" ++ columnName ++ text "': "
      ++ resolveResultMsg e ++ text " '" ++ typeName ++ text "'")
  | .ok resolvedType =>
    let defaultValue ← planDefault strtof columnName resolvedType columnDef
    .ok { columnName, resolvedType, hasDefault := columnDef.hasDefault, defaultValue }

/-- `plan_create_table` next to tables with the given names. -/
def planCreateTable (strtof : Strtof) (tableNames : List Text) (stmt : CreateTableStmt) :
    Except Error TableSchema := do
  let tableName := svToCstr stmt.table (maxTableNameSize + 1)
  if tableNames.contains tableName then
    errorFmt .planner (text "Table '" ++ tableName ++ text "' already exists")
  else
    let columns ← stmt.columnDefs.mapM (planColumn strtof)
    .ok { tableName, columns }

/-! ## CREATE INDEX -/

def keyPartLength (part : IndexKeyPart) (schemaSize : Nat) (columnName : Text) :
    Except Error Nat :=
  if !part.hasKeyLen then .ok schemaSize
  else
    match convertInt part.keyLen with
    | .ok (.int n) =>
      if n.toInt < 1 then
        errorFmt .planner (text "Key part length must be positive for column '" ++ columnName
          ++ text "'")
      else if n.toInt > schemaSize then
        errorFmt .planner (text "Key part length is too big for column '" ++ columnName
          ++ text "'")
      else .ok n.toInt.toNat
    | .ok _ => errorFmt .planner (text "Key part length is too big for column '" ++ columnName
        ++ text "'")
    | .error e => errorFmt .planner (text "Incorrect key part length for column '" ++ columnName
        ++ text "': " ++ convertResultMsg e)

/-- One round of `plan_create_index`. -/
def planKeyPart (schema : TableSchema) (keyPart : IndexKeyPart) : Except Error IndexPart := do
  let columnName := svToCstr keyPart.column (maxColumnNameSize + 1)
  match tableColumnPos schema columnName with
  | none => errorFmt .planner (text "Column '" ++ columnName ++ text "' is not present in table '"
      ++ schema.tableName ++ text "'")
  | some columnPos =>
    let resolvedType := (columnAt schema columnPos).resolvedType
    let partLen ← keyPartLength keyPart resolvedType.byteLen columnName
    .ok {
      column := columnName, columnPos, partLen
      partType := resolvedType.typeInfo.valueType
      partCompare := resolvedType.typeInfo.compare }

/-- The index type that a statement names, or the default. -/
def planIndexType (type : Text) : Except Error IndexVTable :=
  if type.length > 0 then
    let indexTypeName := svToCstr type (maxIndexTypeNameSize + 1)
    match indexVtableByName indexTypeName with
    | some vtable => .ok vtable
    | none => errorFmt .planner (text "Unknown index type: '" ++ indexTypeName ++ text "'")
  else
    match indexVtable .btree with
    | some vtable => .ok vtable
    | none => errorFmt .planner (text "Unknown index type: ''")

/-- `plan_create_index` on the table that the statement names. -/
def planCreateIndex (schema : TableSchema) (indexMeta : IndexMeta) (stmt : CreateIndexStmt) :
    Except Error IndexDefinition := do
  if indexMeta.length ≥ maxTableIndexCount then
    errorFmt .planner (text "Table '" ++ schema.tableName ++ text "' already has "
      ++ Decimal.print indexMeta.length ++ text " indexes (max "
      ++ Decimal.print maxTableIndexCount ++ text ")")
  else
    let indexName := svToCstr stmt.name (maxIndexNameSize + 1)
    if (getIndexDef indexMeta indexName).isSome then
      errorFmt .index (text "Index '" ++ indexName ++ text "' already exists on table '"
        ++ schema.tableName ++ text "'")
    else
      let vtable ← planIndexType stmt.type
      if !stmt.isUnique && !vtable.acceptsNonUnique then
        errorFmt .planner (text "Index type '" ++ vtable.typeName
          ++ text "' must be declared unique")
      else
        let parts ← stmt.keyParts.mapM (planKeyPart schema)
        .ok {
          name := indexName, type := vtable.type, nodeSize := vtable.defaultNodeSize
          keySize := (parts.map (·.partLen)).sum, isUnique := stmt.isUnique, parts }

def executeCreateIndex [UnionMemory] (t : TableState) (indexDef : IndexDefinition) :
    Checked (Except Error TableState) := do
  match ← backfillIndex t.dataFile t.schema indexDef indexCreate with
  | .error e => .ok (.error e)
  | .ok index => .ok (.ok { t with indexes := t.indexes ++ [(indexDef, index)] })

def runCreateIndex [UnionMemory] (t : TableState) (stmt : CreateIndexStmt) :
    Checked (Except Error TableState) :=
  runStages (do
    validateCreateIndex stmt
    planTable t stmt.table
    planCreateIndex t.schema t.indexMeta stmt) (executeCreateIndex t)

/-! ## DROP INDEX and TRUNCATE TABLE -/

/-- `plan_drop_index`: the position of the index. -/
def planDropIndex (t : TableState) (stmt : DropIndexStmt) : Except Error Nat :=
  let indexName := svToCstr stmt.index (maxIndexNameSize + 1)
  match t.indexMeta.findIdx? fun indexDef => indexDef.name == indexName with
  | some indexPos => .ok indexPos
  | none => errorFmt .planner (text "Index '" ++ indexName ++ text "' is not present in table '"
      ++ t.schema.tableName ++ text "'")

/-- `execute_drop_index`: the definition and the file of the index go. -/
def executeDropIndex (t : TableState) (indexPos : Nat) : Checked (Except Error TableState) :=
  .ok (.ok { t with indexes := t.indexes.eraseIdx indexPos })

def runDropIndex (t : TableState) (stmt : DropIndexStmt) : Checked (Except Error TableState) :=
  runStages (do validateDropIndex stmt; planTable t stmt.table; planDropIndex t stmt)
    (executeDropIndex t)

/-- `execute_truncate_table`: an empty data file, and every index created anew. -/
def executeTruncateTable (t : TableState) : Checked (Except Error TableState) :=
  .ok (.ok { t with
    dataFile := []
    indexes := t.indexes.map fun entry => (entry.1, indexCreate) })

def runTruncateTable (t : TableState) (stmt : TruncateTableStmt) :
    Checked (Except Error TableState) :=
  runStages (do validateTruncateTable stmt; planTable t stmt.table)
    fun _ => executeTruncateTable t

/-! ## Statements -/

/-- The statements that change the rows or the indexes of a table. -/
inductive Statement where
  | insert (stmt : InsertStmt)
  | delete (stmt : DeleteStmt)
  | update (stmt : UpdateStmt)
  | createIndex (stmt : CreateIndexStmt)
  | dropIndex (stmt : DropIndexStmt)
  | truncate (stmt : TruncateTableStmt)
  deriving DecidableEq, Repr

/-- `pipeline_run` on a statement. -/
def runStatement [UnionMemory] (strtof : Strtof) (t : TableState) :
    Statement → Checked (Except Error TableState)
  | .insert stmt => runInsert strtof t stmt
  | .delete stmt => runDelete strtof t stmt
  | .update stmt => runUpdate strtof t stmt
  | .createIndex stmt => runCreateIndex t stmt
  | .dropIndex stmt => runDropIndex t stmt
  | .truncate stmt => runTruncateTable t stmt

end Maxql
