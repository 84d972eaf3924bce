import Maxql.Types

/-!
# Tables, columns and indexes

`include/maxql/schema/schema.h`, `include/maxql/index/index_types.h`,
`src/schema/schema.c` and the registry of `src/index/index.c`.  An array with
its count is a list, and the parallel arrays of an `IndexDefinition` are one
list of parts.
-/

namespace Maxql

open Program Bytes

/-! ## Columns -/

structure Column where
  columnName : Text
  resolvedType : ResolvedType
  hasDefault : Bool
  defaultValue : DataValue
  deriving DecidableEq, Repr

structure TableSchema where
  tableName : Text
  columns : List Column
  deriving DecidableEq, Repr

/-- The position of the first column with this name. -/
def tableColumnPos (schema : TableSchema) (columnName : Text) : Option Nat :=
  schema.columns.findIdx? fun column => columnName == column.columnName

/-! ## Indexes -/

/-- One entry of the arrays of an `IndexDefinition`. -/
structure IndexPart where
  column : Text
  columnPos : Nat
  partLen : Nat
  partType : ValueType
  partCompare : KeyComparator
  deriving DecidableEq, Repr

structure IndexDefinition where
  name : Text
  type : IndexType
  nodeSize : Nat
  keySize : Nat
  isUnique : Bool
  parts : List IndexPart
  deriving DecidableEq, Repr

abbrev IndexMeta := List IndexDefinition

def getIndexDef (indexMeta : IndexMeta) (indexName : Text) : Option IndexDefinition :=
  indexMeta.find? fun indexDef => indexDef.name == indexName

/-! ## Index types -/

/-- The entries of an `IndexVTable` that are not operations on the data of an index. -/
structure IndexVTable where
  type : IndexType
  typeName : Text
  defaultNodeSize : Nat
  acceptsNonUnique : Bool
  requiresFullMatch : Bool
  supportsOp : ConditionOp → Bool

def btreeNodeDefaultSize : Nat := 4096

def btreeSupportsOp (op : ConditionOp) : Bool := op == .equals

/-- `builtin_indexes`, all of which are registered at the start. -/
def indexRegistry : List IndexVTable :=
  [{ type := .btree, typeName := text "btree", defaultNodeSize := btreeNodeDefaultSize,
     acceptsNonUnique := false, requiresFullMatch := true, supportsOp := btreeSupportsOp }]

def indexVtableByName (indexTypeName : Text) : Option IndexVTable :=
  indexRegistry.find? fun vt => vt.typeName == indexTypeName

def indexVtable (indexType : IndexType) : Option IndexVTable :=
  indexRegistry.find? fun vt => vt.type == indexType

/-- A call through `index_vtable(type)`, which is null for a type that is not registered. -/
def indexVtableOf (indexType : IndexType) : Checked IndexVTable :=
  match indexVtable indexType with
  | some vt => .ok vt
  | none => .error .badAddress

def indexSupportsOp (type : IndexType) (op : ConditionOp) : Checked Bool := do
  let vt ← indexVtableOf type
  .ok (vt.supportsOp op)

end Maxql
