import Maxql.Convert

/-!
# Statements

`include/maxql/parser/ast.h`: what the parser hands to the engine.
-/

namespace Maxql

structure Assignment where
  column : Text
  value : RawValue
  deriving DecidableEq, Repr

structure Condition where
  column : Text
  op : ConditionOp
  value : RawValue
  deriving DecidableEq, Repr

structure ColumnTypeDef where
  name : Text
  len : Text
  hasLen : Bool
  deriving DecidableEq, Repr

structure ColumnDef where
  column : Text
  type : ColumnTypeDef
  hasDefault : Bool
  defaultValue : RawValue
  deriving DecidableEq, Repr

structure IndexKeyPart where
  column : Text
  keyLen : Text
  hasKeyLen : Bool
  deriving DecidableEq, Repr

structure SelectStmt where
  columns : List Text
  table : Text
  ignoreIndex : Bool
  conditions : List Condition
  deriving DecidableEq, Repr

structure InsertStmt where
  table : Text
  assignments : List Assignment
  deriving DecidableEq, Repr

structure DeleteStmt where
  table : Text
  conditions : List Condition
  deriving DecidableEq, Repr

structure UpdateStmt where
  table : Text
  assignments : List Assignment
  conditions : List Condition
  deriving DecidableEq, Repr

structure CreateTableStmt where
  table : Text
  columnDefs : List ColumnDef
  deriving DecidableEq, Repr

structure CreateIndexStmt where
  isUnique : Bool
  name : Text
  type : Text
  table : Text
  keyParts : List IndexKeyPart
  deriving DecidableEq, Repr

structure DropTableStmt where
  table : Text
  deriving DecidableEq, Repr

structure ShowTableStmt where
  table : Text
  deriving DecidableEq, Repr

structure ShowIndexStmt where
  table : Text
  deriving DecidableEq, Repr

structure DropIndexStmt where
  table : Text
  index : Text
  deriving DecidableEq, Repr

structure TruncateTableStmt where
  table : Text
  deriving DecidableEq, Repr

/-- `ParseResult`: the type of the query with the member of `RawStmt` that it selects. -/
inductive Query where
  | unknown
  | createTable (stmt : CreateTableStmt)
  | dropTable (stmt : DropTableStmt)
  | createIndex (stmt : CreateIndexStmt)
  | dropIndex (stmt : DropIndexStmt)
  | truncateTable (stmt : TruncateTableStmt)
  | select (stmt : SelectStmt)
  | delete (stmt : DeleteStmt)
  | insert (stmt : InsertStmt)
  | update (stmt : UpdateStmt)
  | showTables
  | showTable (stmt : ShowTableStmt)
  | showIndex (stmt : ShowIndexStmt)
  | showIndexTypes
  deriving DecidableEq, Repr

/-- Two entries of a list with one name. -/
def hasDuplicate : List Text → Bool
  | [] => false
  | name :: names => names.contains name || hasDuplicate names

end Maxql
