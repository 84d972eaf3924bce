import Maxql.Storage

/-!
# Index keys and the indexes of a table

`src/index/index.c` and `src/index/index_set.c` over an index that is an exact
finite map from key bytes to row offsets, which is what its B-tree is meant to
be.  The indexes of a table stand next to their definitions, as they do in an
`IndexSet`; loading and saving them changes nothing.
-/

namespace Maxql

open Program Bytes

variable [UnionMemory]

/-! ## Keys -/

abbrev Key := List UInt8

/-- `data_value_raw_ptr`, with the first bytes that it points to: each member starts where the
union does. -/
def dataValueRaw (value : DataValue) (size : Nat) : Checked (List UInt8) :=
  if value.type = .null then .error .failedAssert
  else if size ≤ unionSize then .ok (value.memory size)
  else .error .outOfBounds

def prepareValues (indexDef : IndexDefinition) (values : DataRow) : Checked DataRow :=
  indexDef.parts.mapM fun part => readAt values part.columnPos

/-- The number of bytes of `raw` that the part takes: all of a string or of a binary
value, the part length of a number, at most the part length. -/
def actualSize (value : DataValue) (partLen : Nat) : Nat :=
  min partLen (match value with
    | .string s => s.bytes.length
    | .binary b => b.bytes.length
    | _ => partLen)

/-- The loop of `prepare_index_key`. -/
def prepareIndexKeyFrom : (parts : List IndexPart) → (values : DataRow) →
    (indexKey : Key) → (offset : Nat) → Checked Key
  | [], _, indexKey, _ => .ok indexKey
  | _ :: _, [], _, _ => .error .outOfBounds
  | part :: parts, value :: values, indexKey, offset => do
    let size := actualSize value part.partLen
    let raw ← dataValueRaw value size
    let indexKey ← copySlots indexKey offset raw 0 size
    prepareIndexKeyFrom parts values indexKey (offset + part.partLen)

/-- `prepare_index_key` on the first `count` parts. -/
def prepareIndexKey (indexDef : IndexDefinition) (values : DataRow) (count : Nat) :
    Checked Key :=
  prepareIndexKeyFrom (indexDef.parts.take count) values
    (List.replicate indexDef.keySize 0) 0

def indexBuildKey (indexDef : IndexDefinition) (values : DataRow) (count : Nat) :
    Checked Key :=
  prepareIndexKey indexDef values count

/-- The key that a row has in an index. -/
def rowKey (indexDef : IndexDefinition) (values : DataRow) : Checked Key := do
  let indexValues ← prepareValues indexDef values
  prepareIndexKey indexDef indexValues indexDef.parts.length

/-! ## One index -/

/-- The data of an index. -/
abbrev KeyMap := Key → Option Nat

def indexCreate : KeyMap := fun _ => none

def indexInsert (index : KeyMap) (indexDef : IndexDefinition) (values : DataRow)
    (offset : Nat) : Checked KeyMap := do
  let key ← rowKey indexDef values
  .ok (Function.update index key (some offset))

def indexSearch (index : KeyMap) (indexDef : IndexDefinition) (values : DataRow) :
    Checked (Option Nat) := do
  let key ← rowKey indexDef values
  .ok (index key)

def indexKeyExists (index : KeyMap) (indexDef : IndexDefinition) (values : DataRow) :
    Checked Bool := do
  let found ← indexSearch index indexDef values
  .ok found.isSome

def indexKeyConflicts (index : KeyMap) (indexDef : IndexDefinition) (values : DataRow)
    (offset : Nat) : Checked Bool := do
  match ← indexSearch index indexDef values with
  | some foundOffset => .ok (decide (offset ≠ foundOffset))
  | none => .ok false

def indexDelete (index : KeyMap) (indexDef : IndexDefinition) (values : DataRow) :
    Checked (Bool × KeyMap) := do
  let key ← rowKey indexDef values
  .ok ((index key).isSome, Function.update index key none)

/-! ## The indexes of a table -/

abbrev IndexSet := List (IndexDefinition × KeyMap)

/-- The first unique index that already has the key of the row. -/
def indexSetHasDuplicate : IndexSet → DataRow → Checked (Option IndexDefinition)
  | [], _ => .ok none
  | (indexDef, index) :: indexSet, values => do
    if !indexDef.isUnique then indexSetHasDuplicate indexSet values
    else if ← indexKeyExists index indexDef values then .ok (some indexDef)
    else indexSetHasDuplicate indexSet values

/-- The first unique index that has the key of the row at another offset. -/
def indexSetHasConflict : IndexSet → DataRow → (offset : Nat) →
    Checked (Option IndexDefinition)
  | [], _, _ => .ok none
  | (indexDef, index) :: indexSet, values, offset => do
    if !indexDef.isUnique then indexSetHasConflict indexSet values offset
    else if ← indexKeyConflicts index indexDef values offset then .ok (some indexDef)
    else indexSetHasConflict indexSet values offset

def indexSetInsert : IndexSet → DataRow → (offset : Nat) → Checked IndexSet
  | [], _, _ => .ok []
  | (indexDef, index) :: indexSet, values, offset => do
    let index ← indexInsert index indexDef values offset
    let indexSet ← indexSetInsert indexSet values offset
    .ok ((indexDef, index) :: indexSet)

/-- `index_set_delete` stops at the first index that does not have the key. -/
def indexSetDelete : IndexSet → DataRow → Checked (Bool × IndexSet)
  | [], _ => .ok (true, [])
  | (indexDef, index) :: indexSet, values => do
    let (deleted, index) ← indexDelete index indexDef values
    if !deleted then .ok (false, (indexDef, index) :: indexSet)
    else
      let (all, indexSet) ← indexSetDelete indexSet values
      .ok (all, (indexDef, index) :: indexSet)

/-- The loop of `backfill_index` over the rows from position `offset` on. -/
def backfillIndexFrom (dataFile : List UInt8) (schema : TableSchema)
    (indexDef : IndexDefinition) :
    (fuel offset : Nat) → KeyMap → Checked (Except Error KeyMap)
  | 0, _, _ => .error .outOfFuel
  | fuel + 1, offset, index =>
    if offset ≥ dataFile.length then .ok (.ok index)
    else do
      let (row, next) ← storageReadCurrentRow dataFile schema offset
      match row with
      | none => backfillIndexFrom dataFile schema indexDef fuel next index
      | some values =>
        if indexDef.isUnique && (← indexKeyExists index indexDef values) then
          .ok (errorFmt .executor
            (text "Duplicate value(s) for unique index '" ++ indexDef.name ++ text "'"))
        else
          let index ← indexInsert index indexDef values offset
          backfillIndexFrom dataFile schema indexDef fuel next index

def backfillIndex (dataFile : List UInt8) (schema : TableSchema)
    (indexDef : IndexDefinition) (index : KeyMap) : Checked (Except Error KeyMap) :=
  backfillIndexFrom dataFile schema indexDef (dataFile.length + 1) 0 index

end Maxql
