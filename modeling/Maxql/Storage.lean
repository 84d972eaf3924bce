import Maxql.Schema

/-!
# The data file of a table

`src/serializer/serializer.c`, `src/storage/storage.c` and
`src/scan/table_scan.c`.  The file is the list of its bytes.  A row is a flag
byte, the size of the row in two bytes and the data; deletion sets the flag.
A header or a row that the file does not hold in full leaves part of a buffer
unwritten, which is a fault here.
-/

namespace Maxql

open Program Bytes

variable [UnionMemory]

def rowFlagsSize : Nat := 1
def rowSizeField : Nat := 2
def headerSize : Nat := rowFlagsSize + rowSizeField
def maxDataSize : Nat := maxColumnsPerTable * (1 + maxVarcharValueSize)
def maxRowSize : Nat := maxDataSize + headerSize

/-! ## Rows -/

def serializeRowData : (columns : List Column) → (values : DataRow) → Checked (List UInt8)
  | [], _ => .ok []
  | _ :: _, [] => .error .outOfBounds
  | column :: columns, value :: values => do
    let rt := column.resolvedType
    let bytes ← rt.typeInfo.serialize value rt.byteLen
    let rest ← serializeRowData columns values
    .ok (bytes ++ rest)

def deserializeRowData : (columns : List Column) → (buf : List UInt8) → Checked DataRow
  | [], _ => .ok []
  | column :: columns, buf => do
    let rt := column.resolvedType
    let (value, size) ← rt.typeInfo.deserialize buf rt.byteLen
    let values ← deserializeRowData columns (buf.drop size)
    .ok (value :: values)

/-! ## Reading and writing -/

/-- The row at position `pos`, unless it is deleted, and the position behind it. -/
def storageReadCurrentRow (dataFile : List UInt8) (schema : TableSchema) (pos : Nat) :
    Checked (Option DataRow × Nat) := do
  let headerBuffer ← slice dataFile pos headerSize
  -- a `uint16_t` that wraps where the stored size is less than the header
  let rowSize := (ofLe (headerBuffer.drop rowFlagsSize) + 65536 - headerSize) % 65536
  if headerBuffer.headD 0 &&& 1 == 1 then .ok (none, pos + headerSize + rowSize)
  else if rowSize > maxRowSize then .error .outOfBounds
  else
    let dataBuffer ← slice dataFile (pos + headerSize) rowSize
    let values ← deserializeRowData schema.columns dataBuffer
    .ok (some values, pos + headerSize + rowSize)

def storageLoadRow (dataFile : List UInt8) (schema : TableSchema) (offset : Nat) :
    Checked (Option DataRow) := do
  let (row, _) ← storageReadCurrentRow dataFile schema offset
  .ok row

/-- The flag of a deleted row goes to the start of the row. -/
def storageDeleteRow (dataFile : List UInt8) (offset : Nat) : List UInt8 :=
  fwriteAt dataFile offset [1]

def storageDeleteRows (dataFile : List UInt8) (offsets : List Nat) : List UInt8 :=
  offsets.foldl storageDeleteRow dataFile

/-- `storage_insert_row`: the file and the offset of the new row. -/
def storageInsertRow (dataFile : List UInt8) (values : DataRow) (schema : TableSchema) :
    Checked (List UInt8 × Nat) := do
  let data ← serializeRowData schema.columns values
  if data.length > maxDataSize then .error .outOfBounds
  else
    let rowSize := (headerSize + data.length) % 65536
    let buf := 0 :: le rowSizeField rowSize ++ data
    .ok (fwriteAt dataFile dataFile.length (buf.take rowSize), dataFile.length)

/-! ## The scan of the whole file -/

/-- The rows that `table_scan_next` gives from position `pos` on. -/
def tableScanFrom (dataFile : List UInt8) (schema : TableSchema) :
    (fuel pos : Nat) → Checked (List StoredRow)
  | 0, _ => .error .outOfFuel
  | fuel + 1, pos =>
    if pos ≥ dataFile.length then .ok []
    else do
      let (row, next) ← storageReadCurrentRow dataFile schema pos
      let rest ← tableScanFrom dataFile schema fuel next
      match row with
      | some row => .ok ({ row, offset := pos } :: rest)
      | none => .ok rest

/-- All rows that a table scan gives. -/
def tableScan (dataFile : List UInt8) (schema : TableSchema) : Checked (List StoredRow) :=
  tableScanFrom dataFile schema (dataFile.length + 1) 0

end Maxql
