import Maxql.Lib.Bytes
import Maxql.Lib.Decimal
import Mathlib.Data.List.DropRight

/-!
# Types and values

`include/maxql/types.h` and `limits.h`, the type table of
`src/types/mapper.c`, and `src/types/comparator.c`.

A `char` array is the contents of its C string.  An `int32_t` is an `Int32`, a
`float` its 32 bits.  The members of the union in `DataValue` are the
constructors.  A read through another member than the one written takes the
bytes of the union, and those that nothing has written are a parameter
(`UnionMemory`).  A value that an array of the source cannot hold cannot be
built.
-/

namespace Maxql

open Program Bytes

/-! ## Limits -/

def maxTableNameSize : Nat := 31
def maxColumnNameSize : Nat := 31
def maxIndexNameSize : Nat := 31
def maxIndexTypeNameSize : Nat := 16
def maxTypeNameSize : Nat := 15
def maxVarcharValueSize : Nat := 255
def maxCharValueSize : Nat := 128
def maxBinaryValueSize : Nat := 128
def maxColumnsPerTable : Nat := 16
def maxColumnsInSelect : Nat := 16
def maxWhereConditions : Nat := 8
def maxTableIndexCount : Nat := 8
def maxIndexColumnCount : Nat := 4

/-! ## Text -/

/-- A string view, or the contents of a `char` array. -/
abbrev Text := List UInt8

def text (s : String) : Text := s.toList.map fun c => UInt8.ofNat c.toNat

/-- `sv_to_cstr` and `COPY_STRING` into an array of `outSize` bytes. -/
def svToCstr (strView : Text) (outSize : Nat) : Text := cstr (strView.take (outSize - 1))

theorem length_svToCstr_le (name : Text) (size : Nat) : (svToCstr name (size + 1)).length ≤ size :=
  Nat.le_trans (length_cstr_le _) (List.length_take_le _ _)

theorem svToCstr_eq_take {name : Text} (hzero : 0 ∉ name) (size : Nat) :
    svToCstr name (size + 1) = name.take size := by
  rw [svToCstr, Nat.add_sub_cancel, cstr_of_zero_not_mem fun h => hzero (List.mem_of_mem_take h)]

theorem svToCstr_eq {name : Text} {size : Nat} (hzero : 0 ∉ name) (hfits : name.length ≤ size) :
    svToCstr name (size + 1) = name := by
  rw [svToCstr_eq_take hzero, List.take_of_length_le hfits]

/-- A number printed with `%i`. -/
def formatInt (n : Int) : Text :=
  if n < 0 then text "-" ++ Decimal.print n.natAbs else Decimal.print n.natAbs

/-! ## Errors -/

inductive ErrorCode where
  | internal | lexer | parser | validator | analyzer | planner | executor | storage | memory
  | index
  deriving DecidableEq, Repr

/-- An `Error` other than `error_ok()`. -/
structure Error where
  code : ErrorCode
  msg : Text
  deriving DecidableEq, Repr

/-- `error_fmt`, with the message already put together. -/
def errorFmt {α : Type} (code : ErrorCode) (msg : Text) : Except Error α :=
  .error { code, msg := msg.take 255 }

/-! ## Enumerations -/

inductive IndexType where
  | btree | hash
  deriving DecidableEq, Repr

inductive ColumnType where
  | int | varchar | char | binary | float
  deriving DecidableEq, Repr

inductive ValueType where
  | null | int | string | binary | float
  deriving DecidableEq, Repr

/-- `ConditionOp` without `OP_UNKNOWN`, which only stands in a condition that the parser
has refused. -/
inductive ConditionOp where
  | equals | notEquals | less | lessOrEqual | greater | greatOrEqual
  deriving DecidableEq, Repr

inductive LiteralType where
  | number | string | hex
  deriving DecidableEq, Repr

/-! ## Values -/

/-- `VarcharValue`: what a C string in an array of 256 bytes holds. -/
structure VarcharValue where
  bytes : Text
  nonzero : 0 ∉ bytes
  fits : bytes.length ≤ maxVarcharValueSize
  deriving DecidableEq, Repr

/-- The C string of the given bytes, cut to the array. -/
def VarcharValue.copy (bs : Text) : VarcharValue where
  bytes := cstr (bs.take maxVarcharValueSize)
  nonzero := zero_not_mem_cstr _
  fits := Nat.le_trans (length_cstr_le _) (List.length_take_le _ _)

/-- `BinaryValue` with its `len`. -/
structure BinaryValue where
  bytes : List UInt8
  fits : bytes.length ≤ maxBinaryValueSize
  deriving DecidableEq, Repr

/-- A copy into the array. -/
def BinaryValue.copy (bs : List UInt8) : Checked BinaryValue :=
  if h : bs.length ≤ maxBinaryValueSize then .ok ⟨bs, h⟩ else .error .outOfBounds

inductive DataValue where
  | null
  | int (int32 : Int32)
  | string (string : VarcharValue)
  | binary (bin : BinaryValue)
  | float (float32 : UInt32)
  deriving DecidableEq, Repr

def DataValue.type : DataValue → ValueType
  | .null => .null
  | .int _ => .int
  | .string _ => .string
  | .binary _ => .binary
  | .float _ => .float

abbrev DataRow := List DataValue

structure StoredRow where
  row : DataRow
  offset : Nat
  deriving DecidableEq, Repr

/-! ## The union -/

/-- The bytes of the union of a value that do not belong to the value.  No code sets them. -/
class UnionMemory where
  behind : DataValue → Nat → UInt8

namespace ClearedMemory

/-- A union that was cleared before its value was written. -/
scoped instance cleared : UnionMemory := ⟨fun _ _ => 0⟩

end ClearedMemory

def unionSize : Nat := maxVarcharValueSize + 1

/-- The bytes of a value from the start of the union on. -/
def DataValue.written : DataValue → List UInt8
  | .null => []
  | .int n => le 4 n.toUInt32.toNat
  | .string s => s.bytes ++ [0]
  | .binary b => b.bytes
  | .float bits => le 4 bits.toNat

section Union

variable [UnionMemory]

/-- A byte of the union.  The `len` of a binary value lies behind its array. -/
def DataValue.byteAt (value : DataValue) (i : Nat) : UInt8 :=
  if value.type = .binary ∧ i = maxBinaryValueSize then UInt8.ofNat value.written.length
  else value.written.getD i (UnionMemory.behind value i)

/-- The first bytes of the union. -/
def DataValue.memory (value : DataValue) (size : Nat) : List UInt8 :=
  (List.range size).map value.byteAt

/-- `val.int32` -/
def DataValue.int32 (value : DataValue) : Int32 :=
  match value with
  | .int n => n
  | _ => (UInt32.ofNat (ofLe (value.memory 4))).toInt32

/-- `val.float32` -/
def DataValue.float32 (value : DataValue) : UInt32 :=
  match value with
  | .float bits => bits
  | _ => UInt32.ofNat (ofLe (value.memory 4))

/-- The bytes of `val.string` before the first zero, or all of them. -/
def DataValue.chars (value : DataValue) : Text :=
  match value with
  | .string s => s.bytes
  | _ => cstr (value.memory unionSize)

/-- `val.bin.len` -/
def DataValue.binLen (value : DataValue) : Nat :=
  match value with
  | .binary b => b.bytes.length
  | _ => (value.byteAt maxBinaryValueSize).toNat

/-- The first `val.bin.len` bytes of `val.bin.bytes`. -/
def DataValue.binBytes (value : DataValue) : List UInt8 :=
  match value with
  | .binary b => b.bytes
  | _ => value.memory value.binLen

@[simp] theorem DataValue.int32_int (n : Int32) : (DataValue.int n).int32 = n := rfl
@[simp] theorem DataValue.float32_float (bits : UInt32) :
    (DataValue.float bits).float32 = bits := rfl
@[simp] theorem DataValue.chars_string (s : VarcharValue) :
    (DataValue.string s).chars = s.bytes := rfl
@[simp] theorem DataValue.binLen_binary (b : BinaryValue) :
    (DataValue.binary b).binLen = b.bytes.length := rfl
@[simp] theorem DataValue.binBytes_binary (b : BinaryValue) :
    (DataValue.binary b).binBytes = b.bytes := rfl

/-- The memory of a value starts with what was written. -/
theorem DataValue.memory_eq_take {value : DataValue} {size : Nat}
    (hsize : size ≤ value.written.length) : value.memory size = value.written.take size := by
  refine List.ext_getElem? fun i => ?_
  rw [memory, List.getElem?_map, List.getElem?_take]
  by_cases hi : i < size
  · have hlt : i < value.written.length := Nat.lt_of_lt_of_le hi hsize
    -- the array of a binary value ends before its length
    have hlen : ¬(value.type = .binary ∧ i = maxBinaryValueSize) := by
      rintro ⟨htype, rfl⟩
      cases value with
      | binary b => exact Nat.not_lt.2 b.fits hlt
      | _ => cases htype
    rw [List.getElem?_range hi, if_pos hi, Option.map_some, byteAt, if_neg hlen,
      List.getD_eq_getElem?_getD, List.getElem?_eq_getElem hlt, Option.getD_some]
  · rw [if_neg hi, List.getElem?_eq_none (by rw [List.length_range]; omega), Option.map_none]

end Union

/-! ## Comparison -/

/-- `(a > b) - (a < b)` -/
def threeWay (a b : Int) : Int := (if a > b then 1 else 0) - (if a < b then 1 else 0)

/-- The bits of a `float` that is no number. -/
def floatIsNan (bits : UInt32) : Bool := 0x7f800000 < bits &&& 0x7fffffff

/-- The bits as sign and magnitude, which orders the numbers. -/
def floatRank (bits : UInt32) : Int :=
  if bits < 0x80000000 then bits.toNat else -(bits &&& 0x7fffffff).toNat

/-- `(a > b) - (a < b)` on `float`: both comparisons fail where one side is no number. -/
def compareFloat (a b : UInt32) : Int :=
  if floatIsNan a || floatIsNan b then 0 else threeWay (floatRank a) (floatRank b)

/-- Two binary values, each with its length. -/
def compareBinary (aLen : Nat) (a : List UInt8) (bLen : Nat) (b : List UInt8) : Int :=
  let lenCmp := threeWay aLen bLen
  if lenCmp ≠ 0 then lenCmp else memcmp a b

/-- `compare_value`: the type of the first value decides which member is read of both. -/
def compareValue [UnionMemory] (a b : DataValue) : Checked Int :=
  match a with
  | .int n => .ok (threeWay n.toInt b.int32.toInt)
  | .string s => .ok (strcmp s.bytes b.chars)
  | .binary bin => .ok (compareBinary bin.bytes.length bin.bytes b.binLen b.binBytes)
  | .float bits => .ok (compareFloat bits b.float32)
  | .null => .error .failedAssert

def compareMatchesOp (op : ConditionOp) (cmpResult : Int) : Bool :=
  match op with
  | .equals => cmpResult = 0
  | .notEquals => cmpResult ≠ 0
  | .less => cmpResult < 0
  | .lessOrEqual => cmpResult ≤ 0
  | .greater => cmpResult > 0
  | .greatOrEqual => cmpResult ≥ 0

/-! ## Validation -/

inductive TypeValidateResult where
  | ok | typeMismatch | valueTooLong
  deriving DecidableEq, Repr

/-- `validate_string`, which is only called on strings. -/
def validateString (value : DataValue) (byteLen : Nat) : TypeValidateResult :=
  match value with
  | .string s => if s.bytes.length > byteLen then .valueTooLong else .ok
  | _ => .typeMismatch

/-- `validate_binary`, which is only called on binary values. -/
def validateBinary (value : DataValue) (byteLen : Nat) : TypeValidateResult :=
  match value with
  | .binary b => if b.bytes.length > byteLen then .valueTooLong else .ok
  | _ => .typeMismatch

/-! ## Reading and writing values

A serializer reads the member of its own type and returns the bytes that it puts
into the buffer.  A deserializer gets the bytes from its position on and returns
how many it has used. -/

def serializeInt [UnionMemory] (value : DataValue) (byteLen : Nat) : Checked (List UInt8) :=
  slice (le 4 value.int32.toUInt32.toNat) 0 byteLen

def deserializeInt (buf : List UInt8) (byteLen : Nat) : Checked (DataValue × Nat) := do
  let bytes ← slice buf 0 byteLen
  .ok (.int (UInt32.ofNat (ofLe bytes)).toInt32, byteLen)

def serializeFloat [UnionMemory] (value : DataValue) (byteLen : Nat) :
    Checked (List UInt8) :=
  slice (le 4 value.float32.toNat) 0 byteLen

def deserializeFloat (buf : List UInt8) (byteLen : Nat) : Checked (DataValue × Nat) := do
  let bytes ← slice buf 0 byteLen
  .ok (.float (UInt32.ofNat (ofLe bytes)), byteLen)

/-- `strlen(value->val.string)` runs past the union where no byte of it is zero. -/
def strlenString [UnionMemory] (value : DataValue) : Checked Nat :=
  if value.chars.length < unionSize then .ok value.chars.length else .error .outOfBounds

def serializeVarchar [UnionMemory] (value : DataValue) (_byteLen : Nat) :
    Checked (List UInt8) := do
  let len ← strlenString value
  .ok (UInt8.ofNat len :: value.chars)

def deserializeVarchar (buf : List UInt8) (_byteLen : Nat) : Checked (DataValue × Nat) := do
  let len ← readAt buf 0
  let bytes ← slice buf 1 len.toNat
  .ok (.string (VarcharValue.copy bytes), len.toNat + 1)

def space : UInt8 := 32

/-- `memset(&buf[len], ' ', byte_len - len)` has a length that wraps when the string is
longer than the column. -/
def serializeChar [UnionMemory] (value : DataValue) (byteLen : Nat) :
    Checked (List UInt8) := do
  let len ← strlenString value
  if len ≤ byteLen then .ok (value.chars ++ List.replicate (byteLen - len) space)
  else .error .badLength

/-- The loop from the end of the string that replaces spaces. -/
def trimSpaces (bs : Text) : Text := bs.rdropWhile (· == space)

def deserializeChar (buf : List UInt8) (byteLen : Nat) : Checked (DataValue × Nat) := do
  let bytes ← slice buf 0 byteLen
  .ok (.string (VarcharValue.copy (trimSpaces bytes)), byteLen)

def serializeBinary [UnionMemory] (value : DataValue) (byteLen : Nat) :
    Checked (List UInt8) :=
  if value.binLen ≤ byteLen then
    .ok (value.binBytes ++ List.replicate (byteLen - value.binLen) 0)
  else .error .badLength

def deserializeBinary (buf : List UInt8) (byteLen : Nat) : Checked (DataValue × Nat) := do
  let bytes ← slice buf 0 byteLen
  let bin ← BinaryValue.copy bytes
  .ok (.binary bin, byteLen)

/-! ## The type table -/

/-- The functions of `src/types/key_compare.c`. -/
inductive KeyComparator where
  | compareIntKeys | compareStringKeys | compareBinaryKeys | compareFloatKeys
  deriving DecidableEq, Repr

structure TypeInfo where
  columnType : ColumnType
  valueType : ValueType
  typeName : Text
  expectsLen : Bool
  minLen : Nat
  maxLen : Nat
  fixedSize : Nat
  compare : KeyComparator
  validate : Option (DataValue → Nat → TypeValidateResult)
  serialize : [UnionMemory] → DataValue → Nat → Checked (List UInt8)
  deserialize : List UInt8 → Nat → Checked (DataValue × Nat)

/-- `type_mapping` -/
def typeMapping : ColumnType → TypeInfo
  | .int =>
    { columnType := .int, valueType := .int, typeName := text "int", expectsLen := false,
      minLen := 0, maxLen := 0, fixedSize := 4, compare := .compareIntKeys, validate := none,
      serialize := serializeInt, deserialize := deserializeInt }
  | .varchar =>
    { columnType := .varchar, valueType := .string, typeName := text "varchar",
      expectsLen := true, minLen := 1, maxLen := maxVarcharValueSize, fixedSize := 0,
      compare := .compareStringKeys, validate := some validateString,
      serialize := serializeVarchar, deserialize := deserializeVarchar }
  | .char =>
    { columnType := .char, valueType := .string, typeName := text "char", expectsLen := true,
      minLen := 1, maxLen := maxCharValueSize, fixedSize := 0, compare := .compareStringKeys,
      validate := some validateString, serialize := serializeChar,
      deserialize := deserializeChar }
  | .binary =>
    { columnType := .binary, valueType := .binary, typeName := text "binary",
      expectsLen := true, minLen := 1, maxLen := maxBinaryValueSize, fixedSize := 0,
      compare := .compareBinaryKeys, validate := some validateBinary,
      serialize := serializeBinary, deserialize := deserializeBinary }
  | .float =>
    { columnType := .float, valueType := .float, typeName := text "float",
      expectsLen := false, minLen := 0, maxLen := 0, fixedSize := 4,
      compare := .compareFloatKeys, validate := none, serialize := serializeFloat,
      deserialize := deserializeFloat }

/-- The column types in the order of `type_mapping`. -/
def columnTypes : List ColumnType := [.int, .varchar, .char, .binary, .float]

/-- `type_by_name`; an entry of `type_mapping` is named by its column type. -/
def typeByName (typeName : Text) : Option ColumnType :=
  columnTypes.find? fun type => typeName == (typeMapping type).typeName

inductive TypeResolveResult where
  | unknownType | lengthNotExpected | lengthRequired | lengthTooBig | lengthTooSmall
  | misconfigured
  deriving DecidableEq, Repr

/-- `ResolvedType`, with its `type_info` named by the column type. -/
structure ResolvedType where
  columnType : ColumnType
  byteLen : Nat
  resolvedTypeName : Text
  deriving DecidableEq, Repr

def ResolvedType.typeInfo (rt : ResolvedType) : TypeInfo := typeMapping rt.columnType

/-- `resolve_type`.  The name goes into an array of 16 bytes. -/
def resolveType (typeName : Text) (hasLen : Bool) (len : Nat) :
    Except TypeResolveResult ResolvedType :=
  match typeByName typeName with
  | none => .error .unknownType
  | some columnType =>
    let type := typeMapping columnType
    if !type.expectsLen && hasLen then .error .lengthNotExpected
    else if type.expectsLen && !hasLen then .error .lengthRequired
    else if hasLen then
      if len > type.maxLen then .error .lengthTooBig
      else if len < type.minLen then .error .lengthTooSmall
      else .ok {
        columnType
        byteLen := len
        resolvedTypeName := svToCstr (typeName ++ text "(" ++ Decimal.print len ++ text ")") 16 }
    else if type.fixedSize = 0 then .error .misconfigured
    else .ok {
      columnType
      byteLen := type.fixedSize
      resolvedTypeName := svToCstr typeName 16 }

def resolveResultMsg : TypeResolveResult → Text
  | .unknownType => text "unknown type"
  | .lengthNotExpected => text "type does not accept length"
  | .lengthRequired => text "type requires length"
  | .lengthTooBig => text "length exceeds maximum"
  | .lengthTooSmall => text "length below minimum"
  | .misconfigured => text "misconfigured type"

def resolvedTypeValidate (rt : ResolvedType) (value : DataValue) : TypeValidateResult :=
  if value.type ≠ rt.typeInfo.valueType then .typeMismatch
  else
    match rt.typeInfo.validate with
    | some validate => validate value rt.byteLen
    | none => .ok

def validateTypeResultMsg : TypeValidateResult → Text
  | .typeMismatch => text "data type mismatch"
  | .valueTooLong => text "data too long for column"
  | .ok => text "validate type error"

end Maxql
