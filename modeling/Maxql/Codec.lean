import Maxql.Storage
import Mathlib.Data.List.Forall2

/-!
# What is read back of a value

`storedValue` is the form in which a column gives a value back: a `char`
column without the spaces at its end, a `binary` column filled up with zeros,
every other column as it was.  The groups are the types that `resolve_type`
accepts, one value, and a row.
-/

namespace Maxql

open Program Bytes

/-! ## Types -/

/-- The lengths that `resolve_type` gives. -/
def ResolvedType.Sound (rt : ResolvedType) : Prop :=
  match rt.columnType with
  | .int => rt.byteLen = 4
  | .float => rt.byteLen = 4
  | .varchar => 1 ≤ rt.byteLen ∧ rt.byteLen ≤ 255
  | .char => 1 ≤ rt.byteLen ∧ rt.byteLen ≤ 128
  | .binary => 1 ≤ rt.byteLen ∧ rt.byteLen ≤ 128

theorem resolveType_sound {typeName : Text} {hasLen : Bool} {len : Nat} {rt : ResolvedType}
    (h : resolveType typeName hasLen len = .ok rt) : rt.Sound := by
  unfold resolveType at h
  split at h
  · cases h
  · next columnType _ =>
    cases columnType <;> cases hasLen <;>
      simp [typeMapping, maxVarcharValueSize, maxCharValueSize, maxBinaryValueSize] at h
    case int.false | float.false =>
      subst h
      rfl
    case varchar.true | char.true | binary.true =>
      split at h
      · cases h
      · split at h
        · cases h
        · next hmax hmin =>
          cases h
          exact ⟨Nat.pos_of_ne_zero hmin, Nat.not_lt.1 hmax⟩

theorem ResolvedType.Sound.byteLen_le {rt : ResolvedType} (h : rt.Sound) :
    rt.byteLen ≤ 255 := by
  unfold ResolvedType.Sound at h
  split at h <;> omega

theorem ResolvedType.Sound.byteLen_pos {rt : ResolvedType} (h : rt.Sound) :
    1 ≤ rt.byteLen := by
  unfold ResolvedType.Sound at h
  split at h <;> omega

/-- The bytes that a value of the column takes at most. -/
def columnWidth (rt : ResolvedType) : Nat :=
  match rt.columnType with
  | .varchar => rt.byteLen + 1
  | _ => rt.byteLen

/-- The values that a column of this type takes. -/
theorem resolvedTypeValidate_eq_ok {rt : ResolvedType} {v : DataValue} :
    resolvedTypeValidate rt v = .ok ↔
      match rt.columnType, v with
      | .int, .int _ => True
      | .float, .float _ => True
      | .varchar, .string s => s.bytes.length ≤ rt.byteLen
      | .char, .string s => s.bytes.length ≤ rt.byteLen
      | .binary, .binary b => b.bytes.length ≤ rt.byteLen
      | _, _ => False := by
  obtain ⟨columnType, byteLen, name⟩ := rt
  cases columnType <;> cases v <;>
    simp [resolvedTypeValidate, ResolvedType.typeInfo, typeMapping, DataValue.type,
      validateString, validateBinary]

/-! ## Values -/

theorem trimSpaces_prefix_self (bs : Text) : trimSpaces bs <+: bs :=
  List.rdropWhile_prefix _ bs

theorem trimSpaces_pad (bs : Text) (n : Nat) :
    trimSpaces (bs ++ List.replicate n space) = trimSpaces bs := by
  have hspaces : ∀ c ∈ List.replicate n space, (c == space) = true := by
    intro c hc
    rw [List.eq_of_mem_replicate hc]
    rfl
  rw [trimSpaces, trimSpaces, List.rdropWhile, List.rdropWhile, List.reverse_append,
    List.reverse_replicate, List.dropWhile_append_of_pos hspaces]

theorem trimSpaces_trimSpaces (bs : Text) : trimSpaces (trimSpaces bs) = trimSpaces bs :=
  List.rdropWhile_idempotent _ _

/-- The string without the spaces at its end. -/
def VarcharValue.trim (s : VarcharValue) : VarcharValue where
  bytes := trimSpaces s.bytes
  nonzero := fun h => s.nonzero ((trimSpaces_prefix_self _).subset h)
  fits := Nat.le_trans (trimSpaces_prefix_self _).length_le s.fits

theorem VarcharValue.ext {s t : VarcharValue} (h : s.bytes = t.bytes) : s = t := by
  cases s
  cases t
  cases h
  rfl

/-- The array takes the contents of a string as they are. -/
theorem VarcharValue.copy_bytes (s : VarcharValue) : VarcharValue.copy s.bytes = s := by
  apply VarcharValue.ext
  show cstr (s.bytes.take maxVarcharValueSize) = s.bytes
  rw [List.take_of_length_le s.fits, cstr_of_zero_not_mem s.nonzero]

/-- The bytes filled up with zeros to `n`. -/
def BinaryValue.pad (b : BinaryValue) (n : Nat) : BinaryValue where
  bytes := (b.bytes ++ List.replicate (n - b.bytes.length) 0).take maxBinaryValueSize
  fits := List.length_take_le _ _

theorem BinaryValue.ext {b c : BinaryValue} (h : b.bytes = c.bytes) : b = c := by
  cases b
  cases c
  cases h
  rfl

theorem BinaryValue.pad_bytes {b : BinaryValue} {n : Nat} (h : n ≤ maxBinaryValueSize) :
    (b.pad n).bytes = padTo b.bytes n := by
  apply List.take_of_length_le
  have hb := b.fits
  simp only [List.length_append, List.length_replicate]
  omega

/-- The value that a column of type `rt` gives back for `v`. -/
def storedValue (rt : ResolvedType) (v : DataValue) : DataValue :=
  match rt.columnType, v with
  | .char, .string s => .string s.trim
  | .binary, .binary b => .binary (b.pad rt.byteLen)
  | _, v => v

theorem slice_le_four (n : Nat) (rest : List UInt8) :
    slice (le 4 n ++ rest) 0 4 = .ok (le 4 n) := slice_front (length_le 4 n)

theorem ofLe_four (u : UInt32) : UInt32.ofNat (ofLe (le 4 u.toNat)) = u := by
  have hlt : u.toNat < 256 ^ 4 := UInt32.toNat_lt u
  rw [ofLe_le_of_lt hlt, UInt32.ofNat_toNat]

/-- A C string ends inside the union. -/
theorem strlenString_string [UnionMemory] (s : VarcharValue) :
    strlenString (.string s) = .ok s.bytes.length := if_pos (Nat.lt_succ_of_le s.fits)

theorem serializeVarchar_string [UnionMemory] (s : VarcharValue) (byteLen : Nat) :
    serializeVarchar (.string s) byteLen = .ok (UInt8.ofNat s.bytes.length :: s.bytes) := by
  rw [serializeVarchar, strlenString_string]
  rfl

theorem serializeChar_string [UnionMemory] {s : VarcharValue} {byteLen : Nat}
    (hfits : s.bytes.length ≤ byteLen) : serializeChar (.string s) byteLen
      = .ok (s.bytes ++ List.replicate (byteLen - s.bytes.length) space) := by
  rw [serializeChar, strlenString_string, Checked.ok_bind, if_pos hfits, DataValue.chars_string]

/-- A value that the column takes is written inside the width of the column, and read
back in its stored form. -/
theorem serialize_spec [UnionMemory] {rt : ResolvedType} (hrt : rt.Sound) {v : DataValue}
    (hv : resolvedTypeValidate rt v = .ok) :
    ∃ bs, rt.typeInfo.serialize v rt.byteLen = .ok bs ∧ bs.length ≤ columnWidth rt ∧
      ∀ rest, rt.typeInfo.deserialize (bs ++ rest) rt.byteLen
        = .ok (storedValue rt v, bs.length) := by
  obtain ⟨columnType, byteLen, name⟩ := rt
  rw [resolvedTypeValidate_eq_ok] at hv
  cases columnType <;> cases v <;> simp only at hv
  case int.int n =>
    obtain rfl : byteLen = 4 := hrt
    refine ⟨le 4 n.toUInt32.toNat, ?_, by simp [columnWidth], fun rest => ?_⟩
    · have hs := slice_le_four n.toUInt32.toNat []
      rw [List.append_nil] at hs
      exact hs
    · show deserializeInt _ _ = _
      rw [deserializeInt, slice_le_four, Checked.ok_bind, ofLe_four, Int32.toInt32_toUInt32,
        length_le]
      rfl
  case float.float bits =>
    obtain rfl : byteLen = 4 := hrt
    refine ⟨le 4 bits.toNat, ?_, by simp [columnWidth], fun rest => ?_⟩
    · have hs := slice_le_four bits.toNat []
      rw [List.append_nil] at hs
      exact hs
    · show deserializeFloat _ _ = _
      rw [deserializeFloat, slice_le_four, Checked.ok_bind, ofLe_four, length_le]
      rfl
  case varchar.string s =>
    refine ⟨UInt8.ofNat s.bytes.length :: s.bytes, serializeVarchar_string s byteLen,
      by simpa [columnWidth] using hv, fun rest => ?_⟩
    have hlen : (UInt8.ofNat s.bytes.length).toNat = s.bytes.length :=
      UInt8.toNat_ofNat_of_lt (Nat.lt_succ_of_le s.fits)
    have hslice : slice (UInt8.ofNat s.bytes.length :: s.bytes ++ rest) 1 s.bytes.length
        = .ok s.bytes := slice_parts [UInt8.ofNat s.bytes.length] s.bytes rest
    have hread : readAt (UInt8.ofNat s.bytes.length :: s.bytes ++ rest) 0
        = .ok (UInt8.ofNat s.bytes.length) := rfl
    show deserializeVarchar _ byteLen = _
    rw [deserializeVarchar, hread, Checked.ok_bind, hlen, hslice, Checked.ok_bind,
      VarcharValue.copy_bytes]
    rfl
  case char.string s =>
    obtain ⟨_, hmax⟩ : 1 ≤ byteLen ∧ byteLen ≤ 128 := hrt
    have hlen : (s.bytes ++ List.replicate (byteLen - s.bytes.length) space).length
        = byteLen := by
      rw [List.length_append, List.length_replicate]
      omega
    refine ⟨s.bytes ++ List.replicate (byteLen - s.bytes.length) space,
      serializeChar_string hv, Nat.le_of_eq hlen, fun rest => ?_⟩
    show deserializeChar _ byteLen = _
    rw [deserializeChar, slice_front hlen, Checked.ok_bind, trimSpaces_pad, hlen]
    show Except.ok (DataValue.string (VarcharValue.copy s.trim.bytes), byteLen) = _
    rw [VarcharValue.copy_bytes]
    rfl
  case binary.binary b =>
    obtain ⟨_, hmax⟩ : 1 ≤ byteLen ∧ byteLen ≤ 128 := hrt
    have hlen : (b.bytes ++ List.replicate (byteLen - b.bytes.length) 0).length = byteLen := by
      rw [List.length_append, List.length_replicate]
      omega
    refine ⟨b.bytes ++ List.replicate (byteLen - b.bytes.length) 0, if_pos hv,
      Nat.le_of_eq hlen, fun rest => ?_⟩
    have hcopy : BinaryValue.copy (b.bytes ++ List.replicate (byteLen - b.bytes.length) 0)
        = .ok (b.pad byteLen) := by
      have hfits : (b.bytes ++ List.replicate (byteLen - b.bytes.length) 0).length
          ≤ maxBinaryValueSize := by
        rw [hlen]
        exact hmax
      rw [BinaryValue.copy, dif_pos hfits]
      exact congrArg Except.ok (BinaryValue.ext (BinaryValue.pad_bytes hmax).symm)
    show deserializeBinary _ byteLen = _
    rw [deserializeBinary, slice_front hlen, Checked.ok_bind, hcopy, hlen]
    rfl

/-- The stored form is a value of the column, and its own stored form. -/
theorem validate_storedValue {rt : ResolvedType} (hrt : rt.Sound) {v : DataValue}
    (hv : resolvedTypeValidate rt v = .ok) :
    resolvedTypeValidate rt (storedValue rt v) = .ok ∧
      storedValue rt (storedValue rt v) = storedValue rt v := by
  obtain ⟨columnType, byteLen, name⟩ := rt
  rw [resolvedTypeValidate_eq_ok] at hv ⊢
  cases columnType <;> cases v <;> simp only at hv
  case int.int n => exact ⟨trivial, rfl⟩
  case float.float bits => exact ⟨trivial, rfl⟩
  case varchar.string s => exact ⟨hv, rfl⟩
  case char.string s =>
    refine ⟨Nat.le_trans (trimSpaces_prefix_self _).length_le hv, ?_⟩
    exact congrArg DataValue.string (VarcharValue.ext (trimSpaces_trimSpaces _))
  case binary.binary b =>
    obtain ⟨_, hmax⟩ : 1 ≤ byteLen ∧ byteLen ≤ 128 := hrt
    have hlen : (b.pad byteLen).bytes.length = byteLen := by
      rw [BinaryValue.pad_bytes hmax, length_padTo hv]
    refine ⟨Nat.le_of_eq hlen, congrArg DataValue.binary (BinaryValue.ext ?_)⟩
    rw [BinaryValue.pad_bytes hmax, padTo_of_length hlen]

/-! ## Rows -/

/-- Every value is one that its column takes. -/
def RowTyped (columns : List Column) (values : DataRow) : Prop :=
  List.Forall₂ (fun column value => resolvedTypeValidate column.resolvedType value = .ok)
    columns values

/-- The row as it is read back. -/
def storedRow (columns : List Column) (values : DataRow) : DataRow :=
  List.zipWith (fun column value => storedValue column.resolvedType value) columns values

theorem RowTyped.stored {columns : List Column} {values : DataRow}
    (hcolumns : ∀ c ∈ columns, c.resolvedType.Sound) (hrow : RowTyped columns values) :
    RowTyped columns (storedRow columns values) ∧
      storedRow columns (storedRow columns values) = storedRow columns values := by
  induction hrow with
  | nil => exact ⟨.nil, rfl⟩
  | @cons column value columns values hv _ ih =>
    obtain ⟨htyped, hsame⟩ := ih fun c hc => hcolumns c (List.mem_cons_of_mem _ hc)
    obtain ⟨hok, hidem⟩ := validate_storedValue (hcolumns column List.mem_cons_self) hv
    exact ⟨.cons hok htyped, congrArg₂ List.cons hidem hsame⟩

/-- The bytes of a row are read back as the stored row. -/
theorem serializeRowData_spec [UnionMemory] {columns : List Column} {values : DataRow}
    (hcolumns : ∀ c ∈ columns, c.resolvedType.Sound) (hrow : RowTyped columns values) :
    ∃ bs, serializeRowData columns values = .ok bs ∧
      bs.length ≤ columns.length * (1 + maxVarcharValueSize) ∧
      deserializeRowData columns bs = .ok (storedRow columns values) := by
  induction hrow with
  | nil => exact ⟨[], rfl, by simp, rfl⟩
  | @cons column value columns values hv _ ih =>
    obtain ⟨rest, hrest, hlen, hread⟩ := ih fun c hc => hcolumns c (List.mem_cons_of_mem _ hc)
    have hrt := hcolumns column List.mem_cons_self
    obtain ⟨bs, hbs, hwidth, hback⟩ := serialize_spec hrt hv
    have hwidth' : columnWidth column.resolvedType ≤ 1 + maxVarcharValueSize := by
      have hle : column.resolvedType.byteLen ≤ maxVarcharValueSize := hrt.byteLen_le
      unfold columnWidth
      split <;> omega
    refine ⟨bs ++ rest, ?_, ?_, ?_⟩
    · rw [serializeRowData, hbs, Checked.ok_bind, hrest]
      rfl
    · rw [List.length_append, List.length_cons, Nat.succ_mul]
      omega
    · rw [deserializeRowData, hback rest, Checked.ok_bind]
      show deserializeRowData columns ((bs ++ rest).drop bs.length) >>= _ = _
      rw [List.drop_left, hread]
      rfl

end Maxql
