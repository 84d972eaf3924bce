import Maxql.Codec

/-!
# The row codec

`serialize_row_data` and `deserialize_row_data` as inverses: what is read of
the bytes of a row, how many bytes are read, and what is written for the row
that was read.

* `deserializeChar_array`: the pointer loop of `deserialize_char` leaves
  the string without the spaces at its end;
* `serialize_storedValue`: a value and its stored form have the same bytes;
* `row_roundTrips`: a whole row.
-/

namespace Maxql

open Program Bytes

/-! ## The pointer loop of `deserialize_char` -/

/-- The `do … while` loop with `end` as an index into the array. -/
def trimLoop (string : List UInt8) : (end' : Nat) → List UInt8
  | 0 => string.set 0 0
  | end' + 1 =>
    let string := string.set (end' + 1) 0
    if string.getD end' 0 == space then trimLoop string end' else string

/-- The array of `byte_len` bytes of `buf`, with `old` behind them, that the loop leaves. -/
def deserializeCharArray (buf old : List UInt8) (byteLen : Nat) : List UInt8 :=
  (trimLoop (buf.take byteLen ++ old.drop byteLen) byteLen).set byteLen 0

theorem trimLoop_append (bs : Text) {tail : List UInt8} (htail : tail ≠ []) :
    ∃ tail', trimLoop (bs ++ tail) bs.length = trimSpaces bs ++ 0 :: tail' := by
  induction bs using List.reverseRecOn generalizing tail with
  | nil =>
    obtain ⟨c, tail, rfl⟩ := List.exists_cons_of_ne_nil htail
    exact ⟨tail, rfl⟩
  | append_singleton bs c ih =>
    obtain ⟨t, tail, rfl⟩ := List.exists_cons_of_ne_nil htail
    have hset : (bs ++ [c] ++ t :: tail).set (bs.length + 1) 0 = bs ++ [c] ++ 0 :: tail := by
      rw [List.set_append_right _ _ (by simp)]
      simp
    have hread : (bs ++ [c] ++ 0 :: tail).getD bs.length 0 = c := by simp [List.getD]
    rw [List.length_append, List.length_singleton, trimLoop, hset]
    show ∃ tail', (if ((bs ++ [c] ++ 0 :: tail).getD bs.length 0 == space) = true then _ else _) = _
    rw [hread]
    by_cases hc : (c == space) = true
    · have htrim : trimSpaces (bs ++ [c]) = trimSpaces bs :=
        List.rdropWhile_concat_pos (fun x => x == space) bs c hc
      rw [if_pos hc, htrim, List.append_assoc]
      exact ih (List.cons_ne_nil _ _)
    · have htrim : trimSpaces (bs ++ [c]) = bs ++ [c] :=
        List.rdropWhile_concat_neg (fun x => x == space) bs c hc
      rw [if_neg hc, htrim]
      exact ⟨tail, rfl⟩

/-- What the array of the value holds behind the loop. -/
theorem deserializeCharArray_eq {buf old : List UInt8} {byteLen : Nat}
    (hbuf : byteLen ≤ buf.length) (hold : byteLen < old.length) :
    ∃ tail, deserializeCharArray buf old byteLen = trimSpaces (buf.take byteLen) ++ 0 :: tail := by
  have hlen : (buf.take byteLen).length = byteLen := by
    rw [List.length_take, Nat.min_eq_left hbuf]
  have htail : old.drop byteLen ≠ [] := by
    rw [ne_eq, List.drop_eq_nil_iff]
    omega
  obtain ⟨tail, hloop⟩ := trimLoop_append (buf.take byteLen) htail
  rw [hlen] at hloop
  have htrim : (trimSpaces (buf.take byteLen)).length ≤ byteLen := by
    have hle := (trimSpaces_prefix_self (buf.take byteLen)).length_le
    omega
  rw [deserializeCharArray, hloop, List.set_append_right _ _ htrim]
  cases byteLen - (trimSpaces (buf.take byteLen)).length with
  | zero => exact ⟨tail, rfl⟩
  | succ i => exact ⟨tail.set i 0, rfl⟩

/-- The loop stops in front of the string, so it trims the empty string and the string of spaces
as well. -/
theorem deserializeChar_array {buf old : List UInt8} {byteLen : Nat}
    (hbuf : byteLen ≤ buf.length) (hold : old.length = maxVarcharValueSize + 1)
    (hlen : byteLen ≤ maxVarcharValueSize) :
    deserializeChar buf byteLen
      = .ok (.string (VarcharValue.copy (deserializeCharArray buf old byteLen)), byteLen) := by
  obtain ⟨tail, harray⟩ := deserializeCharArray_eq hbuf
    (show byteLen < old.length by omega)
  have hbytes : slice buf 0 byteLen = .ok (buf.take byteLen) := by
    rw [slice, if_pos (by omega), List.drop_zero]
  have htrim : (trimSpaces (buf.take byteLen)).length ≤ maxVarcharValueSize := by
    have hle := (trimSpaces_prefix_self (buf.take byteLen)).length_le
    rw [List.length_take] at hle
    omega
  have hcstr : cstr ((trimSpaces (buf.take byteLen) ++ 0 :: tail).take maxVarcharValueSize)
      = cstr ((trimSpaces (buf.take byteLen)).take maxVarcharValueSize) := by
    rw [List.take_append, List.take_of_length_le htrim]
    cases maxVarcharValueSize - (trimSpaces (buf.take byteLen)).length with
    | zero => rw [List.take_zero, List.append_nil]
    | succ n => rw [List.take_succ_cons, cstr_append_zero]
  have hcopy : VarcharValue.copy (trimSpaces (buf.take byteLen) ++ 0 :: tail)
      = VarcharValue.copy (trimSpaces (buf.take byteLen)) := VarcharValue.ext hcstr
  rw [deserializeChar, hbytes, Checked.ok_bind, harray, hcopy]

/-! ## The bytes of the stored form -/

theorem trimSpaces_append_spaces (bs : Text) :
    bs = trimSpaces bs ++ List.replicate (bs.length - (trimSpaces bs).length) space := by
  induction bs using List.reverseRecOn with
  | nil => rfl
  | append_singleton bs c ih =>
    by_cases hc : (c == space) = true
    · have htrim : trimSpaces (bs ++ [c]) = trimSpaces bs :=
        List.rdropWhile_concat_pos (fun x => x == space) bs c hc
      have hle := (trimSpaces_prefix_self bs).length_le
      have hcount : (bs ++ [c]).length - (trimSpaces bs).length
          = (bs.length - (trimSpaces bs).length) + 1 := by
        rw [List.length_append, List.length_singleton]
        omega
      rw [htrim, hcount, List.replicate_succ', ← List.append_assoc, ← ih, beq_iff_eq.1 hc]
    · have htrim : trimSpaces (bs ++ [c]) = bs ++ [c] :=
        List.rdropWhile_concat_neg (fun x => x == space) bs c hc
      rw [htrim, Nat.sub_self, List.replicate_zero, List.append_nil]

/-- Spaces that a column removes are the ones that it fills in. -/
theorem trimSpaces_fill {bs : Text} {n : Nat} (h : bs.length ≤ n) :
    trimSpaces bs ++ List.replicate (n - (trimSpaces bs).length) space
      = bs ++ List.replicate (n - bs.length) space := by
  have hle := (trimSpaces_prefix_self bs).length_le
  have hcount : n - (trimSpaces bs).length
      = (bs.length - (trimSpaces bs).length) + (n - bs.length) := by omega
  rw [hcount, List.replicate_add, ← List.append_assoc, ← trimSpaces_append_spaces]

theorem serialize_storedValue [UnionMemory] {rt : ResolvedType} (hrt : rt.Sound) {v : DataValue}
    (hv : resolvedTypeValidate rt v = .ok) :
    rt.typeInfo.serialize (storedValue rt v) rt.byteLen = rt.typeInfo.serialize v rt.byteLen := by
  obtain ⟨columnType, byteLen, name⟩ := rt
  rw [resolvedTypeValidate_eq_ok] at hv
  cases columnType <;> cases v <;> simp only at hv
  case int.int n => rfl
  case float.float bits => rfl
  case varchar.string s => rfl
  case char.string s =>
    have htrim : s.trim.bytes.length ≤ byteLen :=
      Nat.le_trans (trimSpaces_prefix_self s.bytes).length_le hv
    show serializeChar (.string s.trim) byteLen = serializeChar (.string s) byteLen
    rw [serializeChar_string hv, serializeChar_string htrim]
    exact congrArg Except.ok (trimSpaces_fill hv)
  case binary.binary b =>
    obtain ⟨_, hmax⟩ : 1 ≤ byteLen ∧ byteLen ≤ 128 := hrt
    have hpad : (b.pad byteLen).bytes = padTo b.bytes byteLen := BinaryValue.pad_bytes hmax
    have hlen : (padTo b.bytes byteLen).length = byteLen := length_padTo hv
    show serializeBinary (.binary (b.pad byteLen)) byteLen = serializeBinary (.binary b) byteLen
    rw [serializeBinary, serializeBinary, DataValue.binLen_binary, DataValue.binLen_binary,
      DataValue.binBytes_binary, DataValue.binBytes_binary, hpad, if_pos hv,
      if_pos (Nat.le_of_eq hlen), hlen, Nat.sub_self, List.replicate_zero, List.append_nil]
    rfl

/-! ## Rows -/

/-- `deserialize_row_data` with its `offset`: the values and where the reading ends. -/
def deserializeRowDataAt (buf : List UInt8) :
    (columns : List Column) → (offset : Nat) → Checked (DataRow × Nat)
  | [], offset => .ok ([], offset)
  | column :: columns, offset => do
    let rt := column.resolvedType
    let (value, size) ← rt.typeInfo.deserialize (buf.drop offset) rt.byteLen
    let (values, offset) ← deserializeRowDataAt buf columns (offset + size)
    .ok (value :: values, offset)

theorem deserializeRowData_drop (buf : List UInt8) (columns : List Column) (offset : Nat) :
    deserializeRowData columns (buf.drop offset)
      = (deserializeRowDataAt buf columns offset).map Prod.fst := by
  induction columns generalizing offset with
  | nil => rfl
  | cons column columns ih =>
    rw [deserializeRowData, deserializeRowDataAt]
    cases column.resolvedType.typeInfo.deserialize (buf.drop offset)
        column.resolvedType.byteLen with
    | error e => rfl
    | ok r =>
      obtain ⟨value, size⟩ := r
      rw [Checked.ok_bind, Checked.ok_bind]
      dsimp only
      rw [List.drop_drop, ih]
      cases deserializeRowDataAt buf columns (offset + size) <;> rfl

theorem serializeRowData_storedRow [UnionMemory] {columns : List Column} {values : DataRow}
    (hcolumns : ∀ c ∈ columns, c.resolvedType.Sound) (hrow : RowTyped columns values) :
    serializeRowData columns (storedRow columns values) = serializeRowData columns values := by
  induction hrow with
  | nil => rfl
  | @cons column value columns values hv _ ih =>
    have hrest := ih fun c hc => hcolumns c (List.mem_cons_of_mem _ hc)
    have hvalue := serialize_storedValue (hcolumns column List.mem_cons_self) hv
    show serializeRowData (column :: columns) (storedValue column.resolvedType value ::
      storedRow columns values) = _
    rw [serializeRowData, serializeRowData, hvalue, hrest]

/-- The reading ends where the writing ended, whatever stands in front of the row and behind
it. -/
theorem deserializeRowDataAt_serialized [UnionMemory] {columns : List Column} {values : DataRow}
    {bs : List UInt8} (hcolumns : ∀ c ∈ columns, c.resolvedType.Sound)
    (hrow : RowTyped columns values) (hbs : serializeRowData columns values = .ok bs)
    (before behind : List UInt8) :
    deserializeRowDataAt (before ++ (bs ++ behind)) columns before.length
      = .ok (storedRow columns values, before.length + bs.length) := by
  induction hrow generalizing before bs with
  | nil =>
    cases hbs
    rfl
  | @cons column value columns values hv _ ih =>
    obtain ⟨cell, hcell, -, hback⟩ := serialize_spec (hcolumns column List.mem_cons_self) hv
    rw [serializeRowData, hcell, Checked.ok_bind] at hbs
    obtain ⟨rest, hrest, hbs⟩ := Checked.bind_eq_ok.1 hbs
    cases hbs
    have hcolumns' : ∀ c ∈ columns, c.resolvedType.Sound :=
      fun c hc => hcolumns c (List.mem_cons_of_mem _ hc)
    have hnext := ih hcolumns' hrest (before ++ cell)
    rw [List.append_assoc, ← List.append_assoc cell, List.length_append] at hnext
    rw [deserializeRowDataAt, List.drop_left, List.append_assoc, hback, Checked.ok_bind]
    show (deserializeRowDataAt _ columns (before.length + cell.length) >>= _) = _
    rw [← List.append_assoc cell, hnext, List.length_append, ← Nat.add_assoc]
    rfl

/-- Reading a row gives the stored row from exactly the bytes that were written, writing it again
gives the same bytes, and the row fits its buffer and its size field. -/
theorem row_roundTrips [UnionMemory] {columns : List Column} {values : DataRow}
    (hcount : columns.length ≤ maxColumnsPerTable)
    (hcolumns : ∀ c ∈ columns, ∃ typeName hasLen len,
      resolveType typeName hasLen len = .ok c.resolvedType)
    (hrow : RowTyped columns values) :
    ∃ bs, serializeRowData columns values = .ok bs ∧
      (∀ before behind, deserializeRowDataAt (before ++ (bs ++ behind)) columns before.length
        = .ok (storedRow columns values, before.length + bs.length)) ∧
      serializeRowData columns (storedRow columns values) = .ok bs ∧
      headerSize + bs.length ≤ maxRowSize ∧ headerSize + bs.length < 2 ^ 16 := by
  have hsound : ∀ c ∈ columns, c.resolvedType.Sound := by
    intro c hc
    obtain ⟨typeName, hasLen, len, hresolve⟩ := hcolumns c hc
    exact resolveType_sound hresolve
  obtain ⟨bs, hbs, hlen, -⟩ := serializeRowData_spec hsound hrow
  have hdata : bs.length ≤ maxDataSize :=
    Nat.le_trans hlen (Nat.mul_le_mul_right _ hcount)
  have hmax : maxDataSize = 4096 := rfl
  have hheader : headerSize = 3 := rfl
  refine ⟨bs, hbs, deserializeRowDataAt_serialized hsound hrow hbs, ?_, ?_, ?_⟩
  · rw [serializeRowData_storedRow hsound hrow, hbs]
  · show headerSize + bs.length ≤ maxDataSize + headerSize
    omega
  · omega

open ClearedMemory

def codecColumns : List Column :=
  [⟨text "a", ⟨.char, 4, text "char(4)"⟩, false, .null⟩,
    ⟨text "b", ⟨.binary, 3, text "binary(3)"⟩, false, .null⟩,
    ⟨text "c", ⟨.varchar, 5, text "varchar(5)"⟩, false, .null⟩,
    ⟨text "d", ⟨.int, 4, text "int"⟩, false, .null⟩]

def codecValues : DataRow :=
  [.string (VarcharValue.copy (text "  ")), .binary ⟨[7], by decide⟩,
    .string (VarcharValue.copy (text "x ")), .int (-2)]

theorem row_roundTrips_codecValues : ∃ bs, serializeRowData codecColumns codecValues = .ok bs ∧
    (∀ before behind, deserializeRowDataAt (before ++ (bs ++ behind)) codecColumns before.length
      = .ok (storedRow codecColumns codecValues, before.length + bs.length)) ∧
    serializeRowData codecColumns (storedRow codecColumns codecValues) = .ok bs ∧
    headerSize + bs.length ≤ maxRowSize ∧ headerSize + bs.length < 2 ^ 16 := by
  refine row_roundTrips (by decide) ?_ ?_
  · intro c hc
    simp only [codecColumns, List.mem_cons, List.not_mem_nil, or_false] at hc
    obtain rfl | rfl | rfl | rfl := hc
    · exact ⟨text "char", true, 4, by decide⟩
    · exact ⟨text "binary", true, 3, by decide⟩
    · exact ⟨text "varchar", true, 5, by decide⟩
    · exact ⟨text "int", false, 0, by decide⟩
  · exact .cons (by decide) (.cons (by decide) (.cons (by decide) (.cons (by decide) .nil)))

end Maxql
