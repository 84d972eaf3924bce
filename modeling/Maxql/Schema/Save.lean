import Maxql.Parser.Grammar
import Maxql.Presentation
import Maxql.Schema

/-!
# Saving a schema

`schema_save_table` of `src/schema/schema_io.c` and `index_serialize` of
`src/index/index_io.c`.  The arrays that literals and key parts are printed
into have no value at first.

* `savedText`: what is written for columns whose defaults have their type;
* `schemaSaveTable_eq`: it is what `schema_save_table` writes.
-/

namespace Maxql

open Program Bytes

/-! ## The file -/

def schemaLevelIndent : Text := text "  "

/-- What an array of the given size holds before anything is written to it. -/
abbrev Unwritten := (size : Nat) → Vector UInt8 size

/-- One round of `schema_serialize_columns`. -/
def schemaSerializeColumn (unwritten : Unwritten) (printFloat : FloatFormat) (indent : Text)
    (col : Column) : Checked Text := do
  let name := indent ++ col.columnName ++ text " " ++ col.resolvedType.resolvedTypeName
  if col.hasDefault then
    let p := typePresentation printFloat col.resolvedType.columnType
    let sz := p.maxLiteralSize col.resolvedType.byteLen
    let tmp ← p.formatLiteral col.defaultValue (unwritten sz).toList
    return name ++ text " default " ++ cstr tmp ++ text ",\n"
  else return name ++ text ",\n"

def schemaSerializeColumns (unwritten : Unwritten) (printFloat : FloatFormat) (indent : Text)
    (columns : List Column) : Checked Text := do
  let lines ← columns.mapM (schemaSerializeColumn unwritten printFloat indent)
  return lines.flatten

/-- `snprintf(part, sizeof(part), "%s(%u)", …)` -/
def indexSerializePart (unwritten : Unwritten) (part : IndexPart) : Checked Text := do
  let size := maxColumnNameSize + 8
  let (buf, _) ← snprintf (unwritten size).toList 0 size
    (part.column ++ text "(" ++ Decimal.print part.partLen ++ text ")")
  return cstr buf

/-- The parts with `", "` in front of every part but the first. -/
def joinParts : List Text → Text
  | [] => []
  | [part] => part
  | part :: other :: parts => part ++ text ", " ++ joinParts (other :: parts)

/-- One round of `index_serialize`. -/
def indexSerializeOne (unwritten : Unwritten) (indent : Text) (idx : IndexDefinition) :
    Checked Text := do
  let vt ← indexVtableOf idx.type
  let parts ← idx.parts.mapM (indexSerializePart unwritten)
  return indent ++ vt.typeName ++ (if idx.isUnique then text " unique " else text " ") ++ idx.name
    ++ text " (" ++ joinParts parts ++ text "),\n"

def indexSerialize (unwritten : Unwritten) (indexMeta : IndexMeta) (indent : Text) :
    Checked Text := do
  let lines ← indexMeta.mapM (indexSerializeOne unwritten indent)
  return lines.flatten

/-- `schema_save_table` on a file that can be opened: what it writes.  No index metadata is a
null pointer. -/
def schemaSaveTable (unwritten : Unwritten) (printFloat : FloatFormat) (schema : TableSchema)
    (indexMeta : Option IndexMeta) : Checked (List UInt8) := do
  let columns ← schemaSerializeColumns unwritten printFloat
    (schemaLevelIndent ++ schemaLevelIndent) schema.columns
  let indexes ← match indexMeta with
    | some indexMeta => indexSerialize unwritten indexMeta (schemaLevelIndent ++ schemaLevelIndent)
    | none => pure []
  return text "table (\n" ++ (schemaLevelIndent ++ text "columns (\n") ++ columns
    ++ (schemaLevelIndent ++ text "),\n") ++ (schemaLevelIndent ++ text "indexes (\n") ++ indexes
    ++ (schemaLevelIndent ++ text "),\n") ++ text ")\n"

/-! ## What is written -/

def savedColumn (printFloat : FloatFormat) (col : Column) : Text :=
  text "    " ++ col.columnName ++ text " " ++ col.resolvedType.resolvedTypeName ++
    (if col.hasDefault then text " default " ++ literalText printFloat col.defaultValue else [])
    ++ text ",\n"

def savedPart (part : IndexPart) : Text :=
  part.column ++ text "(" ++ Decimal.print part.partLen ++ text ")"

def savedIndex (idx : IndexDefinition) : Text :=
  text "    btree" ++ (if idx.isUnique then text " unique " else text " ") ++ idx.name
    ++ text " (" ++ joinParts (idx.parts.map savedPart) ++ text "),\n"

def savedText (printFloat : FloatFormat) (schema : TableSchema) (indexMeta : IndexMeta) : Text :=
  text "table (\n  columns (\n" ++ (schema.columns.flatMap (savedColumn printFloat) ++
    (text "  ),\n  indexes (\n" ++ (indexMeta.flatMap savedIndex ++ text "  ),\n)\n")))

/-- What `printf` prints with `%.7g`. -/
inductive FloatForm : Text → Prop where
  | plain {s} (h : isNumber s = true) : FloatForm s
  | negative {s} (h : FloatForm s) : FloatForm (45 :: s)
  | inf : FloatForm (text "inf")
  | nan : FloatForm (text "nan")
  | exponent {m sign ds} (hm : isNumber m = true) (hsign : sign = 43 ∨ sign = 45)
      (hds : ∀ c ∈ ds, isDigit c = true) : FloatForm (m ++ 101 :: sign :: ds)

structure PrintsFloats (printFloat : FloatFormat) : Prop where
  form : ∀ bits, FloatForm (printFloat bits)
  fits : ∀ bits, (printFloat bits).length < 15

/-- `%.7g` on one and a half. -/
def halfFormat : FloatFormat := fun bits => if bits = 0x3fc00000 then text "1.5" else text "0"

theorem halfFormat_printsFloats : PrintsFloats halfFormat where
  form bits := by
    unfold halfFormat
    split <;> exact .plain (by decide)
  fits bits := by
    unfold halfFormat
    split <;> decide

theorem isNumber_zero_not_mem {s : Text} (h : isNumber s = true) : 0 ∉ s := by
  simp only [isNumber, Bool.and_eq_true, List.all_eq_true] at h
  exact fun hzero => absurd (h.1.2 0 hzero) (by decide)

theorem FloatForm.zero_not_mem {s : Text} (h : FloatForm s) : 0 ∉ s := by
  induction h with
  | plain h => exact isNumber_zero_not_mem h
  | negative _ ih =>
    rw [List.mem_cons, not_or]
    exact ⟨by decide, ih⟩
  | inf => decide
  | nan => decide
  | exponent hm hsign hds =>
    rw [List.mem_append, List.mem_cons, List.mem_cons, not_or, not_or, not_or]
    refine ⟨isNumber_zero_not_mem hm, by decide, ?_, fun hzero => absurd (hds 0 hzero) (by decide)⟩
    obtain rfl | rfl := hsign <;> decide

theorem decimalDigit_ne_zero {n : Nat} : 0 ∉ Decimal.print n := by
  intro h
  have hdigit := Decimal.isDigit_of_mem_print h
  cases hdigit

theorem hexText_ne_zero (byte : UInt8) : 0 ∉ hexText byte := by
  have hdigit : ∀ n < 16, hexDigit n ≠ 0 := by decide
  have hbyte := byte.toNat_lt
  simp only [hexText, List.mem_cons, List.not_mem_nil, or_false, not_or]
  exact ⟨(hdigit _ (by omega)).symm, (hdigit _ (by omega)).symm⟩

theorem literalText_zero_not_mem {printFloat : FloatFormat} (h : PrintsFloats printFloat)
    (value : DataValue) : 0 ∉ literalText printFloat value := by
  cases value with
  | null => exact List.not_mem_nil
  | int n =>
    rw [literalText, formatInt]
    split
    · rw [List.mem_append, not_or]
      exact ⟨by decide, decimalDigit_ne_zero⟩
    · exact decimalDigit_ne_zero
  | string s =>
    rw [literalText, List.mem_append, List.mem_append, not_or, not_or]
    exact ⟨⟨by decide, s.nonzero⟩, by decide⟩
  | binary b =>
    rw [literalText, List.mem_append, not_or, List.mem_flatMap]
    refine ⟨by decide, fun hmem => ?_⟩
    obtain ⟨byte, -, hzero⟩ := hmem
    exact hexText_ne_zero byte hzero
  | float bits => exact (h.form bits).zero_not_mem

theorem cstr_append_nul {s : Text} (h : 0 ∉ s) (rest : List UInt8) : cstr (s ++ 0 :: rest) = s := by
  rw [cstr_append h]
  exact List.append_nil s

/-- A part fits in its array. -/
theorem indexSerializePart_eq (unwritten : Unwritten) {part : IndexPart}
    (hname : part.column.length ≤ maxColumnNameSize) (hzero : 0 ∉ part.column)
    (hlen : part.partLen < 1000) :
    indexSerializePart unwritten part = .ok (savedPart part) := by
  have hdigits : (Decimal.print part.partLen).length ≤ 3 := Decimal.length_print_le 2 hlen
  have hsize : (savedPart part).length < (unwritten (maxColumnNameSize + 8)).toList.length := by
    rw [Vector.length_toList]
    simp only [savedPart, text, List.length_append]
    simp only [maxColumnNameSize] at hname ⊢
    simp
    omega
  have hprint := snprintf_front hsize
  rw [Vector.length_toList] at hprint
  have hnozero : 0 ∉ savedPart part := by
    simp only [savedPart, List.mem_append, not_or]
    exact ⟨⟨⟨hzero, by decide⟩, decimalDigit_ne_zero⟩, by decide⟩
  rw [indexSerializePart]
  dsimp only
  rw [show part.column ++ text "(" ++ Decimal.print part.partLen ++ text ")" = savedPart part from
    rfl, hprint]
  exact congrArg Except.ok (cstr_append_nul hnozero _)

theorem mapM_eq_map {ε α β : Type} {f : α → Except ε β} {g : α → β} {xs : List α}
    (h : ∀ x ∈ xs, f x = .ok (g x)) : xs.mapM f = .ok (xs.map g) :=
  mapM_eq_ok.2 (List.forall₂_map_right_iff.2 (List.forall₂_same.2 h))

/-- What a table needs so that it can be written. -/
structure Writable (schema : TableSchema) (indexMeta : IndexMeta) : Prop where
  defaults : ∀ col ∈ schema.columns, col.hasDefault = true →
    resolvedTypeValidate col.resolvedType col.defaultValue = .ok
  types : ∀ idx ∈ indexMeta, idx.type = .btree
  partNames : ∀ idx ∈ indexMeta, ∀ part ∈ idx.parts,
    part.column.length ≤ maxColumnNameSize ∧ 0 ∉ part.column
  partLens : ∀ idx ∈ indexMeta, ∀ part ∈ idx.parts, part.partLen < 1000

theorem schemaSaveTable_eq (unwritten : Unwritten) {printFloat : FloatFormat}
    (hfloats : PrintsFloats printFloat) {schema : TableSchema} {indexMeta : IndexMeta}
    (h : Writable schema indexMeta) :
    schemaSaveTable unwritten printFloat schema (some indexMeta)
      = .ok (savedText printFloat schema indexMeta) := by
  have hcolumns : schemaSerializeColumns unwritten printFloat
      (schemaLevelIndent ++ schemaLevelIndent) schema.columns
      = .ok (schema.columns.flatMap (savedColumn printFloat)) := by
    rw [schemaSerializeColumns, mapM_eq_map (g := savedColumn printFloat)]
    · rw [List.flatMap_def]
      rfl
    · intro col hcol
      unfold schemaSerializeColumn savedColumn
      dsimp only
      split
      case isTrue hdefault =>
        obtain ⟨rest, hrest⟩ := formatLiteral_spec hfloats.fits (h.defaults col hcol hdefault)
          (unwritten _).toList Vector.length_toList
        rw [hrest, Checked.ok_bind, cstr_append_nul (literalText_zero_not_mem hfloats _)]
        exact congrArg Except.ok (by simp [schemaLevelIndent, text])
      case isFalse => exact congrArg Except.ok (by simp [schemaLevelIndent, text])
  have hindexes : indexSerialize unwritten indexMeta (schemaLevelIndent ++ schemaLevelIndent)
      = .ok (indexMeta.flatMap savedIndex) := by
    rw [indexSerialize, mapM_eq_map (g := savedIndex)]
    · rw [List.flatMap_def]
      rfl
    · intro idx hidx
      have hparts : idx.parts.mapM (indexSerializePart unwritten)
          = .ok (idx.parts.map savedPart) := mapM_eq_map fun part hpart =>
        indexSerializePart_eq unwritten (h.partNames idx hidx part hpart).1
          (h.partNames idx hidx part hpart).2 (h.partLens idx hidx part hpart)
      rw [indexSerializeOne, h.types idx hidx, hparts]
      exact congrArg Except.ok (by simp [savedIndex, schemaLevelIndent, text])
  rw [schemaSaveTable, hcolumns, Checked.ok_bind]
  dsimp only
  rw [hindexes, Checked.ok_bind]
  exact congrArg Except.ok (by simp [savedText, schemaLevelIndent, text])

end Maxql
