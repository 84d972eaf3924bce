import Maxql.Codec
import Maxql.Convert

/-!
# Values as text

`src/types/formatter.c` and `src/types/presentation.c`.  A formatter gets the
array that it prints into, as long as the size that it is told.  What printf
makes of a `float` with `%.7g` is a parameter.

* `snprintf_fits`: a string that fits behind what is printed already;
* `formatLiteral_spec`: the literal of a value in an array of the size that
  `max_literal_size` gives.
-/

namespace Maxql

open Program Bytes

/-! ## Printing -/

/-- `printf("%.7g", f)` -/
abbrev FloatFormat := UInt32 → Text

/-- `snprintf(&buf[offset], size, "%s", s)`: the array after it, and the result. -/
def snprintf (buf : List UInt8) (offset size : Nat) (s : Text) : Checked (List UInt8 × Nat) := do
  if size = 0 then return (buf, s.length)
  let out := s.take (size - 1) ++ [0]
  let buf ← copySlots buf offset out 0 out.length
  return (buf, s.length)

def hexDigit (n : Nat) : UInt8 := UInt8.ofNat (if n < 10 then 48 + n else 87 + n)

/-- A byte printed with `%02x`. -/
def hexText (byte : UInt8) : Text := [hexDigit (byte.toNat / 16), hexDigit (byte.toNat % 16)]

/-! ## Formatters -/

namespace Formatter

def formatInt (value : DataValue) (buf : List UInt8) : Checked (List UInt8) :=
  match value with
  | .int n => do
    let (buf, _) ← snprintf buf 0 buf.length (Maxql.formatInt n.toInt)
    return buf
  | _ => .error .wrongMember

def formatString (value : DataValue) (buf : List UInt8) : Checked (List UInt8) :=
  match value with
  | .string s => do
    let (buf, _) ← snprintf buf 0 buf.length s.bytes
    return buf
  | _ => .error .wrongMember

/-- The loop of `format_binary`.  The size that is left wraps where the offset is past it. -/
def formatBytes : List UInt8 → (buf : List UInt8) → (offset : Nat) → Checked (List UInt8)
  | [], buf, _ => .ok buf
  | byte :: bytes, buf, offset =>
    if buf.length < offset then .error .badLength
    else do
      let (buf, n) ← snprintf buf offset (buf.length - offset) (hexText byte)
      formatBytes bytes buf (offset + n)

def formatBinary (value : DataValue) (buf : List UInt8) : Checked (List UInt8) :=
  match value with
  | .binary b => do
    let (buf, offset) ← snprintf buf 0 buf.length (text "0x")
    formatBytes b.bytes buf offset
  | _ => .error .wrongMember

def formatFloat (printFloat : FloatFormat) (value : DataValue) (buf : List UInt8) :
    Checked (List UInt8) :=
  match value with
  | .float bits => do
    let (buf, _) ← snprintf buf 0 buf.length (printFloat bits)
    return buf
  | _ => .error .wrongMember

def formatLiteralString (value : DataValue) (buf : List UInt8) : Checked (List UInt8) :=
  match value with
  | .string s => do
    let (buf, _) ← snprintf buf 0 buf.length (text "\"" ++ s.bytes ++ text "\"")
    return buf
  | _ => .error .wrongMember

end Formatter

/-! ## Presentations -/

structure ColumnPresentation where
  maxLiteralSize : Nat → Nat
  formatLiteral : DataValue → List UInt8 → Checked (List UInt8)

/-- `presentation_mapping`, with what a literal needs. -/
def typePresentation (printFloat : FloatFormat) : ColumnType → ColumnPresentation
  | .int => ⟨fun _ => 12, Formatter.formatInt⟩
  | .varchar => ⟨fun byteLen => byteLen + 3, Formatter.formatLiteralString⟩
  | .char => ⟨fun byteLen => byteLen + 3, Formatter.formatLiteralString⟩
  | .binary => ⟨fun byteLen => byteLen * 2 + 3, Formatter.formatBinary⟩
  | .float => ⟨fun _ => 15, Formatter.formatFloat printFloat⟩

/-! ## What is printed -/

theorem snprintf_fits (pre : List UInt8) {rest : List UInt8} {s : Text}
    (h : s.length < rest.length) :
    snprintf (pre ++ rest) pre.length rest.length s
      = .ok (pre ++ (s ++ 0 :: rest.drop (s.length + 1)), s.length) := by
  have hout : (s ++ [(0 : UInt8)]).length = s.length + 1 := by simp
  have hcopy : copySlots (pre ++ rest) pre.length (s ++ [0]) 0 (s ++ [(0 : UInt8)]).length
      = .ok (pre ++ (s ++ 0 :: rest.drop (s.length + 1))) := by
    rw [copySlots_of_le (by omega) (by rw [hout, List.length_append]; omega), List.drop_zero,
      List.take_left, List.take_of_length_le (Nat.le_refl _), hout, List.drop_append]
    simp
  rw [snprintf, if_neg (by omega)]
  dsimp only
  rw [List.take_of_length_le (by omega), hcopy]
  rfl

theorem snprintf_front {buf : List UInt8} {s : Text} (h : s.length < buf.length) :
    snprintf buf 0 buf.length s = .ok (s ++ 0 :: buf.drop (s.length + 1), s.length) :=
  snprintf_fits [] h

/-- The literal of a value. -/
def literalText (printFloat : FloatFormat) : DataValue → Text
  | .null => []
  | .int n => Maxql.formatInt n.toInt
  | .string s => text "\"" ++ s.bytes ++ text "\""
  | .binary b => text "0x" ++ b.bytes.flatMap hexText
  | .float bits => printFloat bits

theorem length_formatInt_lt (n : Int32) : (Maxql.formatInt n.toInt).length < 12 := by
  have hlow := n.le_toInt
  have hhigh := n.toInt_lt
  have hdigits : (Decimal.print n.toInt.natAbs).length ≤ 10 :=
    Decimal.length_print_le 9 (by omega)
  unfold Maxql.formatInt
  split
  · rw [List.length_append]
    show 1 + _ < 12
    omega
  · omega

theorem length_flatMap_hexText (bytes : List UInt8) :
    (bytes.flatMap hexText).length = 2 * bytes.length := by
  induction bytes with
  | nil => rfl
  | cons byte bytes ih =>
    rw [List.flatMap_cons, List.length_append, ih, List.length_cons]
    show 2 + _ = _
    omega

/-- The loop prints byte after byte over the NUL that is behind the text. -/
theorem formatBytes_spec (bytes pre rest : List UInt8)
    (hroom : 2 * bytes.length < rest.length) (hzero : rest.head? = some 0) :
    ∃ rest', Formatter.formatBytes bytes (pre ++ rest) pre.length
      = .ok (pre ++ (bytes.flatMap hexText ++ 0 :: rest')) := by
  induction bytes generalizing pre rest with
  | nil =>
    obtain ⟨rest', rfl⟩ : ∃ rest', rest = 0 :: rest' := by
      cases rest with
      | nil => cases hzero
      | cons c rest => exact ⟨rest, by rw [Option.some.inj hzero]⟩
    exact ⟨rest', rfl⟩
  | cons byte bytes ih =>
    have hlen : (hexText byte).length = 2 := rfl
    rw [List.length_cons] at hroom
    have hbyte : (hexText byte).length < rest.length := by omega
    have hstep := snprintf_fits pre hbyte
    obtain ⟨rest', hrest⟩ := ih (pre ++ hexText byte)
      (0 :: rest.drop ((hexText byte).length + 1)) (by simp [hlen]; omega) rfl
    refine ⟨rest', ?_⟩
    have hsize : (pre ++ rest).length - pre.length = rest.length := by simp
    rw [Formatter.formatBytes, if_neg (by simp), hsize, hstep]
    rw [List.length_append, List.append_assoc] at hrest
    show Formatter.formatBytes bytes _ (pre.length + (hexText byte).length) = _
    rw [hrest]
    simp

/-- A value that passes the check of its type is printed as a whole, whatever the array holds at
first. -/
theorem formatLiteral_spec {printFloat : FloatFormat}
    (hfloat : ∀ bits, (printFloat bits).length < 15) {rt : ResolvedType} {value : DataValue}
    (hvalid : resolvedTypeValidate rt value = .ok) (buf : List UInt8)
    (hbuf : buf.length = (typePresentation printFloat rt.columnType).maxLiteralSize rt.byteLen) :
    ∃ rest, (typePresentation printFloat rt.columnType).formatLiteral value buf
      = .ok (literalText printFloat value ++ 0 :: rest) := by
  have hfits := resolvedTypeValidate_eq_ok.1 hvalid
  obtain ⟨columnType, byteLen, name⟩ := rt
  have hone : ∀ s : Text, s.length < buf.length → ∃ rest,
      (do let (buf, _) ← snprintf buf 0 buf.length s; return buf : Checked (List UInt8))
        = .ok (s ++ 0 :: rest) := fun s hs => ⟨_, by rw [snprintf_front hs]; rfl⟩
  cases columnType <;> cases value <;> dsimp only at hfits <;> try exact hfits.elim
  case int.int n =>
    apply hone
    rw [hbuf]
    exact length_formatInt_lt n
  case varchar.string s =>
    apply hone
    rw [hbuf]
    show (text "\"" ++ s.bytes ++ text "\"").length < byteLen + 3
    simp [text]
    omega
  case char.string s =>
    apply hone
    rw [hbuf]
    show (text "\"" ++ s.bytes ++ text "\"").length < byteLen + 3
    simp [text]
    omega
  case binary.binary b =>
    have hbuf : buf.length = byteLen * 2 + 3 := hbuf
    have hmark : (text "0x").length = 2 := rfl
    obtain ⟨rest, hrest⟩ := formatBytes_spec b.bytes (text "0x") (0 :: buf.drop 3)
      (by simp; omega) rfl
    refine ⟨rest, ?_⟩
    show (snprintf buf 0 buf.length (text "0x") >>= fun r => Formatter.formatBytes b.bytes r.1 r.2)
      = _
    rw [snprintf_front (by omega), literalText, List.append_assoc]
    exact hrest
  case float.float bits =>
    apply hone
    rw [hbuf]
    exact hfloat bits

end Maxql
