import Maxql.Literal
import Maxql.Parser.Accepts
import Mathlib.Data.Nat.Digits.Lemmas

/-!
# What a literal denotes

`convert_value` against the value of the whole text of a literal.  A number
goes through a buffer of 16 bytes, a number with a dot through one of 32, and
what does not fit is cut off without an error.

* `convertInt_digits`, `hexBytes_digits`: what the conversions compute;
* `convertValue_whole_iff`: the literals whose whole text counts;
* `convertValue_cutsDigits`: a number that loses its last digit.
-/

namespace Maxql

open Program Bytes

/-! ## Values of texts -/

/-- The number of bytes, the highest first. -/
def bigEndian (bytes : List UInt8) : Nat := Nat.ofDigits 256 (bytes.reverse.map UInt8.toNat)

def hexDigitValue (c : UInt8) : Nat := (digitValue c).getD 0

/-- The number of hexadecimal digits, the highest first. -/
def hexValue (digits : Text) : Nat := Nat.ofDigits 16 (digits.reverse.map hexDigitValue)

/-- The values that may come out, and when one comes out. -/
structure Yields (result : Except ConvertResult DataValue) (accepted : Prop)
    (denoted : DataValue → Prop) : Prop where
  sound : ∀ v, result = .ok v → denoted v
  complete : (∃ v, result = .ok v) ↔ accepted

/-- A literal is refused, or gives the value of its whole text. -/
def ConvertsWhole (strtof : Strtof) (value : RawValue) : Prop :=
  match value.type with
  | .number =>
    if dot ∈ value.value then
      ∀ v, convertValue strtof value = .ok v → v = .float (strtof value.value).bits
    else
      Yields (convertValue strtof value) (Decimal.value value.value ≤ 2147483647)
        fun v => ∃ n : Int32, v = .int n ∧ n.toInt = Decimal.value value.value
  | .string =>
    Yields (convertValue strtof value) (value.value.length ≤ 255)
      fun v => ∃ s : VarcharValue, v = .string s ∧ s.bytes = value.value
  | .hex =>
    Yields (convertValue strtof value) (value.value.length ≤ 256)
      fun v => ∃ b : BinaryValue, v = .binary b ∧ b.bytes.length = (value.value.length + 1) / 2 ∧
        bigEndian b.bytes = hexValue value.value

def Strtof.Refuses (strtof : Strtof) (s : Text) : Prop :=
  (strtof s).outOfRange = true ∨ (strtof s).rest ≠ []

/-- The buffers take the text, or what they take of it decides in the same way. -/
def CutHarmless (strtof : Strtof) (value : RawValue) : Prop :=
  match value.type with
  | .number =>
    if dot ∈ value.value then
      value.value.length ≤ 31 ∨ strtof.Refuses (value.value.take 31) ∨
        (strtof (value.value.take 31)).bits = (strtof value.value).bits
    else
      value.value.length ≤ 15 ∨ 2147483647 < Decimal.value (value.value.take 15) ∨
        Decimal.value value.value = 0
  | .string => 0 ∉ value.value ∨ 255 < value.value.length
  | .hex => True

/-! ## Numbers -/

theorem not_mem_zero_of_number {s : Text} (h : ∀ c ∈ s, (isDigit c || isDot c) = true) :
    0 ∉ s := by
  intro hzero
  have hfalse := h 0 hzero
  cases hfalse

/-- A number that fits is its own copy. -/
theorem svToCstr_number {s : Text} (h : ∀ c ∈ s, (isDigit c || isDot c) = true) (n : Nat) :
    svToCstr s (n + 1) = s.take n :=
  svToCstr_eq_take (not_mem_zero_of_number h) n

theorem convertInt_digits {s : Text} (hne : s ≠ []) (h : ∀ c ∈ s, isDigit c = true) :
    convertInt s = if Decimal.value (s.take 15) ≤ 2147483647 then
      .ok (.int (Int32.ofInt (Decimal.value (s.take 15)))) else .error .outOfRange := by
  have hbuf : svToCstr s 16 = s.take 15 :=
    svToCstr_number (fun c hc => by rw [h c hc, Bool.true_or]) 15
  have hdigits : ∀ c ∈ s.take 15, isDigit c = true := fun c hc => h c (List.mem_of_mem_take hc)
  have htake : s.take 15 ≠ [] := by
    rw [ne_eq, List.take_eq_nil_iff, not_or]
    exact ⟨by decide, hne⟩
  rw [convertInt, hbuf, strtoBase_digits htake hdigits]
  dsimp only
  by_cases hmax : Decimal.value (s.take 15) ≤ 2147483647
  · rw [if_neg (by omega), if_neg (fun h => h rfl), if_pos hmax]
  · rw [if_pos (by omega), if_neg hmax]

/-- The digits that are cut off make the number greater, unless it is zero. -/
theorem value_take_le (s : Text) (n : Nat) :
    Decimal.value (s.take n) ≤ Decimal.value s ∧
      (n < s.length → Decimal.value (s.take n) = Decimal.value s → Decimal.value s = 0) := by
  have hsplit := Decimal.value_append (s.take n) (s.drop n)
  rw [List.take_append_drop] at hsplit
  have hpow : 1 ≤ 10 ^ (s.drop n).length := Nat.one_le_pow _ _ (by decide)
  refine ⟨?_, fun hlen heq => ?_⟩
  · calc Decimal.value (s.take n) = Decimal.value (s.take n) * 1 := (Nat.mul_one _).symm
      _ ≤ Decimal.value (s.take n) * 10 ^ (s.drop n).length := Nat.mul_le_mul_left _ hpow
      _ ≤ Decimal.value s := by omega
  · have hten : 10 ≤ 10 ^ (s.drop n).length := by
      have hpos : (s.drop n).length ≠ 0 := by
        rw [List.length_drop]
        omega
      exact Nat.le_self_pow hpos 10
    have hmul := Nat.mul_le_mul_left (Decimal.value (s.take n)) hten
    omega

theorem convertsWhole_int {s : Text} (hne : s ≠ [])
    (h : ∀ c ∈ s, isDigit c = true) :
    Yields (convertInt s) (Decimal.value s ≤ 2147483647)
        (fun v => ∃ n : Int32, v = .int n ∧ n.toInt = Decimal.value s) ↔
      s.length ≤ 15 ∨ 2147483647 < Decimal.value (s.take 15) ∨ Decimal.value s = 0 := by
  rw [convertInt_digits hne h]
  obtain ⟨hle, hcut⟩ := value_take_le s 15
  by_cases hmax : Decimal.value (s.take 15) ≤ 2147483647
  · rw [if_pos hmax]
    constructor
    · intro hyields
      obtain ⟨n, hn, hvalue⟩ := hyields.sound _ rfl
      cases hn
      rw [toInt_ofInt_of_le hmax] at hvalue
      by_cases hlen : s.length ≤ 15
      · exact .inl hlen
      · exact .inr (.inr (hcut (by omega) (by exact_mod_cast hvalue)))
    · intro hcond
      have heq : Decimal.value (s.take 15) = Decimal.value s := by
        obtain hlen | hbig | hzero := hcond
        · rw [List.take_of_length_le hlen]
        · omega
        · omega
      refine ⟨fun v hv => ?_, iff_of_true ⟨_, rfl⟩ (by omega)⟩
      cases hv
      refine ⟨_, rfl, ?_⟩
      rw [toInt_ofInt_of_le hmax, heq]
  · rw [if_neg hmax]
    refine iff_of_true ⟨fun v hv => (by cases hv), iff_of_false ?_ (by omega)⟩ (by omega)
    rintro ⟨v, hv⟩
    cases hv

theorem convertsWhole_float {strtof : Strtof} {s : Text}
    (h : ∀ c ∈ s, (isDigit c || isDot c) = true) :
    (∀ v, convertFloat strtof s = .ok v → v = .float (strtof s).bits) ↔
      s.length ≤ 31 ∨ strtof.Refuses (s.take 31) ∨
        (strtof (s.take 31)).bits = (strtof s).bits := by
  have hbuf : svToCstr s 32 = s.take 31 := svToCstr_number h 31
  rw [convertFloat, hbuf]
  by_cases hrefuses : strtof.Refuses (s.take 31)
  · refine iff_of_true (fun v hv => ?_) (.inr (.inl hrefuses))
    obtain hrange | hrest := hrefuses
    · rw [if_pos hrange] at hv
      cases hv
    · by_cases hrange : (strtof (s.take 31)).outOfRange = true
      · rw [if_pos hrange] at hv
        cases hv
      · rw [if_neg hrange, if_pos hrest] at hv
        cases hv
  · have htaken := hrefuses
    rw [Strtof.Refuses, not_or] at htaken
    rw [if_neg htaken.1, if_neg htaken.2]
    constructor
    · intro hall
      have heq := hall _ rfl
      exact .inr (.inr (DataValue.float.inj heq))
    · intro hcond v hv
      cases hv
      obtain hlen | hrefuses' | heq := hcond
      · rw [List.take_of_length_le hlen]
      · exact absurd hrefuses' hrefuses
      · rw [heq]

/-! ## Strings -/

theorem convertsWhole_string (s : Text) :
    Yields (convertString s) (s.length ≤ 255)
        (fun v => ∃ t : VarcharValue, v = .string t ∧ t.bytes = s) ↔
      0 ∉ s ∨ 255 < s.length := by
  have hmax : maxVarcharValueSize = 255 := rfl
  unfold convertString
  by_cases hlen : s.length > maxVarcharValueSize
  · rw [if_pos hlen]
    refine iff_of_true ⟨fun v hv => (by cases hv), iff_of_false ?_ (by omega)⟩ (.inr (by omega))
    rintro ⟨v, hv⟩
    cases hv
  · rw [if_neg hlen]
    constructor
    · intro hyields
      obtain ⟨t, ht, hbytes⟩ := hyields.sound _ rfl
      left
      rw [← hbytes]
      exact t.nonzero
    · intro hcond
      have hzero : 0 ∉ s := hcond.resolve_right (by omega)
      have hcopy : (VarcharValue.copy s).bytes = s := by
        show cstr (s.take maxVarcharValueSize) = s
        rw [List.take_of_length_le (by omega), cstr_of_zero_not_mem hzero]
      refine ⟨fun v hv => ?_, iff_of_true ⟨_, rfl⟩ (by omega)⟩
      cases hv
      exact ⟨_, rfl, hcopy⟩

/-! ## Hexadecimal digits -/

theorem isHexDigit_spec {c : UInt8} (h : isHexDigit c = true) :
    hexDigitValue c < 16 ∧ c = hexDigit (hexDigitValue c) := by
  have hall : ∀ i : Fin 256, isHexDigit (UInt8.ofNat i.val) = true →
      hexDigitValue (UInt8.ofNat i.val) < 16 ∧
        UInt8.ofNat i.val = hexDigit (hexDigitValue (UInt8.ofNat i.val)) := by decide +kernel
  have hc := hall ⟨c.toNat, c.toNat_lt⟩
  rw [UInt8.ofNat_toNat] at hc
  exact hc h

/-- Two digits make a byte. -/
theorem hexByte_digits {hi lo : UInt8} (hhi : isHexDigit hi = true) (hlo : isHexDigit lo = true) :
    ∃ byte, hexByte hi lo = .ok byte ∧
      byte.toNat = 16 * hexDigitValue hi + hexDigitValue lo := by
  obtain ⟨hhilt, hhieq⟩ := isHexDigit_spec hhi
  obtain ⟨hlolt, hloeq⟩ := isHexDigit_spec hlo
  have hbyte : (UInt8.ofNat (16 * hexDigitValue hi + hexDigitValue lo)).toNat
      = 16 * hexDigitValue hi + hexDigitValue lo := UInt8.toNat_ofNat_of_lt (by
    show _ < 256
    omega)
  have hread := hexByte_hexText (UInt8.ofNat (16 * hexDigitValue hi + hexDigitValue lo))
  have hdiv : (16 * hexDigitValue hi + hexDigitValue lo) / 16 = hexDigitValue hi := by omega
  have hmod : (16 * hexDigitValue hi + hexDigitValue lo) % 16 = hexDigitValue lo := by omega
  rw [hbyte, hdiv, hmod, ← hhieq, ← hloeq] at hread
  exact ⟨_, hread, hbyte⟩

theorem bigEndian_cons (b : UInt8) (bytes : List UInt8) :
    bigEndian (b :: bytes) = b.toNat * 256 ^ bytes.length + bigEndian bytes := by
  rw [bigEndian, List.reverse_cons, List.map_append, Nat.ofDigits_append, List.length_map,
    List.length_reverse, List.map_singleton, Nat.ofDigits_singleton, bigEndian]
  ring

theorem hexValue_cons (c : UInt8) (s : Text) :
    hexValue (c :: s) = hexDigitValue c * 16 ^ s.length + hexValue s := by
  rw [hexValue, List.reverse_cons, List.map_append, Nat.ofDigits_append, List.length_map,
    List.length_reverse, List.map_singleton, Nat.ofDigits_singleton, hexValue]
  ring

/-- Digits in pairs, one byte each. -/
theorem hexBytes_digits : ∀ {s : Text}, (∀ c ∈ s, isHexDigit c = true) → s.length % 2 = 0 →
    ∃ bytes, hexBytes s = .ok bytes ∧ s.length = 2 * bytes.length ∧ bigEndian bytes = hexValue s
  | [], _, _ => ⟨[], rfl, rfl, rfl⟩
  | [_], _, heven => absurd heven (by simp)
  | hi :: lo :: s, hall, heven => by
    obtain ⟨hhi, hall⟩ := List.forall_mem_cons.1 hall
    obtain ⟨hlo, hall⟩ := List.forall_mem_cons.1 hall
    have heven : s.length % 2 = 0 := by
      rw [List.length_cons, List.length_cons] at heven
      omega
    obtain ⟨byte, hbyte, hvalue⟩ := hexByte_digits hhi hlo
    obtain ⟨bytes, hbytes, hlen, hrest⟩ := hexBytes_digits hall heven
    refine ⟨byte :: bytes, ?_, ?_, ?_⟩
    · rw [hexBytes, hbyte, hbytes]
      rfl
    · rw [List.length_cons, List.length_cons, List.length_cons, hlen]
      ring
    · have hpow : (16 : Nat) ^ s.length = 256 ^ bytes.length := by
        rw [hlen, pow_mul]
        rfl
      rw [bigEndian_cons, hexValue_cons, hexValue_cons, hvalue, hrest, List.length_cons, pow_succ,
        hpow]
      ring

theorem convertsWhole_hex {s : Text} (h : ∀ c ∈ s, isHexDigit c = true) :
    Yields (convertHex s) (s.length ≤ 256) fun v => ∃ b : BinaryValue, v = .binary b ∧
      b.bytes.length = (s.length + 1) / 2 ∧ bigEndian b.bytes = hexValue s := by
  have hmax : maxBinaryValueSize = 128 := rfl
  unfold convertHex
  by_cases hlen : s.length > maxBinaryValueSize * 2
  · rw [if_pos hlen]
    refine ⟨fun v hv => (by cases hv), iff_of_false ?_ (by omega)⟩
    rintro ⟨v, hv⟩
    cases hv
  · rw [if_neg hlen]
    -- A zero in front of an odd number of digits does not change their value.
    have hfilled : ∃ t, (if s.length % 2 = 1 then 48 :: s else s) = t ∧
        (∀ c ∈ t, isHexDigit c = true) ∧ t.length % 2 = 0 ∧ t.length / 2 = (s.length + 1) / 2 ∧
        hexValue t = hexValue s := by
      by_cases hodd : s.length % 2 = 1
      · refine ⟨48 :: s, if_pos hodd, List.forall_mem_cons.2 ⟨rfl, h⟩, ?_, ?_, ?_⟩
        · rw [List.length_cons]
          omega
        · rw [List.length_cons]
        · rw [hexValue_cons, show hexDigitValue 48 = 0 from rfl, Nat.zero_mul, Nat.zero_add]
      · exact ⟨s, if_neg hodd, h, by omega, by omega, rfl⟩
    obtain ⟨t, ht, hall, heven, hhalf, hvalue⟩ := hfilled
    obtain ⟨bytes, hbytes, hcount, hnumber⟩ := hexBytes_digits hall heven
    have hfits : bytes.length ≤ maxBinaryValueSize := by omega
    rw [ht, hbytes]
    show Yields (if h : bytes.length ≤ maxBinaryValueSize then .ok (.binary ⟨bytes, h⟩)
      else .error .tooLong) _ _
    rw [dif_pos hfits]
    refine ⟨fun v hv => ?_, iff_of_true ⟨_, rfl⟩ (by omega)⟩
    cases hv
    exact ⟨_, rfl, show bytes.length = _ by omega, hnumber.trans hvalue⟩

/-! ## Literals -/

theorem genuine_of_mem {input : Text} {t : Token} (h : t ∈ lexerTokens input) : Genuine t := by
  induction input using lexerTokens.induct with
  | case1 input heof =>
    rw [lexerTokens_eof heof] at h
    cases h
  | case2 input heof ih =>
    rw [lexerTokens_cons heof] at h
    obtain rfl | h := List.mem_cons.1 h
    · exact lexerNext_genuine input
    · exact ih h

/-- A literal that the lexer hands out is spelled as one. -/
theorem RawValue.isValid_of_mem {value : RawValue} {input : Text}
    (h : value.token ∈ lexerTokens input) : value.token.isValid = true := by
  obtain ⟨type, s⟩ := value
  obtain heof | ⟨w, hw⟩ := genuine_of_mem h
  · cases type <;> cases heof
  · exact Token.isValid_of_spells hw (by cases type <;> exact TokenType.noConfusion)

/-- The whole text of a literal counts unless a buffer cuts off what matters. -/
theorem convertValue_whole_iff (strtof : Strtof) {value : RawValue}
    (hvalue : ∃ input, value.token ∈ lexerTokens input) :
    ConvertsWhole strtof value ↔ CutHarmless strtof value := by
  obtain ⟨input, hmem⟩ := hvalue
  have hvalid := RawValue.isValid_of_mem hmem
  obtain ⟨type, s⟩ := value
  cases type with
  | number =>
    have hnumber : isNumber s = true := hvalid
    have hne : s ≠ [] := by
      rintro rfl
      cases hnumber
    have hchars : ∀ c ∈ s, (isDigit c || isDot c) = true := by
      obtain ⟨c, cs, rfl⟩ := List.exists_cons_of_ne_nil hne
      exact (isNumber_cons hnumber).2.1
    have hconvert : convertValue strtof ⟨.number, s⟩ = convertNumber strtof s := rfl
    simp only [ConvertsWhole, CutHarmless, hconvert, convertNumber]
    by_cases hdot : dot ∈ s
    · simp only [if_pos hdot]
      exact convertsWhole_float hchars
    · simp only [if_neg hdot]
      refine convertsWhole_int hne fun c hc => ?_
      by_contra hdigit
      have hc' := hchars c hc
      rw [Bool.not_eq_true] at hdigit
      rw [hdigit, Bool.false_or, isDot, beq_iff_eq] at hc'
      exact hdot (by rw [show dot = c from hc'.symm]; exact hc)
  | string => exact convertsWhole_string s
  | hex =>
    have hhex : (s != [] && s.all isHexDigit) = true := hvalid
    rw [Bool.and_eq_true, List.all_eq_true] at hhex
    exact iff_of_true (convertsWhole_hex hhex.2) trivial

/-- A `strtof` that reads every text as zero. -/
def zeroStrtof : Strtof := fun _ => ⟨false, 0, []⟩

/-- A one with zeros in front of it. -/
def zerosOne : RawValue := ⟨.number, text "0000000000000001"⟩

theorem zerosOne_mem : ∃ input, zerosOne.token ∈ lexerTokens input := by
  refine ⟨zerosOne.value ++ [], ?_⟩
  rw [lexerTokens_number (by decide) (by simp)]
  exact List.mem_cons_self

theorem convertValue_whole_iff_zerosOne :
    ConvertsWhole zeroStrtof zerosOne ↔ CutHarmless zeroStrtof zerosOne :=
  convertValue_whole_iff zeroStrtof zerosOne_mem

theorem convertValue_cutsDigits : (∃ input, zerosOne.token ∈ lexerTokens input) ∧
    convertValue zeroStrtof zerosOne = .ok (.int 0) ∧ ¬ConvertsWhole zeroStrtof zerosOne := by
  have hconvert : convertValue zeroStrtof zerosOne = .ok (.int 0) := by decide
  refine ⟨zerosOne_mem, hconvert, fun hwhole => ?_⟩
  have hyields : Yields (convertValue zeroStrtof zerosOne) _ _ := hwhole
  obtain ⟨n, hn, hvalue⟩ := hyields.sound _ hconvert
  cases hn
  exact absurd hvalue (by decide)

end Maxql
