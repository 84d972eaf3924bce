import Maxql.Parser.Delimited
import Maxql.Schema.Save

/-!
# Literals that are printed and read again

The literal of a value as the lexer reads it and as `convert_value` converts
it.  A `float` comes back where `%.7g` prints a number with a dot and `strtof`
gives the same bits for it.

* `lexerTokens_literal`, `brokenLiteral_of_float`: the tokens of a literal;
* `convertValue_written`: the values that literals denote;
* `convertValue_literal`: a value that is printed comes back.
-/

namespace Maxql

open Program Bytes

/-! ## Decimal numbers -/

theorem isDigit_iff {c : UInt8} : isDigit c = true ↔ 48 ≤ c.toNat ∧ c.toNat ≤ 57 := by
  simp [isDigit, UInt8.le_iff_toNat_le]

theorem digitValue_of_isDigit {c : UInt8} (h : isDigit c = true) :
    digitValue c = some (c.toNat - 48) := by
  unfold digitValue
  exact if_pos h

theorem readDigits_digits {bs : Text} (h : ∀ b ∈ bs, isDigit b = true) (acc : Nat) :
    readDigits 10 bs acc = (Decimal.valueFrom acc bs, []) := by
  induction bs generalizing acc with
  | nil => rfl
  | cons b bs ih =>
    obtain ⟨hb, hbs⟩ := List.forall_mem_cons.1 h
    have hlt : b.toNat - 48 < 10 := by
      have hrange := isDigit_iff.1 hb
      omega
    unfold readDigits
    rw [digitValue_of_isDigit hb]
    simp only [if_pos hlt]
    exact ih hbs _

/-- A digit is neither a space nor a sign. -/
theorem digit_front {c : UInt8} (h : isDigit c = true) : isSpace c = false ∧ c ≠ 45 ∧ c ≠ 43 := by
  refine ⟨?_, ?_, ?_⟩
  · by_contra hspace
    have hrange := isDigit_iff.1 h
    simp [isSpace, UInt8.le_iff_toNat_le, ← UInt8.toNat_inj] at hspace
    omega
  · rintro rfl
    cases h
  · rintro rfl
    cases h

theorem skipHexMark_ten (s : Text) : skipHexMark 10 s = s := by
  unfold skipHexMark
  split
  · exact if_neg (by simp)
  · rfl

theorem strtoBase_digits {bs : Text} (hne : bs ≠ []) (h : ∀ b ∈ bs, isDigit b = true) :
    strtoBase 10 bs = ((Decimal.value bs : Int), []) := by
  cases bs with
  | nil => exact absurd rfl hne
  | cons b bs =>
    have hb := h b List.mem_cons_self
    obtain ⟨hspace, hminus, hplus⟩ := digit_front hb
    have hdrop : (b :: bs).dropWhile isSpace = b :: bs :=
      List.dropWhile_cons_of_neg (by rw [hspace]; exact Bool.false_ne_true)
    have hsign : readSign (b :: bs) = (false, b :: bs) := by
      unfold readSign
      split
      · next heq => exact absurd (List.cons.inj heq).1 hminus
      · next heq => exact absurd (List.cons.inj heq).1 hplus
      · rfl
    have hdigit : isDigitIn 10 ((b :: bs).headD 0) = true := by
      have hrange := isDigit_iff.1 hb
      simp only [List.headD_cons, isDigitIn, digitValue_of_isDigit hb, decide_eq_true_eq]
      omega
    rw [strtoBase, hdrop, hsign]
    dsimp only
    rw [skipHexMark_ten, if_pos hdigit, readDigits_digits h]
    rfl

theorem isDigit_print {n : Nat} : ∀ b ∈ Decimal.print n, isDigit b = true :=
  fun _ hb => Decimal.isDigit_of_mem_print hb

theorem convertInt_print {n : Nat} (h : n ≤ 2147483647) :
    convertInt (Decimal.print n) = .ok (.int (Int32.ofInt n)) := by
  have hlen : (Decimal.print n).length ≤ 10 := Decimal.length_print_le 9 (by omega)
  have hcopy : svToCstr (Decimal.print n) 16 = Decimal.print n := by
    rw [svToCstr, List.take_of_length_le (by omega), cstr_of_zero_not_mem decimalDigit_ne_zero]
  have hstrto := strtoBase_digits (Decimal.print_ne_nil n) isDigit_print
  rw [Decimal.value_print] at hstrto
  rw [convertInt, hcopy, hstrto]
  dsimp only
  rw [if_neg (by omega), if_neg (fun h => h rfl)]

theorem toInt_ofInt_of_le {n : Nat} (h : n ≤ 2147483647) : (Int32.ofInt n).toInt = n :=
  Int32.toInt_ofInt_of_le (by omega) (by omega)

/-- A number without a sign is not negative. -/
theorem convertInt_nonneg {s : Text} (hs : isNumber s = true) {value : DataValue}
    (h : convertInt s = .ok value) : ∃ n : Int32, value = .int n ∧ 0 ≤ n.toInt := by
  obtain ⟨c, cs, rfl⟩ : ∃ c cs, s = c :: cs := by
    cases s with
    | nil => cases hs
    | cons c cs => exact ⟨c, cs, rfl⟩
  obtain ⟨hdigit, -, -⟩ := isNumber_cons hs
  obtain ⟨hspace, hminus, hplus⟩ := digit_front hdigit
  have hzero : c ≠ 0 := by
    rintro rfl
    cases hdigit
  have hbuf : svToCstr (c :: cs) 16 = c :: cstr (cs.take 14) := by
    rw [svToCstr, show (16 : Nat) - 1 = 14 + 1 from rfl, List.take_succ_cons, cstr,
      List.takeWhile_cons_of_pos (by simpa using hzero)]
    rfl
  have hdrop : (c :: cstr (cs.take 14)).dropWhile isSpace = c :: cstr (cs.take 14) :=
    List.dropWhile_cons_of_neg (by rw [hspace]; exact Bool.false_ne_true)
  have hsign : (readSign (c :: cstr (cs.take 14))).1 = false := by
    unfold readSign
    split
    · next heq => exact absurd (List.cons.inj heq).1 hminus
    · rfl
    · rfl
  have hnonneg : 0 ≤ (strtoBase 10 (c :: cstr (cs.take 14))).1 := by
    unfold strtoBase
    rw [hdrop]
    dsimp only
    split
    · rw [hsign]
      exact Int.natCast_nonneg _
    · exact Int.le_refl 0
  rw [convertInt, hbuf] at h
  dsimp only at h
  split at h
  · cases h
  · next hrange =>
    split at h
    · cases h
    · cases h
      refine ⟨_, rfl, ?_⟩
      rw [Int32.toInt_ofInt_of_le (by omega) (by omega)]
      exact hnonneg

/-! ## Hexadecimal numbers -/

theorem hexByte_hexText (byte : UInt8) :
    hexByte (hexDigit (byte.toNat / 16)) (hexDigit (byte.toNat % 16)) = .ok byte := by
  have hall : ∀ i : Fin 256, hexByte (hexDigit (i.val / 16)) (hexDigit (i.val % 16))
      = .ok (UInt8.ofNat i.val) := by decide +kernel
  have hbyte := hall ⟨byte.toNat, byte.toNat_lt⟩
  rwa [UInt8.ofNat_toNat] at hbyte

theorem hexBytes_hexText (bytes : List UInt8) : hexBytes (bytes.flatMap hexText) = .ok bytes := by
  induction bytes with
  | nil => rfl
  | cons byte bytes ih =>
    show hexBytes (hexDigit (byte.toNat / 16) :: hexDigit (byte.toNat % 16)
      :: bytes.flatMap hexText) = _
    rw [hexBytes, hexByte_hexText, ih]
    rfl

theorem convertHex_hexText (b : BinaryValue) :
    convertHex (b.bytes.flatMap hexText) = .ok (.binary b) := by
  have hlen := length_flatMap_hexText b.bytes
  have hfits := b.fits
  rw [convertHex, if_neg (by omega), if_neg (by omega), hexBytes_hexText]
  exact dif_pos hfits

theorem isHexDigit_hexText (byte : UInt8) : ∀ c ∈ hexText byte, isHexDigit c = true := by
  have hdigit : ∀ n < 16, isHexDigit (hexDigit n) = true := by decide
  have hbyte := byte.toNat_lt
  intro c hc
  simp only [hexText, List.mem_cons, List.not_mem_nil, or_false] at hc
  obtain rfl | rfl := hc <;> exact hdigit _ (by omega)

theorem hexBytes_ne_nil {s : Text} {bytes : List UInt8} (hs : 2 ≤ s.length)
    (h : hexBytes s = .ok bytes) : bytes ≠ [] := by
  match s, hs with
  | hi :: lo :: s, _ =>
    obtain ⟨byte, -, h⟩ := bind_eq_ok.1 h
    obtain ⟨bytes, -, h⟩ := bind_eq_ok.1 h
    cases h
    exact List.cons_ne_nil _ _

/-! ## Values that literals denote -/

/-- A value that some literal denotes. -/
def Denoted : DataValue → Prop
  | .null => False
  | .int n => 0 ≤ n.toInt
  | .string s => quote ∉ s.bytes
  | .binary b => b.bytes ≠ []
  | .float _ => True

theorem convertValue_denoted {strtof : Strtof} {value : RawValue} {v : DataValue}
    (hvalid : value.token.isValid = true) (h : convertValue strtof value = .ok v) : Denoted v := by
  obtain ⟨type, s⟩ := value
  cases type with
  | number =>
    have h : convertNumber strtof s = .ok v := h
    unfold convertNumber at h
    split at h
    · unfold convertFloat at h
      dsimp only at h
      split at h
      · cases h
      · split at h
        · cases h
        · cases h
          trivial
    · obtain ⟨n, rfl, hn⟩ := convertInt_nonneg hvalid h
      exact hn
  | string =>
    have h : convertString s = .ok v := h
    have hs : ∀ c ∈ s, (!isQuote c) = true := by
      simpa [RawValue.token, LiteralType.tokenType, Token.isValid] using hvalid
    unfold convertString at h
    split at h
    · cases h
    · cases h
      intro hquote
      have hmem : quote ∈ s :=
        List.mem_of_mem_take ((List.takeWhile_sublist _).subset hquote)
      have hfalse := hs quote hmem
      cases hfalse
  | hex =>
    have h : convertHex s = .ok v := h
    have hne : s ≠ [] := by
      have hs : (s != [] && s.all isHexDigit) = true := hvalid
      rw [Bool.and_eq_true, bne_iff_ne] at hs
      exact hs.1
    have hlen : 1 ≤ s.length := List.length_pos_iff.2 hne
    unfold convertHex at h
    split at h
    · cases h
    · obtain ⟨bytes, hbytes, h⟩ := bind_eq_ok.1 h
      split at h
      · cases h
        apply hexBytes_ne_nil _ hbytes
        split
        · simp
          omega
        · omega
      · cases h

/-! ## The literal of a value -/

/-- The literal as the parser hands it over. -/
def literalValue (printFloat : FloatFormat) : DataValue → RawValue
  | .null => noValue
  | .int n => ⟨.number, formatInt n.toInt⟩
  | .string s => ⟨.string, s.bytes⟩
  | .binary b => ⟨.hex, b.bytes.flatMap hexText⟩
  | .float bits => ⟨.number, printFloat bits⟩

/-- A `float` is printed as one number. -/
def PlainFloat (printFloat : FloatFormat) (v : DataValue) : Prop :=
  ∀ bits, v = .float bits → isNumber (printFloat bits) = true

theorem formatInt_of_nonneg {n : Int32} (h : 0 ≤ n.toInt) :
    formatInt n.toInt = Decimal.print n.toInt.natAbs := if_neg (by omega)

theorem isNumber_print (n : Nat) : isNumber (Decimal.print n) = true := by
  have hall := isDigit_print (n := n)
  have hne := Decimal.print_ne_nil n
  generalize Decimal.print n = s at hall hne
  cases s with
  | nil => exact absurd rfl hne
  | cons c cs =>
    have hcount : (c :: cs).countP isDot = 0 := List.countP_eq_zero.2 fun x hx => by
      rw [isDot_of_digit (hall x hx)]
      exact Bool.false_ne_true
    simp only [isNumber, Bool.and_eq_true, List.all_eq_true, decide_eq_true_eq]
    refine ⟨⟨hall c List.mem_cons_self, fun x hx => ?_⟩, by omega⟩
    rw [hall x hx, Bool.true_or]

/-- A literal is one token. -/
theorem lexerTokens_literal {printFloat : FloatFormat} {v : DataValue} (hv : Denoted v)
    (hplain : PlainFloat printFloat v) {rest : Text} (hrest : Delimited rest) :
    lexerTokens (literalText printFloat v ++ rest)
      = (literalValue printFloat v).token :: lexerTokens rest := by
  cases v with
  | null => exact hv.elim
  | int n =>
    have hv : 0 ≤ n.toInt := hv
    rw [literalText, literalValue, formatInt_of_nonneg hv]
    exact hrest.number (isNumber_print _)
  | string s =>
    have hv : quote ∉ s.bytes := hv
    have htokens := lexerTokens_string hv rest
    rw [literalText, List.append_assoc, List.append_assoc]
    exact htokens
  | binary b =>
    have hne : b.bytes.flatMap hexText ≠ [] := by
      have hv : b.bytes ≠ [] := hv
      have hlen := length_flatMap_hexText b.bytes
      have hpos := List.length_pos_iff.2 hv
      exact List.length_pos_iff.1 (by omega)
    rw [literalText, List.append_assoc]
    exact hrest.hex hne fun c hc => by
      obtain ⟨byte, -, hc⟩ := List.mem_flatMap.1 hc
      exact isHexDigit_hexText byte c hc
  | float bits => exact hrest.number (hplain bits rfl)

/-- Tokens that do not start with a literal, or with a number that the name of an exponent and no
token follow. -/
inductive BrokenLiteral : List Token → Prop where
  | noLiteral {t ts} (ht : ∀ type : LiteralType, t.type ≠ type.tokenType) :
      BrokenLiteral (t :: ts)
  | exponent {m e t ts} (ht : t.type = .invalid) :
      BrokenLiteral (numberToken m :: identToken e :: t :: ts)

theorem brokenLiteral_of_float {s : Text} (hform : FloatForm s) (hnumber : ¬isNumber s = true)
    {rest : Text} (hrest : Delimited rest) : BrokenLiteral (lexerTokens (s ++ rest)) := by
  have hname : ∀ name, isIdentifier name = true → BrokenLiteral (lexerTokens (name ++ rest)) := by
    intro name h
    rw [hrest.ident h]
    exact .noLiteral fun type => by cases type <;> exact TokenType.noConfusion
  cases hform with
  | plain h => exact absurd h hnumber
  | negative h =>
    rw [List.cons_append, lexerTokens_sign (.inr rfl)]
    exact .noLiteral fun type => by cases type <;> exact TokenType.noConfusion
  | inf => exact hname _ (by decide)
  | nan => exact hname _ (by decide)
  | @exponent m sign ds hm hsign hds =>
    have hident : isIdent sign = false := by obtain rfl | rfl := hsign <;> rfl
    have htokens : lexerTokens (m ++ ([101] ++ sign :: (ds ++ rest)))
        = numberToken m :: identToken [101] :: ⟨.invalid, [sign]⟩ :: lexerTokens (ds ++ rest) := by
      rw [lexerTokens_number hm, lexerTokens_ident (by decide), lexerTokens_sign hsign]
      · intro c hc
        obtain rfl : sign = c := Option.some.inj hc
        rw [hident]
        exact Bool.false_ne_true
      · intro c hc
        obtain rfl : 101 = c := Option.some.inj hc
        decide
    rw [List.append_assoc]
    show BrokenLiteral (lexerTokens (m ++ ([101] ++ sign :: (ds ++ rest))))
    rw [htokens]
    exact .exponent rfl

/-! ## Reading back -/

/-- A value that is printed comes back; a `float` where it is given back. -/
theorem convertValue_literal {strtof : Strtof} {printFloat : FloatFormat} {v : DataValue}
    (hv : Denoted v)
    (hfloat : ∀ bits, v = .float bits →
      convertNumber strtof (printFloat bits) = .ok (.float bits)) :
    convertValue strtof (literalValue printFloat v) = .ok v := by
  cases v with
  | null => exact hv.elim
  | int n =>
    have hv : 0 ≤ n.toInt := hv
    have hlt := n.toInt_lt
    have hdot : dot ∉ Decimal.print n.toInt.natAbs := fun h => by
      have hfalse := isDigit_print _ h
      cases hfalse
    show convertNumber strtof (formatInt n.toInt) = _
    rw [formatInt_of_nonneg hv, convertNumber, if_neg hdot, convertInt_print (by omega)]
    have heq : Int32.ofInt (n.toInt.natAbs : Int) = n := by
      rw [Int.natAbs_of_nonneg hv, Int32.ofInt_toInt]
    rw [heq]
  | string s =>
    show convertString s.bytes = _
    rw [convertString, if_neg (Nat.not_lt.2 s.fits), VarcharValue.copy_bytes]
  | binary b => exact convertHex_hexText b
  | float bits => exact hfloat bits rfl

end Maxql
