import Maxql.Parser.Grammar

/-!
# Words in front of a delimiter

A word is read as a whole where a blank, a parenthesis or a comma stands
behind it, or nothing.  Each lemma takes one token from the front of a text.
-/

namespace Maxql

open Program Bytes

def isDelimiter (c : UInt8) : Bool := c == 32 || c == 10 || c == 40 || c == 41 || c == 44

/-- The text is empty or starts with a delimiter. -/
def Delimited (rest : Text) : Prop := ∀ c ∈ rest.head?, isDelimiter c = true

theorem delimited_cons {c : UInt8} (hc : isDelimiter c = true) (rest : Text) :
    Delimited (c :: rest) := by
  intro d hd
  rwa [← Option.some.inj hd]

theorem isDelimiter_cases {c : UInt8} (h : isDelimiter c = true) :
    c = 32 ∨ c = 10 ∨ c = 40 ∨ c = 41 ∨ c = 44 := by
  simpa [isDelimiter, or_assoc] using h

/-- No word goes on with a delimiter. -/
theorem Delimited.head {rest : Text} (h : Delimited rest) {p : UInt8 → Bool}
    (hp : ∀ c, isDelimiter c = true → p c = false) : ∀ c ∈ rest.head?, ¬p c = true := by
  intro c hc
  rw [hp c (h c hc)]
  exact Bool.false_ne_true

theorem delimiter_char {c : UInt8} (h : isDelimiter c = true) :
    isIdent c = false ∧ (isDigit c || isDot c) = false ∧ isHexMark c = false ∧
      isHexDigit c = false := by
  obtain rfl | rfl | rfl | rfl | rfl := isDelimiter_cases h <;> decide

/-- The characters in front of what does not belong to them. -/
theorem span_append {p : UInt8 → Bool} {xs : Text} (rest : Text) (hall : ∀ x ∈ xs, p x = true)
    (hrest : ∀ c ∈ rest.head?, ¬p c = true) :
    (xs ++ rest).takeWhile p = xs ∧ (xs ++ rest).dropWhile p = rest := by
  rw [List.takeWhile_append_of_pos hall, List.dropWhile_append_of_pos hall]
  cases rest with
  | nil => simp
  | cons c rest =>
    have hc := hrest c rfl
    rw [List.takeWhile_cons_of_neg hc, List.dropWhile_cons_of_neg hc, List.append_nil]
    exact ⟨rfl, rfl⟩

theorem lexerTokens_of_next {input rest : Text} {t : Token} (h : lexerNext input = (t, rest))
    (ht : t.type ≠ .eof) : lexerTokens input = t :: lexerTokens rest := by
  rw [lexerTokens_cons (by rwa [h]), h]

theorem lexerTokens_blank {c : UInt8} (hc : isWhitespace c = true) (rest : Text) :
    lexerTokens (c :: rest) = lexerTokens rest := by
  have hskip : lexerSkipWhitespace (c :: rest) = lexerSkipWhitespace rest :=
    List.dropWhile_cons_of_pos hc
  have hnext : lexerNext (c :: rest) = lexerNext rest := by
    rw [lexerNext_skip, hskip, ← lexerNext_skip]
  by_cases heof : (lexerNext rest).1.type = .eof
  · rw [lexerTokens_eof heof, lexerTokens_eof (by rwa [hnext])]
  · rw [lexerTokens_cons heof, lexerTokens_cons (by rwa [hnext]), hnext]

theorem lexerTokens_space (rest : Text) : lexerTokens (32 :: rest) = lexerTokens rest :=
  lexerTokens_blank rfl rest

theorem lexerTokens_newline (rest : Text) : lexerTokens (10 :: rest) = lexerTokens rest :=
  lexerTokens_blank rfl rest

theorem lexerTokens_lparen (rest : Text) :
    lexerTokens (40 :: rest) = lparen :: lexerTokens rest :=
  lexerTokens_of_next rfl TokenType.noConfusion

theorem lexerTokens_rparen (rest : Text) :
    lexerTokens (41 :: rest) = rparen :: lexerTokens rest :=
  lexerTokens_of_next rfl TokenType.noConfusion

theorem lexerTokens_comma (rest : Text) :
    lexerTokens (44 :: rest) = comma :: lexerTokens rest :=
  lexerTokens_of_next rfl TokenType.noConfusion

/-- A sign is no token. -/
theorem lexerTokens_sign {c : UInt8} (hc : c = 43 ∨ c = 45) (rest : Text) :
    lexerTokens (c :: rest) = ⟨.invalid, [c]⟩ :: lexerTokens rest := by
  obtain rfl | rfl := hc <;> exact lexerTokens_of_next rfl TokenType.noConfusion

/-- A name in front of a character that no name has. -/
theorem lexerTokens_ident {name rest : Text} (h : isIdentifier name = true)
    (hrest : ∀ c ∈ rest.head?, ¬isIdent c = true) :
    lexerTokens (name ++ rest) = identToken name :: lexerTokens rest := by
  rw [isIdentifier, Bool.and_eq_true, List.all_eq_true] at h
  obtain ⟨hstart, hall⟩ := h
  cases name with
  | nil => cases hstart
  | cons c cs =>
    have hstart : isIdentStart c = true := hstart
    have hwhite := (identStart_char hstart).2.2.1
    obtain ⟨htake, hdrop⟩ := span_append rest hall hrest
    refine lexerTokens_of_next ?_ TokenType.noConfusion
    have hskip : lexerSkipWhitespace (c :: (cs ++ rest)) = c :: (cs ++ rest) :=
      List.dropWhile_cons_of_neg (by rw [hwhite]; exact Bool.false_ne_true)
    rw [List.cons_append, lexerNext, hskip]
    dsimp only
    rw [if_pos hstart, lexerReadIdent, ← List.cons_append, htake, hdrop]
    rfl

theorem numberChars_eq (hasDot : Bool) {xs : Text} (rest : Text)
    (hall : ∀ x ∈ xs, (isDigit x || isDot x) = true)
    (hcount : xs.countP isDot + hasDot.toNat ≤ 1)
    (hrest : ∀ c ∈ rest.head?, ¬(isDigit c || isDot c) = true) :
    numberChars hasDot (xs ++ rest) = (xs, rest) := by
  induction xs generalizing hasDot with
  | nil =>
    cases rest with
    | nil => rfl
    | cons c rest =>
      have hc := hrest c rfl
      have hdot : ¬(isDot c && hasDot) = true := fun h => hc (by simp_all)
      rw [List.nil_append, numberChars, if_neg hdot, if_neg hc]
  | cons x xs ih =>
    obtain ⟨hx, hall⟩ := List.forall_mem_cons.1 hall
    rw [List.countP_cons] at hcount
    have hdot : ¬(isDot x && hasDot) = true := by
      cases hasDot <;> cases hd : isDot x <;> simp_all
    have hstep := ih (hasDot || isDot x) hall (by
      cases hasDot <;> cases hd : isDot x <;> simp_all)
    rw [List.cons_append, numberChars, if_neg hdot, if_pos hx, hstep]

theorem isNumber_cons {c : UInt8} {cs : Text} (h : isNumber (c :: cs) = true) :
    isDigit c = true ∧ (∀ x ∈ c :: cs, (isDigit x || isDot x) = true) ∧
      (c :: cs).countP isDot ≤ 1 := by
  simp only [isNumber, Bool.and_eq_true, List.all_eq_true, decide_eq_true_eq] at h
  exact ⟨h.1.1, h.1.2, h.2⟩

/-- A number in front of what neither goes on with it nor makes it hexadecimal. -/
theorem lexerTokens_number {value rest : Text} (h : isNumber value = true)
    (hrest : ∀ c ∈ rest.head?, ¬(isDigit c || isDot c) = true ∧ isHexMark c = false) :
    lexerTokens (value ++ rest) = numberToken value :: lexerTokens rest := by
  cases value with
  | nil => cases h
  | cons c cs =>
    obtain ⟨hdigit, hall, hcount⟩ := isNumber_cons h
    obtain ⟨hident, -, hwhite, -⟩ := digit_char hdigit
    have hmark : isHexMark (nextChar (c :: (cs ++ rest))) = false := by
      show isHexMark ((cs ++ rest).headD 0) = false
      cases cs with
      | nil =>
        cases hr : rest with
        | nil => rfl
        | cons d rest => exact (hrest d (by rw [hr]; rfl)).2
      | cons d cs =>
        have hd := hall d (by simp)
        show (d == 120) = false
        rw [beq_eq_false_iff_ne]
        rintro rfl
        cases hd
    refine lexerTokens_of_next ?_ TokenType.noConfusion
    have hskip : lexerSkipWhitespace (c :: (cs ++ rest)) = c :: (cs ++ rest) :=
      List.dropWhile_cons_of_neg (by rw [hwhite]; exact Bool.false_ne_true)
    have hchars := numberChars_eq false rest hall (by simpa using hcount)
      fun c hc => (hrest c hc).1
    rw [List.cons_append, lexerNext, hskip]
    dsimp only
    rw [if_neg (by rw [hident]; exact Bool.false_ne_true), if_pos hdigit,
      if_neg (by rw [hmark]; exact Bool.false_ne_true), lexerReadNumber, ← List.cons_append, hchars]
    rfl

theorem lexerTokens_hex {ds rest : Text} (hne : ds ≠ []) (hall : ∀ x ∈ ds, isHexDigit x = true)
    (hrest : ∀ c ∈ rest.head?, ¬isHexDigit c = true) :
    lexerTokens (48 :: 120 :: (ds ++ rest)) = ⟨.hex, ds⟩ :: lexerTokens rest := by
  obtain ⟨htake, hdrop⟩ := span_append rest hall hrest
  refine lexerTokens_of_next ?_ TokenType.noConfusion
  have hread : lexerNext (48 :: 120 :: (ds ++ rest)) = lexerReadHex (48 :: 120 :: (ds ++ rest)) :=
    rfl
  rw [hread, lexerReadHex, List.drop_succ_cons, List.drop_succ_cons, List.drop_zero, htake, hdrop,
    if_neg hne]

theorem lexerTokens_string {cs : Text} (hcs : quote ∉ cs) (rest : Text) :
    lexerTokens (quote :: (cs ++ quote :: rest)) = ⟨.string, cs⟩ :: lexerTokens rest := by
  have hall : ∀ x ∈ cs, (!isQuote x) = true := by
    intro x hx
    rw [Bool.not_eq_true', isQuote, beq_eq_false_iff_ne]
    rintro rfl
    exact hcs hx
  obtain ⟨htake, hdrop⟩ := span_append (p := fun c => !isQuote c) (quote :: rest) hall
    (by intro c hc; obtain rfl : quote = c := Option.some.inj hc; decide)
  refine lexerTokens_of_next ?_ TokenType.noConfusion
  have hread : lexerNext (quote :: (cs ++ quote :: rest))
      = lexerReadString (quote :: (cs ++ quote :: rest)) := rfl
  rw [hread, lexerReadString, List.tail_cons, htake, hdrop]

section Delimited

variable {rest : Text} (hrest : Delimited rest)
include hrest

theorem Delimited.ident {name : Text} (h : isIdentifier name = true) :
    lexerTokens (name ++ rest) = identToken name :: lexerTokens rest :=
  lexerTokens_ident h (hrest.head fun _ hc => (delimiter_char hc).1)

theorem Delimited.number {value : Text} (h : isNumber value = true) :
    lexerTokens (value ++ rest) = numberToken value :: lexerTokens rest := by
  apply lexerTokens_number h
  intro c hc
  obtain ⟨-, hdigit, hmark, -⟩ := delimiter_char (hrest c hc)
  exact ⟨by rw [hdigit]; exact Bool.false_ne_true, hmark⟩

theorem Delimited.hex {ds : Text} (hne : ds ≠ []) (hall : ∀ x ∈ ds, isHexDigit x = true) :
    lexerTokens (48 :: 120 :: (ds ++ rest)) = ⟨.hex, ds⟩ :: lexerTokens rest :=
  lexerTokens_hex hne hall (hrest.head fun _ hc => (delimiter_char hc).2.2.2)

end Delimited

end Maxql
