import Maxql.Lib.Lexicon
import Maxql.Parser.Lexer

/-!
# What the lexer reads

The words of the language and the token that each of them spells, invalid
tokens included, and that `lexer_next` takes the longest word.

* `Spells`: the words;
* `lexerNext_takes`: the longest word behind the whitespace;
* `lexerTokens`: the tokens of an input, `scans_iff`: the only list of tokens
  that longest match gives;
* `scans_of_spaced`: tokens written with whitespace between them.
-/

namespace Maxql

open Program Bytes

/-! ## Words -/

/-- The spelling of a token that has only one. -/
def symbolText : TokenType → Text
  | .lparen => text "("
  | .rparen => text ")"
  | .comma => text ","
  | .star => text "*"
  | .semicolon => text ";"
  | .equals => text "="
  | .notEquals => text "!="
  | .less => text "<"
  | .greater => text ">"
  | .lessOrEqual => text "<="
  | .greatOrEqual => text ">="
  | _ => []

def symbolToken (type : TokenType) : Token := ⟨type, symbolText type⟩

/-- A character that starts no word but its own, which is none. -/
def isStray (c : UInt8) : Bool :=
  !isWhitespace c && !isIdentStart c && !isDigit c && !isQuote c
    && !(text "()<>,*;=").contains c

inductive Spells : Token → Text → Prop where
  | ident {c cs} (hc : isIdentStart c = true) (hcs : ∀ x ∈ cs, isIdent x = true) :
      Spells ⟨.ident, c :: cs⟩ (c :: cs)
  | number {c cs} (hc : isDigit c = true) (hcs : ∀ x ∈ cs, (isDigit x || isDot x) = true)
      (hdot : cs.countP isDot ≤ 1) : Spells ⟨.number, c :: cs⟩ (c :: cs)
  | hex {c ds} (hc : isDigit c = true) (hds : ∀ x ∈ ds, isHexDigit x = true) (hne : ds ≠ []) :
      Spells ⟨.hex, ds⟩ (c :: 120 :: ds)
  | string {cs} (hcs : quote ∉ cs) : Spells ⟨.string, cs⟩ (quote :: (cs ++ [quote]))
  | symbol {type} (htype : symbolText type ≠ []) : Spells (symbolToken type) (symbolText type)
  /-- A hexadecimal number without digits. -/
  | noDigits {c} (hc : isDigit c = true) : Spells ⟨.invalid, []⟩ [c, 120]
  /-- A string that is not closed. -/
  | openString {cs} (hcs : quote ∉ cs) : Spells ⟨.invalid, cs⟩ (quote :: cs)
  | stray {c} (hc : isStray c = true) : Spells ⟨.invalid, [c]⟩ [c]

/-! ## What the first character tells -/

theorem symbolText_head {type : TokenType} {c : UInt8} {cs : Text}
    (h : symbolText type = c :: cs) : c ∈ text "()<>,*;=!" := by
  cases type <;> simp [symbolText, text] at h ⊢ <;> simp [← h.1]

theorem symbol_char {c : UInt8} (h : c ∈ text "()<>,*;=!") :
    isIdentStart c = false ∧ isDigit c = false ∧ isQuote c = false ∧ isWhitespace c = false := by
  have hall : (text "()<>,*;=!").all (fun c => !isIdentStart c && !isDigit c && !isQuote c &&
      !isWhitespace c) = true := by decide
  have hc := List.all_eq_true.1 hall c h
  simpa [and_assoc] using hc

theorem isDigit_of_identStart {c : UInt8} (h : isIdentStart c = true) : isDigit c = false := by
  simp [isIdentStart, isLower, isUpper, isDigit, UInt8.le_iff_toNat_le] at h ⊢
  omega

theorem isWhitespace_cases {c : UInt8} (h : isWhitespace c = true) :
    c = 32 ∨ c = 9 ∨ c = 10 ∨ c = 13 := by
  simpa [isWhitespace, or_assoc] using h

theorem isIdent_of_identStart {c : UInt8} (h : isIdentStart c = true) : isIdent c = true := by
  simp only [isIdentStart, Bool.or_eq_true] at h
  simp [isIdent, h]

/-- A blank stands in no word but a string. -/
theorem whitespace_char {c : UInt8} (h : isWhitespace c = true) :
    isIdentStart c = false ∧ isIdent c = false ∧ isDigit c = false ∧ isDot c = false ∧
      isHexDigit c = false ∧ isQuote c = false ∧ (text "()<>,*;=!").contains c = false := by
  obtain rfl | rfl | rfl | rfl := isWhitespace_cases h <;> decide

theorem identStart_char {c : UInt8} (h : isIdentStart c = true) :
    isDigit c = false ∧ isQuote c = false ∧ isWhitespace c = false ∧
      c ∉ text "()<>,*;=!" := by
  have hquote : isQuote c = false := by
    by_contra hc
    rw [Bool.not_eq_false, isQuote, beq_iff_eq] at hc
    subst hc
    cases h
  have hwhite : isWhitespace c = false := by
    by_contra hc
    rw [(whitespace_char (by simpa using hc)).1] at h
    cases h
  exact ⟨isDigit_of_identStart h, hquote, hwhite, fun hc => by
    rw [(symbol_char hc).1] at h
    cases h⟩

theorem digit_char {c : UInt8} (h : isDigit c = true) :
    isIdentStart c = false ∧ isQuote c = false ∧ isWhitespace c = false ∧
      c ∉ text "()<>,*;=!" := by
  have hident : isIdentStart c = false := by
    by_contra hc
    rw [isDigit_of_identStart (by simpa using hc)] at h
    cases h
  have hquote : isQuote c = false := by
    by_contra hc
    rw [Bool.not_eq_false, isQuote, beq_iff_eq] at hc
    subst hc
    cases h
  have hwhite : isWhitespace c = false := by
    by_contra hc
    rw [(whitespace_char (by simpa using hc)).2.2.1] at h
    cases h
  exact ⟨hident, hquote, hwhite, fun hc => by
    rw [(symbol_char hc).2.1] at h
    cases h⟩

theorem isStray_iff {c : UInt8} : isStray c = true ↔ isWhitespace c = false ∧
    isIdentStart c = false ∧ isDigit c = false ∧ isQuote c = false ∧
    (text "()<>,*;=").contains c = false := by
  simp [isStray, and_assoc]

theorem Spells.of_identStart {t : Token} {c : UInt8} {cs : Text} (h : Spells t (c :: cs))
    (hc : isIdentStart c = true) : t = ⟨.ident, c :: cs⟩ ∧ ∀ x ∈ cs, isIdent x = true := by
  obtain ⟨hdigit, hquote, -, hsymbol⟩ := identStart_char hc
  generalize hw : c :: cs = w at h
  cases h with
  | ident hc' hcs => cases hw; exact ⟨rfl, hcs⟩
  | number hd => cases hw; rw [hdigit] at hd; cases hd
  | hex hd => cases hw; rw [hdigit] at hd; cases hd
  | noDigits hd => cases hw; rw [hdigit] at hd; cases hd
  | string => cases hw; cases hquote
  | openString => cases hw; cases hquote
  | symbol => exact absurd (symbolText_head hw.symm) hsymbol
  | stray hs => cases hw; rw [(isStray_iff.1 hs).2.1] at hc; cases hc

theorem Spells.of_digit {t : Token} {c : UInt8} {cs : Text} (h : Spells t (c :: cs))
    (hc : isDigit c = true) :
    (t = ⟨.number, c :: cs⟩ ∧ (∀ x ∈ cs, (isDigit x || isDot x) = true) ∧ cs.countP isDot ≤ 1) ∨
    ∃ ds, cs = 120 :: ds ∧ (∀ x ∈ ds, isHexDigit x = true) ∧
      t = ⟨if ds = [] then .invalid else .hex, ds⟩ := by
  obtain ⟨hident, hquote, -, hsymbol⟩ := digit_char hc
  generalize hw : c :: cs = w at h
  cases h with
  | ident hi => cases hw; rw [hident] at hi; cases hi
  | number hd hcs hdot => cases hw; exact .inl ⟨rfl, hcs, hdot⟩
  | hex hd hds hne => cases hw; exact .inr ⟨_, rfl, hds, by rw [if_neg hne]⟩
  | noDigits hd => cases hw; exact .inr ⟨[], rfl, by simp, rfl⟩
  | string => cases hw; cases hquote
  | openString => cases hw; cases hquote
  | symbol => exact absurd (symbolText_head hw.symm) hsymbol
  | stray hs => cases hw; rw [(isStray_iff.1 hs).2.2.1] at hc; cases hc

theorem Spells.of_quote {t : Token} {cs : Text} (h : Spells t (quote :: cs)) :
    (∃ chars, quote ∉ chars ∧ cs = chars ++ [quote] ∧ t = ⟨.string, chars⟩) ∨
    (quote ∉ cs ∧ t = ⟨.invalid, cs⟩) := by
  generalize hw : quote :: cs = w at h
  cases h with
  | ident hi => cases hw; cases hi
  | number hd => cases hw; cases hd
  | hex hd => cases hw; cases hd
  | noDigits hd => cases hw; cases hd
  | string hcs => cases hw; exact .inl ⟨_, hcs, rfl, rfl⟩
  | openString hcs => cases hw; exact .inr ⟨hcs, rfl⟩
  | symbol => exact absurd (symbolText_head hw.symm) (by decide)
  | stray hs => cases hw; cases hs

theorem Spells.of_other {t : Token} {c : UInt8} {cs : Text} (h : Spells t (c :: cs))
    (hident : isIdentStart c = false) (hdigit : isDigit c = false) (hquote : isQuote c = false) :
    (∃ type, symbolText type = c :: cs ∧ t = symbolToken type) ∨
    (cs = [] ∧ isStray c = true ∧ t = ⟨.invalid, [c]⟩) := by
  generalize hw : c :: cs = w at h
  cases h with
  | ident hi => cases hw; rw [hident] at hi; cases hi
  | number hd => cases hw; rw [hdigit] at hd; cases hd
  | hex hd => cases hw; rw [hdigit] at hd; cases hd
  | noDigits hd => cases hw; rw [hdigit] at hd; cases hd
  | string => cases hw; cases hquote
  | openString => cases hw; cases hquote
  | symbol => exact .inl ⟨_, rfl, rfl⟩
  | stray hs => cases hw; exact .inr ⟨rfl, hs, rfl⟩

/-! ## The lexicon -/

theorem Spells.exists_head {t : Token} {w : Text} (h : Spells t w) :
    ∃ c cs, w = c :: cs ∧ isWhitespace c = false := by
  cases h with
  | ident hc => exact ⟨_, _, rfl, (identStart_char hc).2.2.1⟩
  | number hc => exact ⟨_, _, rfl, (digit_char hc).2.2.1⟩
  | hex hc => exact ⟨_, _, rfl, (digit_char hc).2.2.1⟩
  | noDigits hc => exact ⟨_, _, rfl, (digit_char hc).2.2.1⟩
  | string => exact ⟨_, _, rfl, rfl⟩
  | openString => exact ⟨_, _, rfl, rfl⟩
  | symbol htype =>
    obtain ⟨c, cs, hw⟩ := List.exists_cons_of_ne_nil htype
    exact ⟨c, cs, hw, (symbol_char (symbolText_head hw)).2.2.2⟩
  | stray hc => exact ⟨_, _, rfl, (isStray_iff.1 hc).1⟩

theorem symbolText_injective {a b : TokenType} (h : symbolText a = symbolText b)
    (ha : symbolText a ≠ []) : a = b := by
  cases a <;> cases b <;> first | rfl | exact absurd rfl ha | exact absurd h (by decide)

theorem Spells.unique {t t' : Token} {w : Text} (h : Spells t w) (h' : Spells t' w) :
    t = t' := by
  obtain ⟨c, cs, rfl, -⟩ := h.exists_head
  by_cases hident : isIdentStart c = true
  · rw [(h.of_identStart hident).1, (h'.of_identStart hident).1]
  by_cases hdigit : isDigit c = true
  · obtain ⟨rfl, hcs, -⟩ | ⟨ds, rfl, -, rfl⟩ := h.of_digit hdigit <;>
      obtain ⟨rfl, hcs', -⟩ | ⟨ds', hds, -, rfl⟩ := h'.of_digit hdigit
    · rfl
    · subst hds
      exact absurd (hcs 120 List.mem_cons_self) (by decide)
    · exact absurd (hcs' 120 List.mem_cons_self) (by decide)
    · cases hds
      rfl
  by_cases hquote : isQuote c = true
  · rw [isQuote, beq_iff_eq] at hquote
    subst hquote
    obtain ⟨chars, -, rfl, rfl⟩ | ⟨hcs, rfl⟩ := h.of_quote <;>
      obtain ⟨chars', hchars', heq, rfl⟩ | ⟨hcs', rfl⟩ := h'.of_quote
    · rw [(List.append_inj' heq rfl).1]
    · simp at hcs'
    · subst heq
      simp at hcs
    · rfl
  rw [Bool.not_eq_true] at hident hdigit hquote
  obtain ⟨a, ha, rfl⟩ | ⟨rfl, hs, rfl⟩ := h.of_other hident hdigit hquote <;>
    obtain ⟨b, hb, rfl⟩ | ⟨hcs, hs', rfl⟩ := h'.of_other hident hdigit hquote
  · rw [symbolText_injective (ha.trans hb.symm) (by rw [ha]; exact List.cons_ne_nil _ _)]
  · subst hcs
    exact absurd (isStray_iff.1 hs').2.2.2.2 (by cases a <;> simp_all [symbolText, text])
  · exact absurd (isStray_iff.1 hs).2.2.2.2 (by cases b <;> simp_all [symbolText, text])
  · rfl

/-- The words of the language, with whitespace for blanks. -/
def lexicon : Lexicon UInt8 Token where
  blank := isWhitespace
  Spells := Spells
  spells_head := Spells.exists_head
  spells_unique := Spells.unique

/-! ## The longest word -/

/-- The token and the rest come from the longest word at the front of the input. -/
def Takes (input : Text) (result : Token × Lexer) : Prop :=
  ∃ word, input = word ++ result.2 ∧ lexicon.Longest result.1 word result.2

/-- A word that stands at the front of a text behind the same character. -/
theorem tail_prefix {c : UInt8} {w xs : Text} {t : Token} (h : Spells t w)
    (hfront : w <+: c :: xs) : ∃ cs, w = c :: cs ∧ cs <+: xs := by
  obtain ⟨d, cs, rfl, -⟩ := h.exists_head
  rw [List.cons_prefix_cons] at hfront
  exact ⟨cs, by rw [hfront.1], hfront.2⟩

theorem length_le_takeWhile {p : UInt8 → Bool} {ys xs : Text} (h : ys <+: xs)
    (hall : ∀ y ∈ ys, p y = true) : ys.length ≤ (xs.takeWhile p).length := by
  obtain ⟨tail, rfl⟩ := h
  rw [List.takeWhile_append_of_pos hall]
  simp

theorem lexerReadIdent_takes {c : UInt8} (rest : Text) (hc : isIdentStart c = true) :
    Takes (c :: rest) (lexerReadIdent (c :: rest)) := by
  have hident := isIdent_of_identStart hc
  refine ⟨(c :: rest).takeWhile isIdent, List.takeWhile_append_dropWhile.symm, ?_, ?_⟩
  · show Spells ⟨.ident, (c :: rest).takeWhile isIdent⟩ _
    rw [List.takeWhile_cons_of_pos hident]
    exact .ident hc fun x hx => List.mem_takeWhile_imp hx
  · intro t w hw hfront
    simp only [lexerReadIdent, List.takeWhile_append_dropWhile] at hfront
    obtain ⟨cs, rfl, hcs⟩ := tail_prefix hw hfront
    obtain ⟨-, hall⟩ := hw.of_identStart hc
    rw [List.takeWhile_cons_of_pos hident]
    simpa using length_le_takeWhile hcs hall

theorem numberChars_append (hasDot : Bool) (xs : Text) :
    (numberChars hasDot xs).1 ++ (numberChars hasDot xs).2 = xs := by
  induction xs generalizing hasDot with
  | nil => rfl
  | cons c xs ih =>
    unfold numberChars
    split
    · rfl
    · split
      · exact congrArg (c :: ·) (ih _)
      · rfl

/-- The dots that a number may still take. -/
theorem numberChars_chars (hasDot : Bool) (xs : Text) :
    (∀ x ∈ (numberChars hasDot xs).1, (isDigit x || isDot x) = true) ∧
      (numberChars hasDot xs).1.countP isDot + hasDot.toNat ≤ 1 := by
  induction xs generalizing hasDot with
  | nil => exact ⟨by simp [numberChars], by cases hasDot <;> simp [numberChars]⟩
  | cons c xs ih =>
    unfold numberChars
    split
    case isTrue => exact ⟨by simp, by cases hasDot <;> simp⟩
    case isFalse hdot =>
      split
      case isTrue hc =>
        obtain ⟨hall, hcount⟩ := ih (hasDot || isDot c)
        refine ⟨List.forall_mem_cons.2 ⟨hc, hall⟩, ?_⟩
        show (c :: (numberChars (hasDot || isDot c) xs).1).countP isDot + _ ≤ 1
        rw [List.countP_cons]
        cases hasDot <;> cases hd : isDot c <;> simp_all
      case isFalse => exact ⟨by simp, by cases hasDot <;> simp⟩

/-- No longer text of digits and at most one dot stands at the front. -/
theorem numberChars_longest (hasDot : Bool) {xs ys : Text} (h : ys <+: xs)
    (hall : ∀ y ∈ ys, (isDigit y || isDot y) = true)
    (hcount : ys.countP isDot + hasDot.toNat ≤ 1) :
    ys.length ≤ (numberChars hasDot xs).1.length := by
  induction xs generalizing hasDot ys with
  | nil => rw [List.prefix_nil.1 h]; exact Nat.zero_le _
  | cons c xs ih =>
    cases ys with
    | nil => exact Nat.zero_le _
    | cons y ys =>
      obtain ⟨rfl, hys⟩ := List.cons_prefix_cons.1 h
      rw [List.countP_cons] at hcount
      obtain ⟨hy, hall⟩ := List.forall_mem_cons.1 hall
      have hdot : (isDot y && hasDot) = false := by
        cases hasDot <;> cases hd : isDot y <;> simp_all
      have hstep := ih (hasDot || isDot y) hys hall (by
        cases hasDot <;> cases hd : isDot y <;> simp_all)
      unfold numberChars
      rw [hdot, if_neg Bool.false_ne_true, if_pos hy]
      exact Nat.succ_le_succ hstep

theorem isDot_of_digit {c : UInt8} (h : isDigit c = true) : isDot c = false := by
  by_contra hc
  rw [Bool.not_eq_false, isDot, beq_iff_eq] at hc
  subst hc
  cases h

theorem lexerReadNumber_takes {c : UInt8} (rest : Text) (hc : isDigit c = true)
    (hmark : isHexMark (nextChar (c :: rest)) = false) :
    Takes (c :: rest) (lexerReadNumber (c :: rest)) := by
  have hchars : numberChars false (c :: rest)
      = (c :: (numberChars false rest).1, (numberChars false rest).2) := by
    rw [numberChars]
    simp [hc, isDot_of_digit hc]
  have happend := numberChars_append false rest
  obtain ⟨hall, hcount⟩ := numberChars_chars false rest
  refine ⟨c :: (numberChars false rest).1, ?_, ?_, ?_⟩
  · simp [lexerReadNumber, hchars, happend]
  · show Spells ⟨.number, (numberChars false (c :: rest)).1⟩ _
    rw [hchars]
    exact .number hc hall (by simpa using hcount)
  · intro t w hw hfront
    simp only [lexerReadNumber, hchars, List.cons_append, happend] at hfront
    obtain ⟨cs, rfl, hcs⟩ := tail_prefix hw hfront
    obtain ⟨-, hall', hcount'⟩ | ⟨ds, rfl, -⟩ := hw.of_digit hc
    · exact Nat.succ_le_succ (numberChars_longest false hcs hall' (by simpa using hcount'))
    · -- A hexadecimal number needs the mark behind its first digit.
      obtain ⟨tail, rfl⟩ := hcs
      cases hmark

theorem lexerReadHex_takes {c : UInt8} (rest : Text) (hc : isDigit c = true) :
    Takes (c :: 120 :: rest) (lexerReadHex (c :: 120 :: rest)) := by
  refine ⟨c :: 120 :: rest.takeWhile isHexDigit, ?_, ?_, ?_⟩
  · simp [lexerReadHex]
  · show Spells ⟨if rest.takeWhile isHexDigit = [] then .invalid else .hex,
      rest.takeWhile isHexDigit⟩ _
    split
    case isTrue h => rw [h]; exact .noDigits hc
    case isFalse h => exact .hex hc (fun x hx => List.mem_takeWhile_imp hx) h
  · intro t w hw hfront
    simp only [lexerReadHex, List.drop_succ_cons, List.drop_zero, List.cons_append,
      List.takeWhile_append_dropWhile] at hfront
    obtain ⟨cs, rfl, hcs⟩ := tail_prefix hw hfront
    obtain ⟨-, hall, -⟩ | ⟨ds, rfl, hds, -⟩ := hw.of_digit hc
    · cases cs with
      | nil => simp
      | cons x cs =>
        obtain ⟨rfl, -⟩ := List.cons_prefix_cons.1 hcs
        exact absurd (hall 120 List.mem_cons_self) (by decide)
    · have hlen := length_le_takeWhile (List.cons_prefix_cons.1 hcs).2 hds
      simpa using hlen

theorem not_quote {chars : Text} (h : quote ∉ chars) : ∀ c ∈ chars, (!isQuote c) = true := by
  intro c hc
  rw [Bool.not_eq_true', isQuote, beq_eq_false_iff_ne]
  exact fun heq => h (heq ▸ hc)

theorem lexerReadString_closed {chars : Text} (h : quote ∉ chars) (tail : Text) :
    lexerReadString (quote :: (chars ++ quote :: tail)) = (⟨.string, chars⟩, tail) := by
  have htake : (chars ++ quote :: tail).takeWhile (fun c => !isQuote c) = chars := by
    rw [List.takeWhile_append_of_pos (not_quote h)]
    simp [isQuote]
  have hdrop : (chars ++ quote :: tail).dropWhile (fun c => !isQuote c) = quote :: tail := by
    rw [List.dropWhile_append_of_pos (not_quote h)]
    simp [isQuote]
  simp only [lexerReadString, List.tail_cons, htake, hdrop]

theorem lexerReadString_open {chars : Text} (h : quote ∉ chars) :
    lexerReadString (quote :: chars) = (⟨.invalid, chars⟩, []) := by
  have htake : chars.takeWhile (fun c => !isQuote c) = chars :=
    List.takeWhile_eq_self_iff.2 (not_quote h)
  have hdrop : chars.dropWhile (fun c => !isQuote c) = [] :=
    List.dropWhile_eq_nil_iff.2 (not_quote h)
  simp only [lexerReadString, List.tail_cons, htake, hdrop]

theorem lexerReadString_takes (rest : Text) :
    Takes (quote :: rest) (lexerReadString (quote :: rest)) := by
  by_cases hquote : quote ∈ rest
  · obtain ⟨chars, tail, rfl, hchars⟩ := List.eq_append_cons_of_mem hquote
    rw [lexerReadString_closed hchars]
    refine ⟨quote :: (chars ++ [quote]), by simp, .string hchars, ?_⟩
    intro t w hw hfront
    by_contra hlonger
    obtain ⟨more, rfl⟩ : quote :: (chars ++ [quote]) <+: w :=
      List.prefix_of_prefix_length_le (List.prefix_append _ tail) hfront (by omega)
    rw [List.cons_append] at hw
    -- Behind the closing quote no word goes on.
    obtain ⟨chars', hq, heq, -⟩ | ⟨hq, -⟩ := hw.of_quote
    · cases more using List.reverseRecOn with
      | nil => simp at hlonger
      | append_singleton more c =>
        rw [← List.append_assoc] at heq
        obtain ⟨rfl, -⟩ := List.append_inj' heq rfl
        simp at hq
    · simp at hq
  · rw [lexerReadString_open hquote]
    refine ⟨quote :: rest, by simp, .openString hquote, ?_⟩
    intro t w hw hfront
    rw [List.append_nil] at hfront
    exact hfront.length_le

theorem symbolText_twoChars {c n : UInt8} (h : lexerSymbolTwoChars c n ≠ .invalid) :
    symbolText (lexerSymbolTwoChars c n) = [c, n] := by
  unfold lexerSymbolTwoChars at h ⊢
  split
  case isTrue hcn => obtain ⟨rfl, rfl⟩ : c = 62 ∧ n = 61 := by simpa using hcn
                     rfl
  case isFalse =>
  split
  case isTrue hcn => obtain ⟨rfl, rfl⟩ : c = 60 ∧ n = 61 := by simpa using hcn
                     rfl
  case isFalse =>
  split
  case isTrue hcn => obtain ⟨rfl, rfl⟩ : c = 33 ∧ n = 61 := by simpa using hcn
                     rfl
  case isFalse h₁ h₂ h₃ => simp [h₁, h₂, h₃] at h

theorem symbolText_oneChar {c : UInt8} (h : lexerSymbolType c ≠ .invalid) :
    symbolText (lexerSymbolType c) = [c] := by
  unfold lexerSymbolType at h ⊢
  split <;> first | rfl | simp at h

theorem not_symbol_of_invalid {c : UInt8} (h : lexerSymbolType c = .invalid) :
    (text "()<>,*;=").contains c = false := by
  by_contra hc
  have hall : (text "()<>,*;=").all (fun c => lexerSymbolType c != .invalid) = true := by decide
  exact bne_iff_ne.1 (List.all_eq_true.1 hall c (by simpa using hc)) h

/-- A symbol has one character, or two that belong together. -/
theorem symbolText_cons {type : TokenType} {c : UInt8} {cs : Text}
    (h : symbolText type = c :: cs) :
    cs = [] ∨ ∃ n, cs = [n] ∧ lexerSymbolTwoChars c n ≠ .invalid := by
  cases type <;> simp [symbolText, text] at h <;> obtain ⟨rfl, rfl⟩ := h <;>
    first | exact .inl rfl | exact .inr ⟨_, rfl, by decide⟩

theorem lexerReadSymbol_takes {c : UInt8} (rest : Text) (hident : isIdentStart c = false)
    (hdigit : isDigit c = false) (hquote : isQuote c = false) (hwhite : isWhitespace c = false) :
    Takes (c :: rest) (lexerReadSymbol c rest) := by
  unfold lexerReadSymbol
  dsimp only
  split
  case isTrue htwo =>
    cases rest with
    | nil => simp [lexerSymbolTwoChars] at htwo
    | cons n rest =>
      have htext : symbolText (lexerSymbolTwoChars c n) = [c, n] := symbolText_twoChars htwo
      have htoken : (⟨lexerSymbolTwoChars c n, [c, n]⟩ : Token)
          = symbolToken (lexerSymbolTwoChars c n) := by rw [symbolToken, htext]
      refine ⟨[c, n], rfl, ?_, ?_⟩
      · show Spells ⟨lexerSymbolTwoChars c n, [c, n]⟩ [c, n]
        rw [htoken, ← htext]
        exact .symbol (by rw [htext]; exact List.cons_ne_nil _ _)
      · intro t w hw hfront
        obtain ⟨cs, rfl, -⟩ := tail_prefix hw hfront
        obtain ⟨type, htype, -⟩ | ⟨rfl, -⟩ := hw.of_other hident hdigit hquote
        · obtain rfl | ⟨m, rfl, -⟩ := symbolText_cons htype <;> simp
        · simp
  case isFalse htwo =>
    refine ⟨[c], rfl, ?_, ?_⟩
    · show Spells ⟨lexerSymbolType c, [c]⟩ [c]
      by_cases hone : lexerSymbolType c = .invalid
      · rw [hone]
        exact .stray (isStray_iff.2
          ⟨hwhite, hident, hdigit, hquote, not_symbol_of_invalid hone⟩)
      · have htext := symbolText_oneChar hone
        have htoken : (⟨lexerSymbolType c, [c]⟩ : Token) = symbolToken (lexerSymbolType c) := by
          rw [symbolToken, htext]
        rw [htoken, ← htext]
        exact .symbol (by rw [htext]; exact List.cons_ne_nil _ _)
    · intro t w hw hfront
      obtain ⟨cs, rfl, hcs⟩ := tail_prefix hw hfront
      obtain ⟨type, htype, -⟩ | ⟨rfl, -⟩ := hw.of_other hident hdigit hquote
      · obtain rfl | ⟨n, rfl, hn⟩ := symbolText_cons htype
        · simp
        · obtain ⟨tail, rfl⟩ := hcs
          exact absurd hn htwo
      · simp

theorem lexerNext_takes {c : UInt8} (rest : Text) (hc : isWhitespace c = false) :
    Takes (c :: rest) (lexerNext (c :: rest)) := by
  have hskip : lexerSkipWhitespace (c :: rest) = c :: rest :=
    List.dropWhile_cons_of_neg (by simp [hc])
  rw [lexerNext, hskip]
  dsimp only
  split
  case isTrue hident => exact lexerReadIdent_takes rest hident
  case isFalse hident =>
  split
  case isTrue hdigit =>
    split
    case isTrue hmark =>
      cases rest with
      | nil => cases hmark
      | cons x rest =>
        obtain rfl : x = 120 := by simpa [isHexMark, nextChar] using hmark
        exact lexerReadHex_takes rest hdigit
    case isFalse hmark => exact lexerReadNumber_takes rest hdigit (by simpa using hmark)
  case isFalse hdigit =>
  split
  case isTrue hquote =>
    obtain rfl : c = quote := by simpa [isQuote] using hquote
    exact lexerReadString_takes rest
  case isFalse hquote =>
    rw [Bool.not_eq_true] at hident hdigit hquote
    exact lexerReadSymbol_takes rest hident hdigit hquote hc

/-! ## All tokens of an input -/

theorem lexerNext_skip (lexer : Lexer) :
    lexerNext lexer = lexerNext (lexerSkipWhitespace lexer) := by
  have hskip : lexerSkipWhitespace (lexerSkipWhitespace lexer) = lexerSkipWhitespace lexer :=
    List.dropWhile_idempotent isWhitespace lexer
  rw [lexerNext, lexerNext, hskip]

theorem Spells.type_ne_eof {t : Token} {w : Text} (h : Spells t w) : t.type ≠ .eof := by
  cases h with
  | @symbol type htype =>
    intro heof
    obtain rfl : type = .eof := heof
    exact htype rfl
  | _ => exact TokenType.noConfusion

/-- The end of the input, or the longest word behind the whitespace. -/
theorem lexerNext_cases (lexer : Lexer) :
    (lexerNext lexer = (⟨.eof, []⟩, []) ∧ ∀ c ∈ lexer, isWhitespace c = true) ∨
    ∃ gap word, lexer = gap ++ (word ++ (lexerNext lexer).2) ∧
      (∀ c ∈ gap, isWhitespace c = true) ∧
      lexicon.Longest (lexerNext lexer).1 word (lexerNext lexer).2 := by
  cases hskip : lexerSkipWhitespace lexer with
  | nil =>
    left
    refine ⟨?_, List.dropWhile_eq_nil_iff.1 hskip⟩
    rw [lexerNext, hskip]
  | cons c rest =>
    right
    have hc : isWhitespace c = false := by
      have hhead := List.head_dropWhile_not isWhitespace
        (show lexer.dropWhile isWhitespace ≠ [] by
          rw [show lexer.dropWhile isWhitespace = c :: rest from hskip]
          exact List.cons_ne_nil _ _)
      simp only [show lexer.dropWhile isWhitespace = c :: rest from hskip] at hhead
      exact hhead
    obtain ⟨word, hword, hlongest⟩ := lexerNext_takes rest hc
    rw [lexerNext_skip, hskip]
    refine ⟨lexer.takeWhile isWhitespace, word, ?_, fun x hx => List.mem_takeWhile_imp hx,
      hlongest⟩
    rw [← hword, ← hskip]
    exact List.takeWhile_append_dropWhile.symm

theorem lexerNext_shorter (lexer : Lexer) (h : (lexerNext lexer).1.type ≠ .eof) :
    (lexerNext lexer).2.length < lexer.length := by
  obtain ⟨heof, -⟩ | ⟨gap, word, hsplit, -, hlongest⟩ := lexerNext_cases lexer
  · rw [heof] at h
    exact absurd rfl h
  · obtain ⟨c, cs, rfl, -⟩ := lexicon.spells_head hlongest.spells
    have hlen := congrArg List.length hsplit
    simp only [List.length_append, List.length_cons] at hlen
    omega

theorem lexerNext_eof {lexer : Lexer} (h : (lexerNext lexer).1.type = .eof) :
    (lexerNext lexer).2 = [] := by
  obtain ⟨heof, -⟩ | ⟨gap, word, -, -, hlongest⟩ := lexerNext_cases lexer
  · rw [heof]
  · exact absurd h (Spells.type_ne_eof hlongest.spells)

/-- In front of something the lexer moves on. -/
theorem lexerNext_length_lt {lexer : Lexer} (h : lexer ≠ []) :
    (lexerNext lexer).2.length < lexer.length := by
  by_cases heof : (lexerNext lexer).1.type = .eof
  · rw [lexerNext_eof heof]
    exact List.length_pos_iff.2 h
  · exact lexerNext_shorter lexer heof

/-- The tokens of the input up to its end. -/
def lexerTokens (lexer : Lexer) : List Token :=
  if _h : (lexerNext lexer).1.type = .eof then []
  else (lexerNext lexer).1 :: lexerTokens (lexerNext lexer).2
termination_by lexer.length
decreasing_by exact lexerNext_shorter lexer _h

theorem lexerTokens_eof {lexer : Lexer} (h : (lexerNext lexer).1.type = .eof) :
    lexerTokens lexer = [] := by
  rw [lexerTokens, dif_pos h]

theorem lexerTokens_cons {lexer : Lexer} (h : (lexerNext lexer).1.type ≠ .eof) :
    lexerTokens lexer = (lexerNext lexer).1 :: lexerTokens (lexerNext lexer).2 := by
  rw [lexerTokens, dif_neg h]

theorem scans_lexerTokens (lexer : Lexer) : lexicon.Scans lexer (lexerTokens lexer) := by
  induction lexer using lexerTokens.induct with
  | case1 lexer heof =>
    rw [lexerTokens_eof heof]
    obtain ⟨-, hgap⟩ | ⟨gap, word, -, -, hlongest⟩ := lexerNext_cases lexer
    · exact .done hgap
    · exact absurd heof (Spells.type_ne_eof hlongest.spells)
  | case2 lexer heof ih =>
    rw [lexerTokens_cons heof]
    obtain ⟨hend, -⟩ | ⟨gap, word, hsplit, hgap, hlongest⟩ := lexerNext_cases lexer
    · rw [hend] at heof
      exact absurd rfl heof
    · have hscans := Lexicon.Scans.next hgap hlongest ih
      rwa [← hsplit] at hscans

/-- Longest match gives the tokens that the lexer hands out, and no others. -/
theorem scans_iff {input : Text} {ts : List Token} :
    lexicon.Scans input ts ↔ ts = lexerTokens input :=
  ⟨fun h => h.unique (scans_lexerTokens input), fun h => h ▸ scans_lexerTokens input⟩

/-- Every token of an input is spelled by some word. -/
theorem exists_spells {input : Text} {t : Token} (h : t ∈ lexerTokens input) :
    ∃ w, Spells t w := by
  have hscans := scans_lexerTokens input
  generalize lexerTokens input = ts at h hscans
  induction hscans with
  | done => cases h
  | next _ hword _ ih =>
    obtain rfl | h := List.mem_cons.1 h
    · exact ⟨_, hword.spells⟩
    · exact ih h

/-! ## Written tokens -/

/-- No valid word goes on behind a blank. -/
theorem Spells.not_longer {t t' : Token} {w more : Text} {c : UInt8} (h : Spells t w)
    (hvalid : t.type ≠ .invalid) (hc : isWhitespace c = true) : ¬Spells t' (w ++ c :: more) := by
  obtain ⟨hstart, hident, hdigit, hdot, hhex, -, hsymbol⟩ := whitespace_char hc
  obtain ⟨d, cs, rfl, -⟩ := h.exists_head
  rw [List.cons_append]
  intro h'
  have hmem : c ∈ cs ++ c :: more := by simp
  by_cases hd : isIdentStart d = true
  · have hall := (h'.of_identStart hd).2 c hmem
    rw [hident] at hall
    cases hall
  by_cases hd' : isDigit d = true
  · obtain ⟨-, hall, -⟩ | ⟨ds, hds, hall, -⟩ := h'.of_digit hd'
    · have hnum := hall c hmem
      rw [hdigit, hdot] at hnum
      cases hnum
    · rw [hds] at hmem
      obtain rfl | hmem := List.mem_cons.1 hmem
      · cases hc
      · rw [hall c hmem] at hhex
        cases hhex
  by_cases hq : isQuote d = true
  · obtain rfl : d = quote := by simpa [isQuote] using hq
    obtain ⟨chars, -, rfl, -⟩ | ⟨-, rfl⟩ := h.of_quote
    · obtain ⟨chars', hchars', heq, -⟩ | ⟨hchars', -⟩ := h'.of_quote
      · obtain ⟨last, more', hmore⟩ : ∃ last more', c :: more = more' ++ [last] :=
          ⟨_, _, (List.dropLast_append_getLast (List.cons_ne_nil c more)).symm⟩
        rw [hmore, ← List.append_assoc] at heq
        obtain ⟨rfl, -⟩ := List.append_inj' heq rfl
        simp at hchars'
      · simp at hchars'
    · exact hvalid rfl
  · rw [Bool.not_eq_true] at hd hd' hq
    obtain ⟨type, htype, -⟩ | ⟨hnil, -⟩ := h'.of_other hd hd' hq
    · obtain hnil | ⟨n, hn, htwo⟩ := symbolText_cons htype
      · simp at hnil
      · cases cs with
        | cons => simp at hn
        | nil =>
          obtain rfl : c = n := (List.cons.inj hn).1
          obtain rfl | rfl | rfl | rfl := isWhitespace_cases hc <;>
            simp [lexerSymbolTwoChars] at htwo
    · simp at hnil

/-- Tokens written with whitespace between them are read again. -/
theorem scans_of_spaced {ts : List Token} {input : Text} (h : lexicon.Spaced ts input)
    (hvalid : ∀ t ∈ ts, t.type ≠ .invalid) : lexerTokens input = ts :=
  (scans_iff.1 (h.scans fun t ht _ hw _ _ _ hc => Spells.not_longer hw (hvalid t ht) hc)).symm

end Maxql
