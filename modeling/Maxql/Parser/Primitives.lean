import Maxql.Engine.Ast
import Maxql.Lib.Reading
import Maxql.Parser.Lexing

/-!
# Parser primitives

`src/parser/primitives.c`.  The parser keeps the first error and goes on.  The
four loops over a list are `parseList` with their item and their separator;
its fuel is what is left of the input.

* `parserReader`: the tokens that a parser still has in front of it;
* `reads_parserAccept`, `reads_parserExpect`, `reads_parserAcceptKeyword`, …:
  what each primitive takes.
-/

namespace Maxql

open Program Bytes

/-! ## The parser -/

structure Parser where
  lexer : Lexer
  current : Token
  /-- `none` is `error_ok()`. -/
  error : Option Error
  deriving DecidableEq, Repr

def parserSetError (code : ErrorCode) (msg : Text) : Prog Parser Unit :=
  modify fun parser =>
    if parser.error.isSome then parser
    else { parser with error := some { code, msg := msg.take 255 } }

def parserNext : Prog Parser Unit := do
  modify fun parser =>
    { parser with current := (lexerNext parser.lexer).1, lexer := (lexerNext parser.lexer).2 }
  if (← get).current.type = .invalid then parserSetError .lexer (text "Invalid token")

def parserCheck (type : TokenType) : Prog Parser Bool := do
  return (← get).current.type == type

def parserAccept (type : TokenType) : Prog Parser Bool := do
  let isAccepted ← parserCheck type
  if isAccepted then parserNext
  return isAccepted

def parserExpect (type : TokenType) : Prog Parser Unit := do
  if !(← parserAccept type) then parserSetError .parser (text "Unexpected token")

def parserAcceptKeyword (keyword : Text) : Prog Parser Bool := do
  if !(← parserCheck .ident) then return false
  if (← get).current.lexeme != keyword then return false
  parserNext
  return true

def parserExpectKeyword (keyword : Text) : Prog Parser Unit := do
  if !(← parserAcceptKeyword keyword) then
    parserSetError .parser (text "Expected specific keyword")

/-- The body of `parse_ident`, `parse_number`, `parse_string` and `parse_hex`. -/
def parseLexeme (type : TokenType) : Prog Parser Text := do
  let lexeme := (← get).current.lexeme
  parserExpect type
  return lexeme

def parseIdent : Prog Parser Text := parseLexeme .ident

def parseNumber : Prog Parser Text := parseLexeme .number

def parseString : Prog Parser Text := parseLexeme .string

def parseHex : Prog Parser Text := parseLexeme .hex

def parseValue : Prog Parser RawValue := do
  if ← parserCheck .number then return { type := .number, value := ← parseNumber }
  if ← parserCheck .string then return { type := .string, value := ← parseString }
  if ← parserCheck .hex then return { type := .hex, value := ← parseHex }
  parserSetError .parser (text "Expected number, string or hex literal")
  return { type := .number, value := [] }

/-- The loops of the list functions. -/
def parseList {α : Type} (item : Prog Parser α) (sep : Prog Parser Bool) :
    Prog Parser (List α) := do
  sepBy item sep ((← get).lexer.length + 2)

def parseIdentList : Prog Parser (List Text) := parseList parseIdent (parserAccept .comma)

def parseIndexKeyPart : Prog Parser IndexKeyPart := do
  let column ← parseIdent
  if ← parserAccept .lparen then
    let keyLen ← parseNumber
    parserExpect .rparen
    return { column, keyLen, hasKeyLen := true }
  else return { column, keyLen := [], hasKeyLen := false }

def parseIndexKeyPartList : Prog Parser (List IndexKeyPart) :=
  parseList parseIndexKeyPart (parserAccept .comma)

def parseAssignment : Prog Parser Assignment := do
  let column ← parseIdent
  parserExpect .equals
  let value ← parseValue
  return { column, value }

def parseAssignmentList : Prog Parser (List Assignment) :=
  parseList parseAssignment (parserAccept .comma)

/-- The operator of a comparison token. -/
def comparisonOp : TokenType → Option ConditionOp
  | .equals => some .equals
  | .notEquals => some .notEquals
  | .less => some .less
  | .lessOrEqual => some .lessOrEqual
  | .greater => some .greater
  | .greatOrEqual => some .greatOrEqual
  | _ => none

/-- `OP_UNKNOWN` only comes with an error, which makes the engine drop the statement; any
operator may stand in its place. -/
def parseComparisonOp : Prog Parser ConditionOp := do
  match comparisonOp (← get).current.type with
  | some op =>
    parserNext
    return op
  | none =>
    parserSetError .parser (text "Expected comparison operator")
    return .equals

def parseCondition : Prog Parser Condition := do
  let column ← parseIdent
  let op ← parseComparisonOp
  let value ← parseValue
  return { column, op, value }

def parseConditionList : Prog Parser (List Condition) :=
  parseList parseCondition (parserAcceptKeyword (text "and"))

def parseColumnType : Prog Parser ColumnTypeDef := do
  let name ← parseIdent
  if ← parserAccept .lparen then
    let len ← parseNumber
    parserExpect .rparen
    return { name, len, hasLen := true }
  else return { name, len := [], hasLen := false }

def parseColumnDef : Prog Parser ColumnDef := do
  let column ← parseIdent
  let type ← parseColumnType
  if ← parserAcceptKeyword (text "default") then
    let defaultValue ← parseValue
    return { column, type, hasDefault := true, defaultValue }
  else
    return { column, type, hasDefault := false, defaultValue := { type := .number, value := [] } }

def parseColumnDefList : Prog Parser (List ColumnDef) :=
  parseList parseColumnDef (parserAccept .comma)

/-! ## The tokens in front of a parser -/

/-- A name, or a keyword: the lexer does not tell them apart. -/
def identToken (name : Text) : Token := ⟨.ident, name⟩

/-- What a lexer hands out. -/
def Genuine (t : Token) : Prop := t.type = .eof ∨ ∃ w, Spells t w

structure Parser.Inv (parser : Parser) : Prop where
  atEnd : parser.current.type = .eof → parser.lexer = []
  noted : parser.current.type = .invalid → parser.error ≠ none
  genuine : Genuine parser.current

/-- The current token and those behind it, up to the end of the input. -/
def Parser.view (parser : Parser) : List Token :=
  if parser.current.type = .eof then [] else parser.current :: lexerTokens parser.lexer

def parserReader : TokenReader Parser Token where
  Inv := Parser.Inv
  Ok parser := parser.error = none
  view := Parser.view
  Good t := t.type ≠ .invalid

theorem lexerNext_genuine (lexer : Lexer) : Genuine (lexerNext lexer).1 := by
  obtain ⟨heof, -⟩ | ⟨gap, word, -, -, hlongest⟩ := lexerNext_cases lexer
  · exact .inl (by rw [heof])
  · exact .inr ⟨word, hlongest.spells⟩

/-- A token of a symbol's type is the symbol. -/
theorem Genuine.eq_symbol {t : Token} (h : Genuine t) {type : TokenType} (ht : t.type = type)
    (hsymbol : symbolText type ≠ []) : t = symbolToken type := by
  subst ht
  obtain heof | ⟨w, hw⟩ := h
  · rw [heof] at hsymbol
    exact absurd rfl hsymbol
  · cases hw with
    | symbol => rfl
    | _ => exact absurd rfl hsymbol

/-! ## Taking a token -/

def Parser.advance (parser : Parser) : Parser where
  lexer := (lexerNext parser.lexer).2
  current := (lexerNext parser.lexer).1
  error :=
    if (lexerNext parser.lexer).1.type = .invalid then
      some (parser.error.getD ⟨.lexer, text "Invalid token"⟩)
    else parser.error

theorem runs_parserSetError (code : ErrorCode) (msg : Text) (parser : Parser) :
    Runs (parserSetError code msg) parser ⟨⟩
      { parser with error := some (parser.error.getD ⟨code, msg.take 255⟩) } := by
  obtain ⟨lexer, current, error⟩ := parser
  cases error <;> rfl

theorem runs_parserNext (parser : Parser) : Runs parserNext parser ⟨⟩ parser.advance := by
  unfold parserNext Parser.advance
  refine (Runs.modify _ _).bind ((Runs.get _).bind ?_)
  split
  case isTrue => exact runs_parserSetError _ _ _
  case isFalse => exact Runs.pure _ _

theorem Parser.advance_inv (parser : Parser) : parser.advance.Inv where
  atEnd h := lexerNext_eof h
  noted h := by
    have hinvalid : (lexerNext parser.lexer).1.type = .invalid := h
    rw [Parser.advance, if_pos hinvalid]
    exact Option.some_ne_none _
  genuine := lexerNext_genuine parser.lexer

theorem Parser.view_advance {parser : Parser} (h : parser.Inv) :
    parser.advance.view = parser.view.tail := by
  have hadvance : parser.advance.view = lexerTokens parser.lexer := by
    unfold Parser.view Parser.advance
    dsimp only
    split
    case isTrue heof => rw [lexerTokens_eof heof]
    case isFalse heof => rw [lexerTokens_cons heof]
  rw [hadvance, Parser.view]
  split
  case isTrue heof =>
    rw [h.atEnd heof]
    exact lexerTokens_eof rfl
  case isFalse => rfl

theorem Parser.view_cons {parser : Parser} (h : parser.current.type ≠ .eof) :
    parser.view = parser.current :: lexerTokens parser.lexer := if_neg h

theorem Parser.view_eof {parser : Parser} (h : parser.current.type = .eof) :
    parser.view = [] := if_pos h

/-- An error stays. -/
theorem Parser.error_of_advance {parser : Parser} (h : parser.advance.error = none) :
    parser.error = none := by
  unfold Parser.advance at h
  dsimp only at h
  split at h
  · cases h
  · exact h

/-- There is no new error where the next token is valid. -/
theorem Parser.advance_error {parser : Parser} (h : parser.error = none)
    (hgood : ∀ t ∈ parser.view, t.type ≠ .invalid) (hinv : parser.Inv) :
    parser.advance.error = none := by
  have hvalid : (lexerNext parser.lexer).1.type ≠ .invalid := by
    intro hinvalid
    have hadvance : parser.advance.view
        = (lexerNext parser.lexer).1 :: lexerTokens (lexerNext parser.lexer).2 := by
      apply Parser.view_cons
      show (lexerNext parser.lexer).1.type ≠ .eof
      rw [hinvalid]
      exact TokenType.noConfusion
    rw [Parser.view_advance hinv] at hadvance
    refine hgood (lexerNext parser.lexer).1 (List.mem_of_mem_tail ?_) hinvalid
    rw [hadvance]
    exact List.mem_cons_self
  rw [Parser.advance, if_neg hvalid]
  exact h

/-- A program that takes the current token, where this is `G`'s token. -/
theorem readsAt_advance {α : Type} {p : Prog Parser α} {parser : Parser} {a : α}
    {G : Grammar Token α} (hinv : parser.Inv) (hrun : Runs p parser a parser.advance)
    (hG : parser.current.type ≠ .invalid → ∀ b rest, G parser.view b rest ↔ b = a ∧
      rest = parser.view.tail) : ReadsAt parserReader p parser G := by
  have hview : parser.advance.view = parser.view.tail := Parser.view_advance hinv
  refine ⟨a, parser.advance, hrun, parser.advance_inv, ?_, ?_, ?_⟩
  · show parser.advance.view <:+ parser.view
    rw [hview]
    exact List.tail_suffix _
  · intro hok
    have herror : parser.error = none := Parser.error_of_advance hok
    have hvalid : parser.current.type ≠ .invalid := fun h => hinv.noted h herror
    refine ⟨herror, fun t ht => ?_, (hG hvalid a _).2 ⟨rfl, hview⟩⟩
    rw [show parserReader.view parser.advance = parser.view.tail from hview]
    have ht : t ∈ parser.view := ht
    unfold Parser.view at ht ⊢
    split at ht
    case isTrue => cases ht
    case isFalse heof =>
      rw [if_neg heof]
      obtain rfl | ht := List.mem_cons.1 ht
      · exact .inr hvalid
      · exact .inl ht
  · intro hok hgood b rest h
    have hvalid : parser.current.type ≠ .invalid := fun h => hinv.noted h hok
    obtain ⟨rfl, rfl⟩ := (hG hvalid b rest).1 h
    exact ⟨Parser.advance_error hok hgood hinv, rfl, hview⟩

/-- A program that sets an error, where nothing fits. -/
theorem readsAt_error {α : Type} {p : Prog Parser α} {parser : Parser} {a : α} {e : Error}
    {G : Grammar Token α} (hinv : parser.Inv)
    (hrun : Runs p parser a { parser with error := some e })
    (hG : ∀ b rest, ¬G parser.view b rest) : ReadsAt parserReader p parser G :=
  ⟨a, { parser with error := some e }, hrun,
    ⟨hinv.atEnd, fun _ => Option.some_ne_none _, hinv.genuine⟩, List.suffix_rfl,
    fun hok => (by cases hok), fun _ _ b rest h => absurd h (hG b rest)⟩

theorem reads_parserSetError (code : ErrorCode) (msg : Text) :
    Reads parserReader (parserSetError code msg) Grammar.fail :=
  fun parser hinv => readsAt_error hinv (runs_parserSetError code msg parser) fun _ _ h => h

/-- A program that only looks. -/
theorem readsAt_stay {α : Type} {p : Prog Parser α} {parser : Parser} {a : α}
    {G : Grammar Token α} (hinv : parser.Inv) (hrun : Runs p parser a parser)
    (hG : ∀ b rest, G parser.view b rest ↔ b = a ∧ rest = parser.view) :
    ReadsAt parserReader p parser G :=
  ⟨a, parser, hrun, hinv, List.suffix_rfl, fun hok => ⟨hok, fun _ => .inl, (hG a _).2 ⟨rfl, rfl⟩⟩,
    fun hok _ b rest h => ⟨hok, ((hG b rest).1 h).1.symm, ((hG b rest).1 h).2.symm⟩⟩

theorem runs_parserCheck (type : TokenType) (parser : Parser) :
    Runs (parserCheck type) parser (parser.current.type == type) parser := rfl

/-! ## The primitives -/

/-- A program that takes the current token if it is `t`. -/
theorem reads_accept {p : Prog Parser Bool} {t : Token} (ht : t.type ≠ .eof)
    (htake : ∀ parser, parser.Inv → parser.current = t → Runs p parser true parser.advance)
    (hleave : ∀ parser, parser.Inv → parser.current ≠ t → Runs p parser false parser) :
    Reads parserReader p (Grammar.accept t) := by
  intro parser hinv
  by_cases hcurrent : parser.current = t
  · apply readsAt_advance hinv (htake parser hinv hcurrent)
    intro _ b rest
    rw [Parser.view_cons (by rwa [hcurrent]), hcurrent]
    simp [Grammar.accept, eq_comm]
  · apply readsAt_stay hinv (hleave parser hinv hcurrent)
    intro b rest
    have hhead : parser.view.head? ≠ some t := by
      unfold Parser.view
      split
      · exact fun h => (by cases h)
      · exact fun h => hcurrent (Option.some.inj h)
    constructor
    · rintro (⟨-, h⟩ | ⟨rfl, -, rfl⟩)
      · rw [h] at hhead
        exact absurd rfl hhead
      · exact ⟨rfl, rfl⟩
    · rintro ⟨rfl, rfl⟩
      exact .inr ⟨rfl, hhead, rfl⟩

theorem reads_parserAccept (type : TokenType) (hsymbol : symbolText type ≠ []) :
    Reads parserReader (parserAccept type) (Grammar.accept (symbolToken type)) := by
  apply reads_accept
  · intro heof
    obtain rfl : type = .eof := heof
    exact hsymbol rfl
  · intro parser _ hcurrent
    have htype : (parser.current.type == type) = true := by rw [hcurrent]; exact beq_self_eq_true _
    refine (runs_parserCheck type parser).bind ?_
    rw [htype]
    exact (runs_parserNext parser).bind (Runs.pure _ _)
  · intro parser hinv hcurrent
    have htype : (parser.current.type == type) = false := by
      rw [beq_eq_false_iff_ne]
      exact fun h => hcurrent (hinv.genuine.eq_symbol h hsymbol)
    refine (runs_parserCheck type parser).bind ?_
    rw [htype]
    exact Runs.pure _ _

theorem reads_parserExpect (type : TokenType) (hsymbol : symbolText type ≠ []) :
    Reads parserReader (parserExpect type) (Grammar.one (symbolToken type)) :=
  (reads_parserAccept type hsymbol).expect (reads_parserSetError _ _)

theorem reads_parserAcceptKeyword (keyword : Text) :
    Reads parserReader (parserAcceptKeyword keyword) (Grammar.accept (identToken keyword)) := by
  apply reads_accept
  · exact TokenType.noConfusion
  · intro parser _ hcurrent
    refine (runs_parserCheck .ident parser).bind ?_
    rw [hcurrent]
    refine (Runs.get parser).bind ?_
    rw [hcurrent]
    simp only [identToken, bne_self_eq_false]
    exact (runs_parserNext parser).bind (Runs.pure _ _)
  · intro parser _ hcurrent
    refine (runs_parserCheck .ident parser).bind ?_
    by_cases htype : parser.current.type = .ident
    · rw [htype]
      refine (Runs.get parser).bind ?_
      have hlexeme : (parser.current.lexeme != keyword) = true := by
        rw [bne_iff_ne]
        rintro rfl
        exact hcurrent (by rw [identToken, ← htype])
      simp only [hlexeme]
      exact Runs.pure _ _
    · rw [beq_eq_false_iff_ne.2 htype]
      exact Runs.pure _ _

theorem reads_parserExpectKeyword (keyword : Text) :
    Reads parserReader (parserExpectKeyword keyword) (Grammar.one (identToken keyword)) :=
  (reads_parserAcceptKeyword keyword).expect (reads_parserSetError _ _)

/-- The end of the input. -/
theorem reads_parserExpectEof :
    Reads parserReader (parserExpect .eof) fun ts _ rest => ts = [] ∧ rest = [] := by
  intro parser hinv
  by_cases heof : parser.current.type = .eof
  · have hrun : Runs (parserExpect .eof) parser ⟨⟩ parser.advance := by
      have haccept : Runs (parserAccept .eof) parser true parser.advance := by
        refine (runs_parserCheck .eof parser).bind ?_
        rw [beq_iff_eq.2 heof]
        exact (runs_parserNext parser).bind (Runs.pure _ _)
      exact haccept.bind (Runs.pure _ _)
    apply readsAt_advance hinv hrun
    intro _ b rest
    rw [Parser.view_eof heof]
    simp
  · have haccept : Runs (parserAccept .eof) parser false parser := by
      refine (runs_parserCheck .eof parser).bind ?_
      rw [beq_eq_false_iff_ne.2 heof]
      exact Runs.pure _ _
    refine readsAt_error hinv (haccept.bind (runs_parserSetError _ _ parser)) ?_
    rintro b rest ⟨hview, -⟩
    rw [Parser.view_cons heof] at hview
    cases hview

theorem reads_parseLexeme (type : TokenType) (htype : type ≠ .eof) :
    Reads parserReader (parseLexeme type) fun ts a rest => ts = ⟨type, a⟩ :: rest := by
  intro parser hinv
  by_cases hcurrent : parser.current.type = type
  · have hrun : Runs (parseLexeme type) parser parser.current.lexeme parser.advance := by
      have haccept : Runs (parserAccept type) parser true parser.advance := by
        refine (runs_parserCheck type parser).bind ?_
        rw [beq_iff_eq.2 hcurrent]
        exact (runs_parserNext parser).bind (Runs.pure _ _)
      have hexpect : Runs (parserExpect type) parser ⟨⟩ parser.advance :=
        haccept.bind (Runs.pure _ _)
      exact (Runs.get parser).bind (hexpect.bind (Runs.pure _ _))
    apply readsAt_advance hinv hrun
    intro _ b rest
    rw [Parser.view_cons (by rwa [hcurrent])]
    subst hcurrent
    constructor
    · intro h
      obtain ⟨hb, hrest⟩ := List.cons.inj h
      rw [hb]
      exact ⟨rfl, hrest.symm⟩
    · rintro ⟨rfl, rfl⟩
      rfl
  · have haccept : Runs (parserAccept type) parser false parser := by
      refine (runs_parserCheck type parser).bind ?_
      rw [beq_eq_false_iff_ne.2 hcurrent]
      exact Runs.pure _ _
    have hexpect : Runs (parserExpect type) parser ⟨⟩ { parser with
        error := some (parser.error.getD ⟨.parser, (text "Unexpected token").take 255⟩) } :=
      haccept.bind (runs_parserSetError _ _ parser)
    refine readsAt_error hinv ((Runs.get parser).bind (hexpect.bind (Runs.pure _ _))) ?_
    intro b rest hview
    unfold Parser.view at hview
    split at hview
    · cases hview
    · exact hcurrent (by rw [(List.cons.inj hview).1])

end Maxql
