import Maxql.Parser.Grammar
import Maxql.Parser.Parser

/-!
# What the parser accepts

Every function of the parser reads what the grammar prints for its result, and
`parse_query` reads a statement up to the end of the input.

* `reads_parseList`: lists;
* `reads_parseSelect` to `reads_parseTruncateTable`: the statements;
* `reads_parseQuery`: all of them.
-/

namespace Maxql

open Program Bytes

/-! ## Items -/

theorem reads_parseIdent :
    Reads parserReader parseIdent fun ts a rest => ts = identToken a :: rest :=
  reads_parseLexeme .ident TokenType.noConfusion

/-- A name is not empty. -/
theorem reads_parseIdent_ne_nil :
    Reads parserReader parseIdent fun ts a rest => ts = identToken a :: rest ∧ a ≠ [] := by
  intro parser hinv
  refine (reads_parseIdent parser hinv).congr fun a rest => ?_
  constructor
  · intro h
    refine ⟨h, ?_⟩
    have hgenuine := hinv.genuine
    by_cases heof : parser.current.type = .eof
    · rw [show parserReader.view parser = [] from Parser.view_eof heof] at h
      cases h
    · rw [show parserReader.view parser = _ from Parser.view_cons heof] at h
      rw [(List.cons.inj h).1] at hgenuine
      obtain h | ⟨w, hw⟩ := hgenuine
      · cases h
      · generalize ht : identToken a = t at hw
        cases hw with
        | ident => cases ht; exact List.cons_ne_nil _ _
        | symbol htype => cases ht; exact absurd rfl htype
        | _ => cases ht
  · exact fun h => h.1

theorem LiteralType.tokenType_injective {a b : LiteralType} (h : a.tokenType = b.tokenType) :
    a = b := by
  cases a <;> cases b <;> first | rfl | cases h

/-- A literal whose type the current token has. -/
theorem readsAt_literal {parser : Parser} (hinv : parser.Inv) (type : LiteralType)
    (htype : parser.current.type = type.tokenType) :
    ReadsAt parserReader
      (parseLexeme type.tokenType >>= fun value => (pure { type, value } : Prog Parser RawValue))
      parser fun ts value rest => ts = value.token :: rest := by
  have heof : type.tokenType ≠ .eof := by cases type <;> exact TokenType.noConfusion
  have hseq := (reads_parseLexeme _ heof).bind fun value =>
    (Reads.pure (RawValue.mk type value) : Reads parserReader _ _)
  refine (hseq parser hinv).congr fun value rest => ?_
  constructor
  · rintro ⟨lexeme, mid, hview, rfl, rfl⟩
    exact hview
  · intro hview
    have hcurrent : parser.view = _ := Parser.view_cons (by rw [htype]; exact heof)
    rw [show parser.view = _ from hview] at hcurrent
    have htoken : value.token = parser.current := (List.cons.inj hcurrent).1
    have hvalue : value.type = type :=
      LiteralType.tokenType_injective ((congrArg Token.type htoken).trans htype)
    refine ⟨value.value, rest, ?_, ?_, rfl⟩
    · rw [hview, RawValue.token, hvalue]
    · rw [← hvalue]

theorem reads_parseValue :
    Reads parserReader parseValue fun ts value rest => ts = value.token :: rest := by
  intro parser hinv
  unfold parseValue
  refine ReadsAt.look (runs_parserCheck .number parser) ?_
  by_cases hnumber : parser.current.type = .number
  · rw [if_pos (beq_iff_eq.2 hnumber)]
    exact readsAt_literal hinv .number hnumber
  rw [if_neg (by simpa using hnumber)]
  refine ReadsAt.look (runs_parserCheck .string parser) ?_
  by_cases hstring : parser.current.type = .string
  · rw [if_pos (beq_iff_eq.2 hstring)]
    exact readsAt_literal hinv .string hstring
  rw [if_neg (by simpa using hstring)]
  refine ReadsAt.look (runs_parserCheck .hex parser) ?_
  by_cases hhex : parser.current.type = .hex
  · rw [if_pos (beq_iff_eq.2 hhex)]
    exact readsAt_literal hinv .hex hhex
  rw [if_neg (by simpa using hhex)]
  refine readsAt_error hinv ((runs_parserSetError _ _ parser).bind (Runs.pure _ _)) ?_
  intro value rest hview
  unfold Parser.view at hview
  split at hview
  · cases hview
  · have htoken : parser.current = value.token := (List.cons.inj hview).1
    rw [htoken] at hnumber hstring hhex
    cases hvalue : value.type <;> simp_all [RawValue.token, LiteralType.tokenType]

theorem reads_parseComparisonOp : Reads parserReader parseComparisonOp fun ts op rest =>
    ts = symbolToken op.tokenType :: rest := by
  intro parser hinv
  unfold parseComparisonOp
  refine ReadsAt.look (Runs.get parser) ?_
  cases hop : comparisonOp parser.current.type with
  | some op =>
    have htype : parser.current.type = op.tokenType := by
      cases htype : parser.current.type <;> rw [htype] at hop <;> cases hop <;> rfl
    have hcurrent : parser.current = symbolToken op.tokenType :=
      hinv.genuine.eq_symbol htype (by cases op <;> exact List.cons_ne_nil _ _)
    refine readsAt_advance hinv ((runs_parserNext parser).bind (Runs.pure _ _)) ?_
    intro _ b rest
    rw [Parser.view_cons (by rw [htype]; cases op <;> exact TokenType.noConfusion), hcurrent]
    constructor
    · intro h
      obtain ⟨hb, hrest⟩ := List.cons.inj h
      refine ⟨?_, hrest.symm⟩
      have hb : op.tokenType = b.tokenType := congrArg Token.type hb
      cases op <;> cases b <;> first | rfl | cases hb
    · rintro ⟨rfl, rfl⟩
      rfl
  | none =>
    refine readsAt_error hinv ((runs_parserSetError _ _ parser).bind (Runs.pure _ _)) ?_
    intro op rest hview
    unfold Parser.view at hview
    split at hview
    · cases hview
    · rw [(List.cons.inj hview).1] at hop
      cases op <;> cases hop

/-- A name with a length in parentheses, which may be left out. -/
theorem reads_lengthPart {α : Type} (make : Text → Text → Bool → α) :
    Reads parserReader
      (do
        let name ← parseIdent
        if ← parserAccept .lparen then
          let len ← parseNumber
          parserExpect .rparen
          return make name len true
        else return make name [] false)
      fun ts a rest => ∃ name len hasLen, a = make name len hasLen ∧
        ts = identToken name :: (lenTokens hasLen len ++ rest) ∧ LenFormed hasLen len ∧
        LenEnds hasLen rest := by
  refine (reads_parseIdent.bind fun name => Reads.branch
    (reads_parserAccept .lparen (List.cons_ne_nil _ _))
    ((reads_parseLexeme .number TokenType.noConfusion).bind fun len =>
      (reads_parserExpect .rparen (List.cons_ne_nil _ _)).bind fun _ =>
        Reads.pure (make name len true))
    (Reads.pure (make name [] false))).congr ?_
  intro ts a rest
  constructor
  · rintro ⟨name, mid, rfl, ⟨_, rfl, len, _, rfl, _, _, rfl, rfl, rfl⟩ | ⟨hhead, rfl, rfl⟩⟩
    · exact ⟨name, len, true, rfl, rfl, fun h => (by cases h), fun h => (by cases h)⟩
    · exact ⟨name, [], false, rfl, rfl, fun _ => rfl, fun _ => hhead⟩
  · rintro ⟨name, len, hasLen, rfl, rfl, hformed, hends⟩
    refine ⟨name, _, rfl, ?_⟩
    cases hasLen with
    | true => exact .inl ⟨_, rfl, len, _, rfl, (), _, rfl, rfl, rfl⟩
    | false =>
      obtain rfl := hformed rfl
      exact .inr ⟨hends rfl, rfl, rfl⟩

theorem reads_parseIndexKeyPart : Reads parserReader parseIndexKeyPart
    (Grammar.Printed IndexKeyPart.tokens (fun part => LenFormed part.hasKeyLen part.keyLen)
      fun part => LenEnds part.hasKeyLen) := by
  refine (reads_lengthPart IndexKeyPart.mk).congr fun ts part rest => ?_
  constructor
  · rintro ⟨name, len, hasLen, rfl, rfl, hformed, hends⟩
    exact ⟨rfl, hformed, hends⟩
  · rintro ⟨rfl, hformed, hends⟩
    exact ⟨_, _, _, rfl, rfl, hformed, hends⟩

theorem reads_parseColumnType : Reads parserReader parseColumnType
    (Grammar.Printed ColumnTypeDef.tokens (fun type => LenFormed type.hasLen type.len)
      fun type => LenEnds type.hasLen) := by
  refine (reads_lengthPart ColumnTypeDef.mk).congr fun ts type rest => ?_
  constructor
  · rintro ⟨name, len, hasLen, rfl, rfl, hformed, hends⟩
    exact ⟨rfl, hformed, hends⟩
  · rintro ⟨rfl, hformed, hends⟩
    exact ⟨_, _, _, rfl, rfl, hformed, hends⟩

theorem reads_parseAssignment : Reads parserReader parseAssignment
    (Grammar.Printed Assignment.tokens (fun _ => True) fun _ _ => True) := by
  refine (reads_parseIdent.bind fun column =>
    (reads_parserExpect .equals (List.cons_ne_nil _ _)).bind fun _ =>
      reads_parseValue.bind fun value => Reads.pure (Assignment.mk column value)).congr ?_
  intro ts a rest
  constructor
  · rintro ⟨column, _, rfl, _, _, rfl, value, _, rfl, rfl, rfl⟩
    exact ⟨rfl, trivial, trivial⟩
  · rintro ⟨rfl, -, -⟩
    exact ⟨a.column, _, rfl, (), _, rfl, a.value, _, rfl, rfl, rfl⟩

theorem reads_parseCondition : Reads parserReader parseCondition
    (Grammar.Printed Condition.tokens (fun _ => True) fun _ _ => True) := by
  refine (reads_parseIdent.bind fun column => reads_parseComparisonOp.bind fun op =>
    reads_parseValue.bind fun value => Reads.pure (Condition.mk column op value)).congr ?_
  intro ts c rest
  constructor
  · rintro ⟨column, _, rfl, op, _, rfl, value, _, rfl, rfl, rfl⟩
    exact ⟨rfl, trivial, trivial⟩
  · rintro ⟨rfl, -, -⟩
    exact ⟨c.column, _, rfl, c.op, _, rfl, c.value, _, rfl, rfl, rfl⟩

theorem reads_parseColumnDef : Reads parserReader parseColumnDef
    (Grammar.Printed ColumnDef.tokens ColumnDef.Formed ColumnDef.Ends) := by
  refine (reads_parseIdent.bind fun column => reads_parseColumnType.bind fun type =>
    Reads.branch (reads_parserAcceptKeyword (text "default"))
      (reads_parseValue.bind fun value => Reads.pure (ColumnDef.mk column type true value))
      (Reads.pure (ColumnDef.mk column type false noValue))).congr ?_
  intro ts d rest
  constructor
  · rintro ⟨column, _, rfl, type, _, ⟨rfl, hformed, hends⟩,
      ⟨_, rfl, value, _, rfl, rfl, rfl⟩ | ⟨hhead, rfl, rfl⟩⟩
    · exact ⟨by simp [ColumnDef.tokens], ⟨hformed, fun h => (by cases h)⟩,
        fun h => (by cases h)⟩
    · exact ⟨by simp [ColumnDef.tokens], ⟨hformed, fun _ => rfl⟩, fun _ => ⟨hends, hhead⟩⟩
  · rintro ⟨rfl, hformed, hends⟩
    obtain ⟨column, type, hasDefault, defaultValue⟩ := d
    cases hasDefault with
    | true =>
      refine ⟨column, _, rfl, type, _, ⟨?_, hformed.type, ?_⟩, .inl ⟨_, rfl, defaultValue, _, rfl,
        rfl, rfl⟩⟩
      · simp
      · exact fun _ h => (by cases h)
    | false =>
      obtain rfl : defaultValue = noValue := hformed.noDefault rfl
      obtain ⟨hlen, hhead⟩ := hends rfl
      refine ⟨column, _, rfl, type, rest, ⟨?_, hformed.type, hlen⟩, .inr ⟨hhead, rfl, rfl⟩⟩
      simp

/-! ## Lists -/

theorem length_lexerTokens_le (lexer : Lexer) : (lexerTokens lexer).length ≤ lexer.length := by
  induction lexer using lexerTokens.induct with
  | case1 lexer heof =>
    rw [lexerTokens_eof heof]
    exact Nat.zero_le _
  | case2 lexer heof ih =>
    rw [lexerTokens_cons heof, List.length_cons]
    exact Nat.lt_of_le_of_lt ih (lexerNext_shorter lexer heof)

theorem Parser.length_view_le (parser : Parser) :
    parser.view.length ≤ parser.lexer.length + 1 := by
  unfold Parser.view
  split
  · exact Nat.zero_le _
  · exact Nat.succ_le_succ (length_lexerTokens_le parser.lexer)

theorem Parser.view_advance_lt {parser : Parser} (hinv : parser.Inv)
    (h : parser.current.type ≠ .eof) : parser.advance.view.length < parser.view.length := by
  rw [Parser.view_advance hinv, Parser.view_cons h]
  exact Nat.lt_succ_self _

/-- A separator is a token. -/
theorem parserAccept_shorter {type : TokenType} (htype : type ≠ .eof) (parser parser' : Parser)
    (hinv : parser.Inv) (hrun : Runs (parserAccept type) parser true parser') :
    parser'.view.length < parser.view.length := by
  have hcheck : Runs _ parser true parser' := (runs_parserCheck type parser).rest hrun
  by_cases hcurrent : parser.current.type = type
  · rw [beq_iff_eq.2 hcurrent] at hcheck
    obtain ⟨-, rfl⟩ := hcheck.unique ((runs_parserNext parser).bind (Runs.pure true _))
    exact Parser.view_advance_lt hinv (by rwa [hcurrent])
  · rw [beq_eq_false_iff_ne.2 hcurrent] at hcheck
    obtain ⟨h, -⟩ := hcheck.unique (Runs.pure false parser)
    cases h

theorem parserAcceptKeyword_shorter (keyword : Text) (parser parser' : Parser)
    (hinv : parser.Inv) (hrun : Runs (parserAcceptKeyword keyword) parser true parser') :
    parser'.view.length < parser.view.length := by
  have hcheck : Runs _ parser true parser' := (runs_parserCheck .ident parser).rest hrun
  by_cases hcurrent : parser.current.type = .ident
  · rw [beq_iff_eq.2 hcurrent] at hcheck
    have hget : Runs _ parser true parser' := (Runs.get parser).rest hcheck
    by_cases hlexeme : parser.current.lexeme = keyword
    · rw [hlexeme, bne_self_eq_false] at hget
      obtain ⟨-, rfl⟩ := hget.unique ((runs_parserNext parser).bind (Runs.pure true _))
      exact Parser.view_advance_lt hinv (by rw [hcurrent]; exact TokenType.noConfusion)
    · rw [bne_iff_ne.2 hlexeme] at hget
      obtain ⟨h, -⟩ := hget.unique (Runs.pure false parser)
      cases h
  · rw [beq_eq_false_iff_ne.2 hcurrent] at hcheck
    obtain ⟨h, -⟩ := hcheck.unique (Runs.pure false parser)
    cases h

/-- The grammar of a list of printed items. -/
def ListOf {α : Type} (t : Token) (tokens : α → List Token) (Formed : α → Prop)
    (Ends : α → List Token → Prop) : Grammar Token (List α) :=
  Grammar.Printed (Grammar.separated t tokens) (fun as => as ≠ [] ∧ ∀ a ∈ as, Formed a)
    fun as rest => rest.head? ≠ some t ∧ ∀ a ∈ as.getLast?, Ends a rest

theorem reads_parseList {α : Type} {item : Prog Parser α} {sep : Prog Parser Bool} {t : Token}
    {tokens : α → List Token} {Formed : α → Prop} {Ends : α → List Token → Prop}
    (hitem : Reads parserReader item (Grammar.Printed tokens Formed Ends))
    (hsep : Reads parserReader sep (Grammar.accept t))
    (hshorter : ∀ parser parser', parser.Inv → Runs sep parser true parser' →
      parser'.view.length < parser.view.length)
    (hends : ∀ a rest, Ends a (t :: rest)) :
    Reads parserReader (parseList item sep) (ListOf t tokens Formed Ends) := by
  intro parser hinv
  refine ReadsAt.look (Runs.get parser) ?_
  have hfuel : parser.view.length < parser.lexer.length + 2 :=
    Nat.lt_succ_of_le parser.length_view_le
  exact (readsAt_sepBy hitem hsep hshorter hinv hfuel).congr fun _ _ =>
    Grammar.sepBy_printed hends

theorem reads_identItem : Reads parserReader parseIdent
    (Grammar.Printed (fun name => [identToken name]) (fun _ => True) fun _ _ => True) :=
  reads_parseIdent.congr fun _ _ _ => ⟨fun h => ⟨h, trivial, trivial⟩, fun h => h.1⟩

theorem reads_parseIdentList : Reads parserReader parseIdentList
    (ListOf comma (fun name => [identToken name]) (fun _ => True) fun _ _ => True) :=
  reads_parseList reads_identItem (reads_parserAccept .comma (List.cons_ne_nil _ _))
    (parserAccept_shorter TokenType.noConfusion) fun _ _ => trivial

theorem reads_parseIndexKeyPartList : Reads parserReader parseIndexKeyPartList
    (ListOf comma IndexKeyPart.tokens (fun part => LenFormed part.hasKeyLen part.keyLen)
      fun part => LenEnds part.hasKeyLen) :=
  reads_parseList reads_parseIndexKeyPart (reads_parserAccept .comma (List.cons_ne_nil _ _))
    (parserAccept_shorter TokenType.noConfusion) fun _ _ _ h => (by cases h)

theorem reads_parseAssignmentList : Reads parserReader parseAssignmentList
    (ListOf comma Assignment.tokens (fun _ => True) fun _ _ => True) :=
  reads_parseList reads_parseAssignment (reads_parserAccept .comma (List.cons_ne_nil _ _))
    (parserAccept_shorter TokenType.noConfusion) fun _ _ => trivial

theorem reads_parseConditionList : Reads parserReader parseConditionList
    (ListOf (identToken (text "and")) Condition.tokens (fun _ => True) fun _ _ => True) :=
  reads_parseList reads_parseCondition (reads_parserAcceptKeyword _)
    (parserAcceptKeyword_shorter _) fun _ _ => trivial

theorem reads_parseColumnDefList : Reads parserReader parseColumnDefList
    (ListOf comma ColumnDef.tokens ColumnDef.Formed ColumnDef.Ends) :=
  reads_parseList reads_parseColumnDef (reads_parserAccept .comma (List.cons_ne_nil _ _))
    (parserAccept_shorter TokenType.noConfusion) fun _ _ _ => ⟨fun _ h => (by cases h),
      fun h => (by cases h)⟩

/-! ## Statements -/

/-- A statement up to the end of the input. -/
def Ended {α : Type} (make : α → Query) (tokens : α → List Token) (Formed : α → Prop) :
    Grammar Token Query :=
  fun ts q rest => rest = [] ∧
    ∃ stmt ending, q = make stmt ∧ Formed stmt ∧ Ending ending ∧ ts = tokens stmt ++ ending

/-- The lines that end every statement. -/
theorem reads_end (q : Query) :
    Reads parserReader
      (do
        let _ ← parserAccept .semicolon
        parserExpect .eof
        return q)
      fun ts b rest => b = q ∧ rest = [] ∧ Ending ts := by
  refine ((reads_parserAccept .semicolon (List.cons_ne_nil _ _)).bind fun _ =>
    reads_parserExpectEof.bind fun _ => Reads.pure q).congr ?_
  intro ts b rest
  constructor
  · rintro ⟨_, _, ⟨-, rfl⟩ | ⟨-, -, rfl⟩, _, _, ⟨rfl, rfl⟩, rfl, rfl⟩
    · exact ⟨rfl, rfl, .inr rfl⟩
    · exact ⟨rfl, rfl, .inl rfl⟩
  · rintro ⟨rfl, rfl, rfl | rfl⟩
    · exact ⟨false, [], .inr ⟨rfl, nofun, rfl⟩, (), [], ⟨rfl, rfl⟩, rfl, rfl⟩
    · exact ⟨true, [], .inl ⟨rfl, rfl⟩, (), [], ⟨rfl, rfl⟩, rfl, rfl⟩

/-- No keyword and no bracket follows a statement. -/
theorem Ending.head_ne {ts : List Token} (h : Ending ts) {t : Token}
    (ht : t ≠ symbolToken .semicolon) : ts.head? ≠ some t := by
  obtain rfl | rfl := h
  · exact nofun
  · exact fun heq => ht (Option.some.inj heq).symm

theorem reads_parseDelete : Reads parserReader parseDelete
    (Ended .delete DeleteStmt.tokens fun stmt => stmt.conditions ≠ []) := by
  refine ((reads_parserExpectKeyword _).bind fun _ => reads_parseIdent.bind fun table =>
    (reads_parserExpectKeyword _).bind fun _ => reads_parseConditionList.bind fun conditions =>
      reads_end (.delete { table, conditions })).congr ?_
  intro ts q rest
  constructor
  · rintro ⟨_, _, rfl, table, _, rfl, _, _, rfl, conditions, ending, ⟨rfl, ⟨hne, -⟩, -⟩, rfl, rfl,
      hending⟩
    exact ⟨rfl, ⟨table, conditions⟩, ending, rfl, hne, hending, by simp [DeleteStmt.tokens,
      conditionList]⟩
  · rintro ⟨rfl, stmt, ending, rfl, hne, hending, rfl⟩
    refine ⟨(), _, rfl, stmt.table, _, rfl, (), _, rfl, stmt.conditions, ending,
      ⟨rfl, ⟨hne, fun _ _ => trivial⟩, hending.head_ne nofun, fun _ _ => trivial⟩, rfl, rfl,
      hending⟩

theorem reads_parseInsert : Reads parserReader parseInsert
    (Ended .insert InsertStmt.tokens fun stmt => stmt.assignments ≠ []) := by
  refine ((reads_parserExpectKeyword _).bind fun _ => reads_parseIdent.bind fun table =>
    (reads_parserExpectKeyword _).bind fun _ => reads_parseAssignmentList.bind fun assignments =>
      reads_end (.insert { table, assignments })).congr ?_
  intro ts q rest
  constructor
  · rintro ⟨_, _, rfl, table, _, rfl, _, _, rfl, assignments, ending, ⟨rfl, ⟨hne, -⟩, -⟩, rfl,
      rfl, hending⟩
    exact ⟨rfl, ⟨table, assignments⟩, ending, rfl, hne, hending, by simp [InsertStmt.tokens,
      assignmentList]⟩
  · rintro ⟨rfl, stmt, ending, rfl, hne, hending, rfl⟩
    exact ⟨(), _, rfl, stmt.table, _, rfl, (), _, rfl, stmt.assignments, ending,
      ⟨rfl, ⟨hne, fun _ _ => trivial⟩, hending.head_ne nofun, fun _ _ => trivial⟩, rfl, rfl,
      hending⟩

theorem reads_parseUpdate : Reads parserReader parseUpdate
    (Ended .update UpdateStmt.tokens
      fun stmt => stmt.assignments ≠ [] ∧ stmt.conditions ≠ []) := by
  refine (reads_parseIdent.bind fun table => (reads_parserExpectKeyword _).bind fun _ =>
    reads_parseAssignmentList.bind fun assignments => (reads_parserExpectKeyword _).bind fun _ =>
      reads_parseConditionList.bind fun conditions =>
        reads_end (.update { table, assignments, conditions })).congr ?_
  intro ts q rest
  constructor
  · rintro ⟨table, _, rfl, _, _, rfl, assignments, _, ⟨rfl, ⟨hne, -⟩, -⟩, _, _, rfl, conditions,
      ending, ⟨rfl, ⟨hne', -⟩, -⟩, rfl, rfl, hending⟩
    exact ⟨rfl, ⟨table, assignments, conditions⟩, ending, rfl, ⟨hne, hne'⟩, hending,
      by simp [UpdateStmt.tokens, assignmentList, conditionList]⟩
  · rintro ⟨rfl, stmt, ending, rfl, ⟨hne, hne'⟩, hending, rfl⟩
    refine ⟨stmt.table, _, rfl, (), _, rfl, stmt.assignments,
      identToken (text "where") :: (conditionList stmt.conditions ++ ending),
      ⟨?_, ⟨hne, fun _ _ => trivial⟩, nofun, fun _ _ => trivial⟩, (), _, rfl, stmt.conditions,
      ending, ⟨rfl, ⟨hne', fun _ _ => trivial⟩, hending.head_ne nofun, fun _ _ => trivial⟩, rfl,
      rfl, hending⟩
    simp [assignmentList]

theorem reads_parseCreateTable : Reads parserReader parseCreateTable
    (Ended .createTable CreateTableStmt.tokens
      fun stmt => stmt.columnDefs ≠ [] ∧ ∀ d ∈ stmt.columnDefs, d.Formed) := by
  refine (reads_parseIdent.bind fun table =>
    (reads_parserExpect .lparen (List.cons_ne_nil _ _)).bind fun _ =>
      reads_parseColumnDefList.bind fun columnDefs =>
        (reads_parserExpect .rparen (List.cons_ne_nil _ _)).bind fun _ =>
          reads_end (.createTable { table, columnDefs })).congr ?_
  intro ts q rest
  constructor
  · rintro ⟨table, _, rfl, _, _, rfl, columnDefs, _, ⟨rfl, hformed, -⟩, _, ending, rfl, rfl, rfl,
      hending⟩
    exact ⟨rfl, ⟨table, columnDefs⟩, ending, rfl, hformed, hending,
      by simp [CreateTableStmt.tokens, lparen, rparen]⟩
  · rintro ⟨rfl, stmt, ending, rfl, hformed, hending, rfl⟩
    refine ⟨stmt.table, _, rfl, (), _, rfl, stmt.columnDefs, symbolToken .rparen :: ending,
      ⟨?_, hformed, nofun, ?_⟩, (), ending, rfl, rfl, rfl, hending⟩
    · simp [rparen]
    · exact fun _ _ _ => ⟨fun _ => nofun, nofun⟩

theorem reads_parseCreateIndex (isUnique : Bool) : Reads parserReader (parseCreateIndex isUnique)
    (Ended .createIndex CreateIndexStmt.tokens fun stmt => stmt.isUnique = isUnique ∧
      stmt.keyParts ≠ [] ∧ ∀ part ∈ stmt.keyParts, LenFormed part.hasKeyLen part.keyLen) := by
  refine (reads_parseIdent.bind fun name => (Reads.branch (reads_parserAcceptKeyword (text "using"))
    reads_parseIdent_ne_nil (Reads.pure [])).bind fun type =>
      (reads_parserExpectKeyword (text "on")).bind fun _ => reads_parseIdent.bind fun table =>
        (reads_parserExpect .lparen (List.cons_ne_nil _ _)).bind fun _ =>
          reads_parseIndexKeyPartList.bind fun keyParts =>
            (reads_parserExpect .rparen (List.cons_ne_nil _ _)).bind fun _ =>
              reads_end (.createIndex { isUnique, name, type, table, keyParts })).congr ?_
  intro ts q rest
  constructor
  · rintro ⟨name, _, rfl, type, _, htype, _, _, rfl, table, _, rfl, _, _, rfl, keyParts, _,
      ⟨rfl, hformed, -⟩, _, ending, rfl, rfl, rfl, hending⟩
    refine ⟨rfl, ⟨isUnique, name, type, table, keyParts⟩, ending, rfl, ⟨rfl, hformed⟩, hending, ?_⟩
    obtain ⟨_, rfl, rfl, hne⟩ | ⟨-, rfl, rfl⟩ := htype
    · simp [CreateIndexStmt.tokens, hne, lparen, rparen]
    · simp [CreateIndexStmt.tokens, lparen, rparen]
  · rintro ⟨rfl, stmt, ending, rfl, ⟨rfl, hformed⟩, hending, rfl⟩
    refine ⟨stmt.name, _, rfl, stmt.type,
      identToken (text "on") :: identToken stmt.table :: lparen ::
      (Grammar.separated comma IndexKeyPart.tokens stmt.keyParts ++ rparen :: ending), ?_, (), _,
      rfl, stmt.table, _, rfl, (), _, rfl, stmt.keyParts, _,
      ⟨rfl, hformed, nofun, fun _ _ _ => nofun⟩, (), ending, rfl, rfl, rfl, hending⟩
    by_cases hne : stmt.type = []
    · exact .inr ⟨by simp [hne, identToken, text], hne, by simp [hne]⟩
    · exact .inl ⟨_, by simp [hne], rfl, hne⟩

theorem identList_head {names : List Text} (h : names ≠ []) (rest : List Token) :
    (identList names ++ rest).head? = some (identToken (names.head h)) := by
  match names, h with
  | [name], _ => rfl
  | name :: other :: names, _ => rfl

theorem whereTokens_head {conditions : List Condition} {ending : List Token}
    (hending : Ending ending) {t : Token} (hsemicolon : t ≠ symbolToken .semicolon)
    (hwhere : t ≠ identToken (text "where")) :
    (whereTokens conditions ++ ending).head? ≠ some t := by
  unfold whereTokens
  split
  · exact hending.head_ne hsemicolon
  · exact fun h => hwhere (Option.some.inj h).symm

theorem reads_parseSelect : Reads parserReader parseSelect
    (Ended .select SelectStmt.tokens fun _ => True) := by
  refine ((Reads.branch (reads_parserAccept .star (List.cons_ne_nil _ _))
    (Reads.pure []) reads_parseIdentList).bind fun columns =>
      (reads_parserExpectKeyword (text "from")).bind fun _ => reads_parseIdent.bind fun table =>
        (reads_parserAcceptKeyword (text "ignore_index")).bind fun ignoreIndex =>
          (Reads.branch (reads_parserAcceptKeyword (text "where")) reads_parseConditionList
            (Reads.pure [])).bind fun conditions =>
              reads_end (.select { columns, table, ignoreIndex, conditions })).congr ?_
  intro ts q rest
  constructor
  · rintro ⟨columns, _, hcolumns, _, _, rfl, table, _, rfl, ignoreIndex, _, hignore, conditions,
      ending, hconditions, rfl, rfl, hending⟩
    refine ⟨rfl, ⟨columns, table, ignoreIndex, conditions⟩, ending, rfl, trivial, hending, ?_⟩
    have hwhere : ∀ ts, Grammar.branch (identToken (text "where")) (ListOf (identToken (text "and"))
        Condition.tokens (fun _ => True) fun _ _ => True) (Grammar.ret []) ts conditions ending →
        ts = whereTokens conditions ++ ending := by
      rintro ts (⟨_, rfl, rfl, ⟨hne, -⟩, -⟩ | ⟨-, rfl, rfl⟩)
      · simp [whereTokens, hne, conditionList]
      · rfl
    obtain rfl := hwhere _ hconditions
    obtain ⟨_, rfl, rfl, rfl⟩ | ⟨-, rfl, ⟨hne, -⟩, -⟩ := hcolumns <;>
      obtain ⟨rfl, rfl⟩ | ⟨rfl, -, rfl⟩ := hignore
    · simp [SelectStmt.tokens]
    · simp [SelectStmt.tokens]
    · simp [SelectStmt.tokens, hne, identList]
    · simp [SelectStmt.tokens, hne, identList]
  · rintro ⟨rfl, stmt, ending, rfl, -, hending, rfl⟩
    refine ⟨stmt.columns, identToken (text "from") :: identToken stmt.table ::
        ((if stmt.ignoreIndex then [identToken (text "ignore_index")] else []) ++
          (whereTokens stmt.conditions ++ ending)), ?_, (), _, rfl, stmt.table, _, rfl,
      stmt.ignoreIndex, whereTokens stmt.conditions ++ ending, ?_, stmt.conditions, ending, ?_, rfl,
      rfl, hending⟩
    · by_cases hne : stmt.columns = []
      · exact .inl ⟨_, by simp [SelectStmt.tokens, hne], hne, rfl⟩
      · have hhead := identList_head hne (identToken (text "from") :: identToken stmt.table ::
          ((if stmt.ignoreIndex then [identToken (text "ignore_index")] else []) ++
            (whereTokens stmt.conditions ++ ending)))
        refine .inr ⟨?_, by simp [SelectStmt.tokens, hne, identList], ⟨hne, fun _ _ => trivial⟩,
          nofun, fun _ _ => trivial⟩
        simp only [SelectStmt.tokens, if_neg hne, List.append_assoc, List.cons_append]
        rw [hhead]
        exact nofun
    · cases hignore : stmt.ignoreIndex with
      | true => exact .inl ⟨rfl, by simp⟩
      | false => exact .inr ⟨rfl, whereTokens_head hending (by decide) (by decide), by simp⟩
    · by_cases hne : stmt.conditions = []
      · have hhead : ending.head? ≠ some (identToken (text "where")) := hending.head_ne nofun
        exact .inr ⟨by simpa [hne, whereTokens] using hhead, hne, by simp [hne, whereTokens]⟩
      · exact .inl ⟨_, by simp [whereTokens, hne, conditionList], rfl, ⟨hne, fun _ _ => trivial⟩,
          hending.head_ne nofun, fun _ _ => trivial⟩

/-- A name up to the end of the input. -/
theorem reads_named (make : Text → Query) :
    Reads parserReader
      (do
        let table ← parseIdent
        let _ ← parserAccept .semicolon
        parserExpect .eof
        return make table)
      (Ended make (fun table => [identToken table]) fun _ => True) := by
  refine (reads_parseIdent.bind fun table => reads_end (make table)).congr ?_
  intro ts q rest
  constructor
  · rintro ⟨table, ending, rfl, rfl, rfl, hending⟩
    exact ⟨rfl, table, ending, rfl, trivial, hending, rfl⟩
  · rintro ⟨rfl, table, ending, rfl, -, hending, rfl⟩
    exact ⟨table, ending, rfl, rfl, rfl, hending⟩

/-- A statement without a body. -/
theorem reads_bare (q : Query) :
    Reads parserReader
      (do
        let _ ← parserAccept .semicolon
        parserExpect .eof
        return q)
      (Ended (fun _ : Unit => q) (fun _ => []) fun _ => True) := by
  refine (reads_end q).congr ?_
  intro ts b rest
  constructor
  · rintro ⟨rfl, rfl, hending⟩
    exact ⟨rfl, (), ts, rfl, trivial, hending, rfl⟩
  · rintro ⟨rfl, -, ending, rfl, -, hending, rfl⟩
    exact ⟨rfl, rfl, hending⟩

theorem reads_parseShowIndex : Reads parserReader parseShowIndex
    (Ended .showIndex ShowIndexStmt.tokens fun _ => True) := by
  refine ((reads_parserExpectKeyword (text "on")).bind fun _ => reads_parseIdent.bind fun table =>
    reads_end (.showIndex { table })).congr ?_
  intro ts q rest
  constructor
  · rintro ⟨_, _, rfl, table, ending, rfl, rfl, rfl, hending⟩
    exact ⟨rfl, ⟨table⟩, ending, rfl, trivial, hending, rfl⟩
  · rintro ⟨rfl, stmt, ending, rfl, -, hending, rfl⟩
    exact ⟨(), _, rfl, stmt.table, ending, rfl, rfl, rfl, hending⟩

theorem reads_parseDropIndex : Reads parserReader parseDropIndex
    (Ended .dropIndex DropIndexStmt.tokens fun _ => True) := by
  refine (reads_parseIdent.bind fun index => (reads_parserExpectKeyword (text "on")).bind fun _ =>
    reads_parseIdent.bind fun table => reads_end (.dropIndex { index, table })).congr ?_
  intro ts q rest
  constructor
  · rintro ⟨index, _, rfl, _, _, rfl, table, ending, rfl, rfl, rfl, hending⟩
    exact ⟨rfl, ⟨table, index⟩, ending, rfl, trivial, hending, rfl⟩
  · rintro ⟨rfl, stmt, ending, rfl, -, hending, rfl⟩
    exact ⟨stmt.index, _, rfl, (), _, rfl, stmt.table, ending, rfl, rfl, rfl, hending⟩

/-! ## Queries -/

/-- `parse_query` from its `show` alternative on. -/
def parseQueryShow : Prog Parser Query := do
  if ← parserAcceptKeyword (text "show") then
    if ← parserAcceptKeyword (text "tables") then return ← parseShowTables
    if ← parserAcceptKeyword (text "table") then return ← parseShowTable
    if ← parserAcceptKeyword (text "index") then
      if ← parserAcceptKeyword (text "types") then return ← parseShowIndexTypes
      return ← parseShowIndex
    parserSetError .parser (text "Unknown show query")
  parserSetError .parser (text "Expected query type")
  return .unknown

/-- `parse_query` from its `drop` alternative on. -/
def parseQueryDrop : Prog Parser Query := do
  if ← parserAcceptKeyword (text "drop") then
    if ← parserAcceptKeyword (text "table") then return ← parseDropTable
    if ← parserAcceptKeyword (text "index") then return ← parseDropIndex
    parserSetError .parser (text "Unknown drop query")
  if ← parserAcceptKeyword (text "truncate") then return ← parseTruncateTable
  parseQueryShow

theorem parseQuery_eq : parseQuery = (do
    if ← parserCheck .ident then
      if ← parserAcceptKeyword (text "select") then return ← parseSelect
      if ← parserAcceptKeyword (text "delete") then return ← parseDelete
      if ← parserAcceptKeyword (text "insert") then return ← parseInsert
      if ← parserAcceptKeyword (text "update") then return ← parseUpdate
      if ← parserAcceptKeyword (text "create") then
        if ← parserAcceptKeyword (text "table") then return ← parseCreateTable
        if ← parserAcceptKeyword (text "unique") then
          parserExpectKeyword (text "index")
          return ← parseCreateIndex true
        if ← parserAcceptKeyword (text "index") then return ← parseCreateIndex false
        parserSetError .parser (text "Unknown create query")
      parseQueryDrop
    else
      parserSetError .parser (text "Expected query type")
      return .unknown) := rfl

/-- The end of `parse_query`. -/
theorem reads_unknown :
    Reads parserReader
      (do
        parserSetError .parser (text "Expected query type")
        return .unknown)
      (Grammar.fail : Grammar Token Query) :=
  Reads.fail_bind (reads_parserSetError _ _) fun _ => Reads.pure _

/-- What a query reads: the statement and its end. -/
def WholeQuery (Kind : Query → Prop) : Grammar Token Query :=
  fun ts q rest => rest = [] ∧ Kind q ∧ q.Formed ∧
    ∃ ending, Ending ending ∧ ts = q.tokens ++ ending

theorem keyword_ne {a b : Text} (h : a ≠ b) (ts : List Token) :
    (identToken a :: ts).head? ≠ some (identToken b) := by
  intro heq
  exact h (congrArg Token.lexeme (Option.some.inj heq))

def IsShow : Query → Prop
  | .showTables | .showTable _ | .showIndex _ | .showIndexTypes => True
  | _ => False

theorem reads_parseQueryShow : Reads parserReader parseQueryShow (WholeQuery IsShow) := by
  refine ((reads_parserAcceptKeyword (text "show")).branch
    ((reads_parserAcceptKeyword (text "tables")).branch (reads_bare .showTables)
      ((reads_parserAcceptKeyword (text "table")).branch
        (reads_named fun t => .showTable { table := t })
        ((reads_parserAcceptKeyword (text "index")).branch
          ((reads_parserAcceptKeyword (text "types")).branch (reads_bare .showIndexTypes)
            reads_parseShowIndex)
          (Reads.fail_bind (reads_parserSetError _ _) fun _ => reads_unknown))))
    reads_unknown).congr ?_
  intro ts q rest
  constructor
  · rintro (⟨_, rfl, ⟨_, rfl, rfl, _, ending, rfl, -, hending, rfl⟩ | ⟨-,
      ⟨_, rfl, rfl, table, ending, rfl, -, hending, rfl⟩ | ⟨-,
      ⟨_, rfl, ⟨_, rfl, rfl, _, ending, rfl, -, hending, rfl⟩ | ⟨-, rfl, stmt, ending, rfl, -,
        hending, rfl⟩⟩ | ⟨-, h⟩⟩⟩⟩ | ⟨-, h⟩)
    · exact ⟨rfl, trivial, trivial, _, hending, rfl⟩
    · exact ⟨rfl, trivial, trivial, _, hending, rfl⟩
    · exact ⟨rfl, trivial, trivial, _, hending, rfl⟩
    · exact ⟨rfl, trivial, trivial, _, hending, rfl⟩
    · exact h.elim
    · exact h.elim
  · rintro ⟨rfl, hkind, hformed, ending, hending, rfl⟩
    refine .inl ?_
    cases q with
    | showTables => exact ⟨_, rfl, .inl ⟨_, rfl, rfl, (), ending, rfl, trivial, hending, rfl⟩⟩
    | showTable stmt =>
      exact ⟨_, rfl, .inr ⟨keyword_ne (by decide) _, .inl ⟨_, rfl, rfl, stmt.table, ending, rfl,
        trivial, hending, rfl⟩⟩⟩
    | showIndexTypes =>
      exact ⟨_, rfl, .inr ⟨keyword_ne (by decide) _, .inr ⟨keyword_ne (by decide) _, .inl ⟨_, rfl,
        .inl ⟨_, rfl, rfl, (), ending, rfl, trivial, hending, rfl⟩⟩⟩⟩⟩
    | showIndex stmt =>
      exact ⟨_, rfl, .inr ⟨keyword_ne (by decide) _, .inr ⟨keyword_ne (by decide) _, .inl ⟨_, rfl,
        .inr ⟨keyword_ne (by decide) _, rfl, stmt, ending, rfl, trivial, hending, rfl⟩⟩⟩⟩⟩
    | _ => exact hkind.elim

def IsDropOn : Query → Prop
  | .dropTable _ | .dropIndex _ | .truncateTable _ => True
  | q => IsShow q

theorem reads_parseQueryDrop : Reads parserReader parseQueryDrop (WholeQuery IsDropOn) := by
  have hrest := (reads_parserAcceptKeyword (text "truncate")).branch
    (reads_named fun t => .truncateTable { table := t }) reads_parseQueryShow
  refine ((reads_parserAcceptKeyword (text "drop")).branch
    ((reads_parserAcceptKeyword (text "table")).branch
      (reads_named fun t => .dropTable { table := t })
      ((reads_parserAcceptKeyword (text "index")).branch reads_parseDropIndex
        (Reads.fail_bind (reads_parserSetError _ _) fun _ => hrest)))
    hrest).congr ?_
  intro ts q rest
  constructor
  · rintro (⟨_, rfl, ⟨_, rfl, rfl, table, ending, rfl, -, hending, rfl⟩ | ⟨-,
      ⟨_, rfl, rfl, stmt, ending, rfl, -, hending, rfl⟩ | ⟨-, h⟩⟩⟩ | ⟨-,
      ⟨_, rfl, rfl, table, ending, rfl, -, hending, rfl⟩ | ⟨-, rfl, hkind, hformed, ending,
        hending, rfl⟩⟩)
    · exact ⟨rfl, trivial, trivial, ending, hending, rfl⟩
    · exact ⟨rfl, trivial, trivial, ending, hending, rfl⟩
    · exact h.elim
    · exact ⟨rfl, trivial, trivial, ending, hending, rfl⟩
    · refine ⟨rfl, ?_, hformed, ending, hending, rfl⟩
      cases q <;> first | exact hkind | exact hkind.elim
  · rintro ⟨rfl, hkind, hformed, ending, hending, rfl⟩
    have hhead : IsShow q → (q.tokens ++ ending).head? ≠ some (identToken (text "drop")) ∧
        (q.tokens ++ ending).head? ≠ some (identToken (text "truncate")) := by
      intro hshow
      constructor <;> cases q <;> first | exact keyword_ne (by decide) _ | exact hshow.elim
    cases q with
    | dropTable stmt =>
      exact .inl ⟨_, rfl, .inl ⟨_, rfl, rfl, stmt.table, ending, rfl, trivial, hending, rfl⟩⟩
    | dropIndex stmt =>
      exact .inl ⟨_, rfl, .inr ⟨keyword_ne (by decide) _, .inl ⟨_, rfl, rfl, stmt, ending, rfl,
        trivial, hending, rfl⟩⟩⟩
    | truncateTable stmt =>
      exact .inr ⟨keyword_ne (by decide) _, .inl ⟨_, rfl, rfl, stmt.table, ending, rfl, trivial,
        hending, rfl⟩⟩
    | _ =>
      obtain ⟨hdrop, htruncate⟩ := hhead hkind
      exact .inr ⟨hdrop, .inr ⟨htruncate, rfl, hkind, hformed, ending, hending, rfl⟩⟩

theorem Query.exists_keyword {q : Query} (h : q.Formed) :
    ∃ keyword ts, q.tokens = identToken keyword :: ts := by
  cases q with
  | unknown => exact h.elim
  | _ => exact ⟨_, _, rfl⟩

/-- A query reads what is printed for it and nothing else. -/
theorem reads_parseQuery : Reads parserReader parseQuery (WholeQuery fun _ => True) := by
  have hcreate := (reads_parserAcceptKeyword (text "create")).branch
    ((reads_parserAcceptKeyword (text "table")).branch reads_parseCreateTable
      ((reads_parserAcceptKeyword (text "unique")).branch
        ((reads_parserExpectKeyword (text "index")).bind fun _ => reads_parseCreateIndex true)
        ((reads_parserAcceptKeyword (text "index")).branch (reads_parseCreateIndex false)
          (Reads.fail_bind (reads_parserSetError .parser (text "Unknown create query"))
            fun _ => reads_parseQueryDrop))))
    reads_parseQueryDrop
  have hrest := (reads_parserAcceptKeyword (text "select")).branch reads_parseSelect
    ((reads_parserAcceptKeyword (text "delete")).branch reads_parseDelete
      ((reads_parserAcceptKeyword (text "insert")).branch reads_parseInsert
        ((reads_parserAcceptKeyword (text "update")).branch reads_parseUpdate hcreate)))
  have hwhole := hrest.congr (H := WholeQuery fun _ => True) fun ts q rest => by
    constructor
    · rintro (⟨_, rfl, rfl, stmt, ending, rfl, -, hending, rfl⟩ | ⟨-,
        ⟨_, rfl, rfl, stmt, ending, rfl, hformed, hending, rfl⟩ | ⟨-,
        ⟨_, rfl, rfl, stmt, ending, rfl, hformed, hending, rfl⟩ | ⟨-,
        ⟨_, rfl, rfl, stmt, ending, rfl, hformed, hending, rfl⟩ | ⟨-,
        ⟨_, rfl, ⟨_, rfl, rfl, stmt, ending, rfl, hformed, hending, rfl⟩ | ⟨-,
          ⟨_, rfl, _, _, rfl, rfl, stmt, ending, rfl, ⟨hunique, hformed⟩, hending, rfl⟩ | ⟨-,
          ⟨_, rfl, rfl, stmt, ending, rfl, ⟨hunique, hformed⟩, hending, rfl⟩ | ⟨-, h⟩⟩⟩⟩ |
        ⟨-, rfl, -, hformed, hdrop⟩⟩⟩⟩⟩)
      · exact ⟨rfl, trivial, trivial, ending, hending, rfl⟩
      · exact ⟨rfl, trivial, hformed, ending, hending, rfl⟩
      · exact ⟨rfl, trivial, hformed, ending, hending, rfl⟩
      · exact ⟨rfl, trivial, hformed, ending, hending, rfl⟩
      · exact ⟨rfl, trivial, hformed, ending, hending, rfl⟩
      · refine ⟨rfl, trivial, hformed, ending, hending, ?_⟩
        simp [Query.tokens, Query.keywords, Query.body, hunique]
      · refine ⟨rfl, trivial, hformed, ending, hending, ?_⟩
        simp [Query.tokens, Query.keywords, Query.body, hunique]
      · exact h.elim
      · exact ⟨rfl, trivial, hformed, hdrop⟩
    · rintro ⟨rfl, -, hformed, ending, hending, rfl⟩
      have hdrop : IsDropOn q →
          (∀ t ∈ [text "select", text "delete", text "insert", text "update", text "create"],
            (q.tokens ++ ending).head? ≠ some (identToken t)) := by
        intro hdrop t ht
        cases q <;> first
          | exact hdrop.elim
          | exact keyword_ne (fun h => absurd (h ▸ ht) (by decide)) _
      cases q with
      | unknown => exact hformed.elim
      | select stmt => exact .inl ⟨_, rfl, rfl, stmt, ending, rfl, trivial, hending, rfl⟩
      | delete stmt =>
        exact .inr ⟨keyword_ne (by decide) _, .inl ⟨_, rfl, rfl, stmt, ending, rfl, hformed,
          hending, rfl⟩⟩
      | insert stmt =>
        exact .inr ⟨keyword_ne (by decide) _, .inr ⟨keyword_ne (by decide) _, .inl ⟨_, rfl, rfl,
          stmt, ending, rfl, hformed, hending, rfl⟩⟩⟩
      | update stmt =>
        exact .inr ⟨keyword_ne (by decide) _, .inr ⟨keyword_ne (by decide) _,
          .inr ⟨keyword_ne (by decide) _, .inl ⟨_, rfl, rfl, stmt, ending, rfl, hformed, hending,
            rfl⟩⟩⟩⟩
      | createTable stmt =>
        exact .inr ⟨keyword_ne (by decide) _, .inr ⟨keyword_ne (by decide) _,
          .inr ⟨keyword_ne (by decide) _, .inr ⟨keyword_ne (by decide) _, .inl ⟨_, rfl,
            .inl ⟨_, rfl, rfl, stmt, ending, rfl, hformed, hending, rfl⟩⟩⟩⟩⟩⟩
      | createIndex stmt =>
        refine .inr ⟨keyword_ne (by decide) _, .inr ⟨keyword_ne (by decide) _,
          .inr ⟨keyword_ne (by decide) _, .inr ⟨keyword_ne (by decide) _, .inl ⟨_, rfl, ?_⟩⟩⟩⟩⟩
        cases hunique : stmt.isUnique with
        | true =>
          exact .inr ⟨keyword_ne (by decide) _, .inl ⟨_, rfl, (), _, rfl, rfl, stmt, ending, rfl,
            ⟨hunique, hformed⟩, hending, rfl⟩⟩
        | false =>
          exact .inr ⟨keyword_ne (by decide) _, .inr ⟨keyword_ne (by decide) _, .inl ⟨_, rfl, rfl,
            stmt, ending, rfl, ⟨hunique, hformed⟩, hending, rfl⟩⟩⟩
      | _ =>
        have hhead := hdrop trivial
        exact .inr ⟨hhead _ (by simp), .inr ⟨hhead _ (by simp), .inr ⟨hhead _ (by simp),
          .inr ⟨hhead _ (by simp), .inr ⟨hhead _ (by simp), rfl, trivial, hformed, ending, hending,
            rfl⟩⟩⟩⟩⟩
  rw [parseQuery_eq]
  intro parser hinv
  refine ReadsAt.look (runs_parserCheck .ident parser) ?_
  by_cases htype : parser.current.type = .ident
  · rw [if_pos (beq_iff_eq.2 htype)]
    exact hwhole parser hinv
  · rw [if_neg (by simpa using htype)]
    refine (reads_unknown parser hinv).congr fun q rest => ⟨False.elim, ?_⟩
    rintro ⟨-, -, hformed, ending, -, hview⟩
    obtain ⟨keyword, ts, htokens⟩ := Query.exists_keyword hformed
    rw [htokens] at hview
    have hcurrent : parser.view = identToken keyword :: (ts ++ ending) := hview
    unfold Parser.view at hcurrent
    split at hcurrent
    · cases hcurrent
    · exact htype (by rw [(List.cons.inj hcurrent).1, identToken])

/-! ## Inputs -/

theorem isIdentifier_spells {name : Text} (h : isIdentifier name = true) :
    Spells (identToken name) name := by
  rw [isIdentifier, Bool.and_eq_true, List.all_eq_true] at h
  cases name with
  | nil => cases h.1
  | cons c cs => exact .ident h.1 fun x hx => h.2 x (List.mem_cons_of_mem _ hx)

theorem isNumber_spells {value : Text} (h : isNumber value = true) :
    Spells (numberToken value) value := by
  simp only [isNumber, Bool.and_eq_true, List.all_eq_true, decide_eq_true_eq] at h
  obtain ⟨⟨hdigit, hall⟩, hdot⟩ := h
  cases value with
  | nil => cases hdigit
  | cons c cs =>
    rw [List.countP_cons] at hdot
    exact .number hdigit (fun x hx => hall x (List.mem_cons_of_mem _ hx)) (by omega)

/-- A valid token has a word. -/
theorem Token.exists_word {t : Token} (h : t.isValid = true) : ∃ w, Spells t w := by
  obtain ⟨type, lexeme⟩ := t
  cases type with
  | ident => exact ⟨lexeme, isIdentifier_spells h⟩
  | number => exact ⟨lexeme, isNumber_spells h⟩
  | hex =>
    simp only [Token.isValid, Bool.and_eq_true, bne_iff_ne, List.all_eq_true] at h
    exact ⟨48 :: 120 :: lexeme, .hex (by decide) h.2 h.1⟩
  | string =>
    simp only [Token.isValid, List.all_eq_true] at h
    refine ⟨quote :: (lexeme ++ [quote]), .string fun hquote => ?_⟩
    have hfalse := h quote hquote
    cases hfalse
  | _ =>
    simp only [Token.isValid, Bool.and_eq_true, bne_iff_ne, beq_iff_eq] at h
    obtain ⟨hne, rfl⟩ := h
    exact ⟨_, .symbol hne⟩

/-- The tokens that words spell. -/
theorem Token.isValid_of_spells {t : Token} {w : Text} (h : Spells t w)
    (hvalid : t.type ≠ .invalid) : t.isValid = true := by
  cases h with
  | @ident c cs hc hcs =>
    have hall : ∀ x ∈ c :: cs, isIdent x = true :=
      List.forall_mem_cons.2 ⟨isIdent_of_identStart hc, hcs⟩
    show (isIdentStart c && (c :: cs).all isIdent) = true
    rw [hc, List.all_eq_true.2 hall]
    rfl
  | @number c cs hc hcs hdot =>
    have hall : ∀ x ∈ c :: cs, (isDigit x || isDot x) = true :=
      List.forall_mem_cons.2 ⟨by rw [hc]; rfl, hcs⟩
    have hcount : (c :: cs).countP isDot ≤ 1 := by
      rw [List.countP_cons_of_neg (by rw [isDot_of_digit hc]; exact Bool.false_ne_true)]
      exact hdot
    show (isDigit c && (c :: cs).all _ && decide ((c :: cs).countP isDot ≤ 1)) = true
    rw [hc, List.all_eq_true.2 hall, decide_eq_true hcount]
    rfl
  | @hex c ds hc hds hne =>
    show (ds != [] && ds.all isHexDigit) = true
    rw [Bool.and_eq_true, bne_iff_ne]
    exact ⟨hne, List.all_eq_true.2 hds⟩
  | @string cs hcs =>
    show (cs.all fun c => !isQuote c) = true
    rw [List.all_eq_true]
    intro c hc
    rw [Bool.not_eq_true', isQuote, beq_eq_false_iff_ne]
    rintro rfl
    exact hcs hc
  | @symbol type htype => cases type <;> first | rfl | exact absurd rfl htype
  | noDigits => exact absurd rfl hvalid
  | openString => exact absurd rfl hvalid
  | stray => exact absurd rfl hvalid

theorem Token.type_ne_invalid {t : Token} (h : t.isValid = true) : t.type ≠ .invalid := by
  intro htype
  rw [Token.isValid, htype] at h
  cases h

/-- A list of valid tokens can be written down. -/
theorem exists_spaced {ts : List Token} (h : ∀ t ∈ ts, t.isValid = true) :
    ∃ input, lexicon.Spaced ts input := by
  induction ts with
  | nil => exact ⟨[], .done nofun⟩
  | cons t ts ih =>
    obtain ⟨input, hinput⟩ := ih fun t ht => h t (List.mem_cons_of_mem _ ht)
    obtain ⟨w, hw⟩ := Token.exists_word (h t List.mem_cons_self)
    have hblank : lexicon.Spaced ts (32 :: input) := by
      cases hinput with
      | done hgap => exact .done (List.forall_mem_cons.2 ⟨rfl, hgap⟩)
      | @next gap token word rest tokens hgap hword hrest hblank =>
        show lexicon.Spaced _ ((32 :: gap) ++ (word ++ rest))
        exact .next (List.forall_mem_cons.2 ⟨rfl, hgap⟩) hword hrest hblank
    refine ⟨[] ++ (w ++ 32 :: input), .next nofun hw hblank ?_⟩
    intro c hc
    obtain rfl : 32 = c := Option.some.inj hc
    rfl

theorem view_parserInit (input : Text) : (parserInit input).view = lexerTokens input := by
  unfold parserInit Parser.view Parser.advance
  dsimp only
  split
  case isTrue heof => rw [lexerTokens_eof heof]
  case isFalse heof => rw [lexerTokens_cons heof]

theorem parserInit_error {input : Text} (h : ∀ t ∈ lexerTokens input, t.type ≠ .invalid) :
    (parserInit input).error = none := by
  apply if_neg
  intro hinvalid
  have heof : (lexerNext input).1.type ≠ .eof := by
    rw [hinvalid]
    exact TokenType.noConfusion
  rw [lexerTokens_cons heof] at h
  exact h _ List.mem_cons_self hinvalid

/-- Parsing ends on every input, with an error or with a statement that the input spells. -/
theorem parseInput_total (input : Text) : ∃ q e, parseInput input = .ok (q, e) ∧
    (e = none → (∀ t ∈ lexerTokens input, t.type ≠ .invalid) ∧
      WholeQuery (fun _ => True) (lexerTokens input) q []) := by
  obtain ⟨q, parser, hrun, -, -, hsound, -⟩ :=
    reads_parseQuery (parserInit input) (Parser.advance_inv _)
  have hrun : parseQuery.run (parserInit input) = .ok (q, parser) := hrun
  refine ⟨q, parser.error, ?_, fun hok => ?_⟩
  · rw [parseInput, hrun]
    rfl
  · obtain ⟨-, hgood, hwhole⟩ := hsound hok
    rw [show parserReader.view (parserInit input) = _ from view_parserInit input] at hgood hwhole
    rw [hwhole.1] at hgood hwhole
    exact ⟨fun t ht => (hgood t ht).resolve_left nofun, hwhole⟩

/-- A statement that the input spells is returned. -/
theorem parseInput_of_whole {input : Text} {q : Query}
    (hvalid : ∀ t ∈ lexerTokens input, t.type ≠ .invalid)
    (h : WholeQuery (fun _ => True) (lexerTokens input) q []) :
    parseInput input = .ok (q, none) := by
  obtain ⟨q', parser, hrun, -, -, -, hcomplete⟩ :=
    reads_parseQuery (parserInit input) (Parser.advance_inv _)
  have hview : parserReader.view (parserInit input) = lexerTokens input := view_parserInit input
  rw [hview] at hcomplete
  obtain ⟨hok, rfl, -⟩ := hcomplete (parserInit_error hvalid) hvalid q [] h
  have hrun : parseQuery.run (parserInit input) = .ok (q', parser) := hrun
  rw [parseInput, hrun]
  have herror : parser.error = none := hok
  show Except.ok (q', parser.error) = _
  rw [herror]

/-- The parser accepts an input exactly if its tokens are those of a statement, and it reads
the tokens of a statement, written with whitespace between them, as this statement. -/
theorem parseInput_accepts :
    (∀ input : Text, (∃ q, parseInput input = .ok (q, none)) ↔
      ∃ ts, lexicon.Scans input ts ∧ (∀ t ∈ ts, t.type ≠ .invalid) ∧ Sentence ts) ∧
    ∀ q : Query, q.Formed → (∀ t ∈ q.tokens, t.isValid = true) → ∀ ending, Ending ending →
      ∀ input : Text, lexicon.Spaced (q.tokens ++ ending) input →
        parseInput input = .ok (q, none) := by
  constructor
  · intro input
    constructor
    · rintro ⟨q, hq⟩
      obtain ⟨q', e, hrun, hwhole⟩ := parseInput_total input
      obtain ⟨rfl, rfl⟩ : q' = q ∧ e = none := by
        rw [hrun] at hq
        cases hq
        exact ⟨rfl, rfl⟩
      obtain ⟨hvalid, -, -, hformed, ending, hending, htokens⟩ := hwhole rfl
      exact ⟨lexerTokens input, scans_lexerTokens input, hvalid, q', ending, hformed, hending,
        htokens⟩
    · rintro ⟨ts, hscans, hvalid, q, ending, hformed, hending, rfl⟩
      have htokens := scans_iff.1 hscans
      refine ⟨q, parseInput_of_whole ?_ ⟨rfl, trivial, hformed, ending, hending, htokens.symm⟩⟩
      rwa [← htokens]
  · intro q hformed hvalid ending hending input hspaced
    have hall : ∀ t ∈ q.tokens ++ ending, t.type ≠ .invalid := by
      intro t ht
      obtain ht | ht := List.mem_append.1 ht
      · exact Token.type_ne_invalid (hvalid t ht)
      · obtain rfl | rfl := hending
        · cases ht
        · rw [List.mem_singleton.1 ht]
          exact TokenType.noConfusion
    have htokens := scans_of_spaced hspaced hall
    refine parseInput_of_whole ?_ ⟨rfl, trivial, hformed, ending, hending, htokens⟩
    rwa [htokens]

theorem parseInput_accepts_selectAll :
    parseInput (text "select *\n from from")
      = .ok (.select { columns := [], table := text "from", ignoreIndex := false, conditions := [] },
          none) := by
  refine parseInput_accepts.2 (.select ⟨[], text "from", false, []⟩) trivial (by decide) []
    (.inl rfl) _ ?_
  have hkeyword : ∀ name, isIdentifier name = true → lexicon.Spells (identToken name) name :=
    fun _ h => isIdentifier_spells h
  have hblank : ∀ c ∈ [(32 : UInt8)], lexicon.blank c = true := List.all_eq_true.1 rfl
  have hblanks : ∀ c ∈ [(10 : UInt8), 32], lexicon.blank c = true := List.all_eq_true.1 rfl
  have hhead : ∀ {c : UInt8} {cs : Text}, lexicon.blank c = true →
      ∀ d ∈ (c :: cs).head?, lexicon.blank d = true := fun hc d hd => Option.some.inj hd ▸ hc
  show lexicon.Spaced _ ([] ++ (text "select" ++ ([32] ++ ([42] ++ ([10, 32] ++
    (text "from" ++ ([32] ++ (text "from" ++ []))))))))
  refine .next nofun (hkeyword _ (by decide)) (.next hblank ?_ (.next hblanks
    (hkeyword _ (by decide)) (.next hblank (hkeyword _ (by decide)) (.done nofun) nofun)
    (hhead rfl)) (hhead rfl)) (hhead rfl)
  have hstar : Spells (symbolToken .star) (symbolText .star) := .symbol (List.cons_ne_nil _ _)
  exact hstar

end Maxql
