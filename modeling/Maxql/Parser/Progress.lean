import Maxql.Parser.Position
import Maxql.Parser.SchemaParser

/-!
# Parsing ends

What a round of a list loop does to the tokens that are still to be read, from
any state of the parser.  A round of the `do … while` loops that another one
follows has taken a separator.  The loops of the schema parser, where a comma
may be left out and a failed `parser_expect` takes nothing, go on only without
an error, and without an error their item has taken a token.

* `roundProgress_of_reads`: one round;
* `listProgress_of_reads`, `itemsProgress_of_reads`: the loops;
* `parsing_ends`: the lexer, the loops and both parsers.
-/

namespace Maxql

open Program Bytes

/-- From every state an item and its separator are read.  Either an error is set behind them or
a token has been taken, and a separator is a token in any case. -/
def RoundProgress {α : Type} (item : Prog Parser α) (sep : Prog Parser Bool) : Prop :=
  ∀ parser : Parser, parser.Inv → ∃ a mid b next, Runs item parser a mid ∧
    Runs sep mid b next ∧ next.Inv ∧
    (next.error ≠ none ∨ next.view.length < parser.view.length) ∧
    (b = true → next.view.length < parser.view.length)

/-- `parseList item sep` makes progress, and ends. -/
structure ListProgress {α : Type} (item : Prog Parser α) (sep : Prog Parser Bool) : Prop where
  round : RoundProgress item sep
  ends : ∀ parser : Parser, parser.Inv → ∃ as parser', Runs (parseList item sep) parser as parser'

/-- `parseItems item` stops at a closing parenthesis and after an error, makes progress, and
ends. -/
structure ItemsProgress {α : Type} (item : Prog Parser α) : Prop where
  stop : ∀ parser : Parser, ∃ b, Runs parserGoesOn parser b parser ∧
    (b = false ↔ parser.current.type = .rparen ∨ parser.error ≠ none)
  round : RoundProgress item (parserAccept .comma)
  ends : ∀ parser : Parser, parser.Inv → ∃ as parser', Runs (parseItems item) parser as parser'

/-! ## Rounds -/

/-- A program that reads from every state returns from every state. -/
theorem exists_runs_of_reads {α : Type} {p : Prog Parser α} {G : Grammar Token α}
    (hp : Reads parserReader p G) (parser : Parser) (hinv : parser.Inv) :
    ∃ a parser', Runs p parser a parser' := by
  obtain ⟨a, parser', hrun, -⟩ := hp parser hinv
  exact ⟨a, parser', hrun⟩

section Progress

variable {α : Type} {item : Prog Parser α} {tokens : α → List Token} {Formed : α → Prop}
  {Ends : α → List Token → Prop}

theorem roundProgress_of_reads {sep : Prog Parser Bool} {t : Token}
    (hitem : Reads parserReader item (Grammar.Printed tokens Formed Ends))
    (htokens : ∀ a, tokens a ≠ []) (hsep : Reads parserReader sep (Grammar.accept t))
    (hshorter : ∀ parser parser' : Parser, parser.Inv → Runs sep parser true parser' →
      parser'.view.length < parser.view.length) : RoundProgress item sep := by
  intro parser hinv
  obtain ⟨a, mid, hrun, hmid, hsuffix, -⟩ := hitem parser hinv
  obtain ⟨b, next, hrun', hnext, hsuffix', -⟩ := hsep mid hmid
  have hle : mid.view.length ≤ parser.view.length := hsuffix.length_le
  refine ⟨a, mid, b, next, hrun, hrun', hnext, ?_, ?_⟩
  · rw [or_iff_not_imp_left, not_not]
    intro hok
    -- Without an error behind the separator there was none behind the item.
    obtain ⟨hok', -⟩ := (hsep mid hmid).sound hrun' hok
    obtain ⟨-, hG⟩ := (hitem parser hinv).sound hrun hok'
    have hlt : mid.view.length < parser.view.length := hG.length_lt htokens
    have hle' : next.view.length ≤ mid.view.length := hsuffix'.length_le
    omega
  · intro hb
    subst hb
    exact Nat.lt_of_lt_of_le (hshorter mid next hmid hrun') hle

theorem listProgress_of_reads {sep : Prog Parser Bool} {t : Token}
    (hitem : Reads parserReader item (Grammar.Printed tokens Formed Ends))
    (htokens : ∀ a, tokens a ≠ []) (hsep : Reads parserReader sep (Grammar.accept t))
    (hshorter : ∀ parser parser' : Parser, parser.Inv → Runs sep parser true parser' →
      parser'.view.length < parser.view.length)
    (hends : ∀ a rest, Ends a (t :: rest)) : ListProgress item sep where
  round := roundProgress_of_reads hitem htokens hsep hshorter
  ends := exists_runs_of_reads (reads_parseList hitem hsep hshorter hends)

theorem itemsProgress_of_reads
    (hitem : Reads parserReader item (Grammar.Printed tokens Formed Ends))
    (htokens : ∀ a, tokens a ≠ []) : ItemsProgress item where
  stop := parserGoesOn_iff
  round := roundProgress_of_reads hitem htokens
    (reads_parserAccept .comma (List.cons_ne_nil _ _))
    (parserAccept_shorter TokenType.noConfusion)
  ends := exists_runs_of_reads
    (reads_parseItems hitem fun _ _ _ => Grammar.Printed.length_lt htokens)

end Progress

/-! ## The parsers -/

/-- `lexer_next` moves on in front of the end and never past it, every list loop makes progress,
and `parse_query` and `parse_schema` end, whatever the bytes. -/
theorem parsing_ends (input : Text) :
    (∀ pos ≤ input.length, ∃ token pos',
      Runs PosLexer.lexerNext ⟨input, pos⟩ token ⟨input, pos'⟩ ∧ pos' ≤ input.length ∧
      (pos < input.length → pos < pos') ∧
      lexerNext (input.drop pos) = (token, input.drop pos')) ∧
    (ListProgress parseIdent (parserAccept .comma) ∧
      ListProgress parseIndexKeyPart (parserAccept .comma) ∧
      ListProgress parseAssignment (parserAccept .comma) ∧
      ListProgress parseCondition (parserAcceptKeyword (text "and")) ∧
      ListProgress parseColumnDef (parserAccept .comma)) ∧
    (ItemsProgress parseColumnDef ∧ ItemsProgress parseIndexDef) ∧
    (parserInit input).Inv ∧
    (∃ query parser, Runs parseQuery (parserInit input) query parser) ∧
    ∃ result parser, Runs parseSchema (parserInit input) result parser := by
  have hcomma := reads_parserAccept .comma (List.cons_ne_nil _ _)
  have hshorter : ∀ parser parser' : Parser, parser.Inv →
      Runs (parserAccept .comma) parser true parser' →
      parser'.view.length < parser.view.length := parserAccept_shorter TokenType.noConfusion
  have hinit : (parserInit input).Inv := Parser.advance_inv _
  refine ⟨fun pos => PosLexer.runs_lexerNext, ⟨?_, ?_, ?_, ?_, ?_⟩, ⟨?_, ?_⟩, hinit, ?_, ?_⟩
  · exact listProgress_of_reads reads_identItem (fun _ => List.cons_ne_nil _ _) hcomma hshorter
      fun _ _ => trivial
  · exact listProgress_of_reads reads_parseIndexKeyPart (fun _ => List.cons_ne_nil _ _) hcomma
      hshorter fun _ _ _ => by rintro ⟨⟩
  · exact listProgress_of_reads reads_parseAssignment (fun _ => List.cons_ne_nil _ _) hcomma
      hshorter fun _ _ => trivial
  · exact listProgress_of_reads reads_parseCondition (fun _ => List.cons_ne_nil _ _)
      (reads_parserAcceptKeyword _) (parserAcceptKeyword_shorter _) fun _ _ => trivial
  · exact listProgress_of_reads reads_parseColumnDef (fun _ => List.cons_ne_nil _ _) hcomma
      hshorter fun _ _ _ => ⟨fun _ => by rintro ⟨⟩, by rintro ⟨⟩⟩
  · exact itemsProgress_of_reads reads_parseColumnDef fun _ => List.cons_ne_nil _ _
  · exact itemsProgress_of_reads reads_parseIndexDef fun _ => List.cons_ne_nil _ _
  · exact exists_runs_of_reads reads_parseQuery _ hinit
  · exact exists_runs_of_reads reads_parseSchema _ hinit

end Maxql
