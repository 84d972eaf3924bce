import Maxql.Parser.Accepts

/-!
# The parser of schema files

`src/parser/schema_parser.c`.  The loops over the columns and the indexes end
at a closing parenthesis or after an error, and a comma may stand behind each
item.

* `reads_parseItems`: the loops;
* `reads_parseSchema`: what `parse_schema` takes;
* `parseSchemaText_total`: parsing ends on every text.
-/

namespace Maxql

open Program Bytes

/-! ## Definitions -/

structure IndexDef where
  type : Text
  isUnique : Bool
  name : Text
  keyParts : List IndexKeyPart
  deriving DecidableEq, Repr

structure SchemaParseResult where
  columnDefs : List ColumnDef
  indexDefs : List IndexDef
  deriving DecidableEq, Repr

/-- The condition of the loops. -/
def parserGoesOn : Prog Parser Bool := do
  if ← parserCheck .rparen then return false
  return (← get).error.isNone

/-- The loops of the two lists. -/
def parseItems {α : Type} (item : Prog Parser α) : Prog Parser (List α) := do
  itemsUntil parserGoesOn item (parserAccept .comma) ((← get).lexer.length + 3)

def parseSchemaColumnDefList : Prog Parser (List ColumnDef) := parseItems parseColumnDef

def parseIndexDef : Prog Parser IndexDef := do
  let type ← parseIdent
  let isUnique ← parserAcceptKeyword (text "unique")
  let name ← parseIdent
  parserExpect .lparen
  let keyParts ← parseIndexKeyPartList
  parserExpect .rparen
  return { type, isUnique, name, keyParts }

def parseIndexDefList : Prog Parser (List IndexDef) := parseItems parseIndexDef

def parseSchema : Prog Parser SchemaParseResult := do
  parserExpectKeyword (text "table")
  parserExpect .lparen
  parserExpectKeyword (text "columns")
  parserExpect .lparen
  let columnDefs ← parseSchemaColumnDefList
  parserExpect .rparen
  let _ ← parserAccept .comma
  parserExpectKeyword (text "indexes")
  parserExpect .lparen
  let indexDefs ← parseIndexDefList
  parserExpect .rparen
  let _ ← parserAccept .comma
  parserExpect .rparen
  return { columnDefs, indexDefs }

/-- `parser_init` and `parse_schema`: the result and `parser.error`. -/
def parseSchemaText (content : Text) : Checked (SchemaParseResult × Option Error) := do
  let (result, parser) ← parseSchema.run (parserInit content)
  return (result, parser.error)

/-! ## The grammar -/

def IndexDef.tokens (d : IndexDef) : List Token :=
  identToken d.type :: ((if d.isUnique then [identToken (text "unique")] else []) ++
    identToken d.name :: lparen ::
      (Grammar.separated comma IndexKeyPart.tokens d.keyParts ++ [rparen]))

/-- An index without the keyword is not called by it. -/
structure IndexDef.Formed (d : IndexDef) : Prop where
  name : d.isUnique = false → d.name ≠ text "unique"
  keyParts : d.keyParts ≠ []
  lengths : ∀ part ∈ d.keyParts, LenFormed part.hasKeyLen part.keyLen

def columnDefGrammar : Grammar Token ColumnDef :=
  Grammar.Printed ColumnDef.tokens ColumnDef.Formed ColumnDef.Ends

def indexDefGrammar : Grammar Token IndexDef :=
  Grammar.Printed IndexDef.tokens IndexDef.Formed fun _ _ => True

/-- The tokens of a schema file.  What is behind the last parenthesis is not read. -/
def schemaGrammar : Grammar Token SchemaParseResult := fun ts result rest =>
  ∃ columns mid b indexes mid' b',
    ts = identToken (text "table") :: lparen :: identToken (text "columns") :: lparen :: columns ∧
    Grammar.Until rparen comma columnDefGrammar columns result.columnDefs (rparen :: mid) ∧
    Grammar.accept comma mid b (identToken (text "indexes") :: lparen :: indexes) ∧
    Grammar.Until rparen comma indexDefGrammar indexes result.indexDefs (rparen :: mid') ∧
    Grammar.accept comma mid' b' (rparen :: rest)

/-! ## What is read -/

/-- The condition of the loops of the schema parser. -/
theorem parserGoesOn_iff (parser : Parser) : ∃ b, Runs parserGoesOn parser b parser ∧
    (b = false ↔ parser.current.type = .rparen ∨ parser.error ≠ none) := by
  by_cases htype : parser.current.type = .rparen
  · refine ⟨false, ?_, fun _ => .inl htype, fun _ => rfl⟩
    refine (runs_parserCheck .rparen parser).bind ?_
    rw [beq_iff_eq.2 htype]
    exact Runs.pure _ _
  · refine ⟨parser.error.isNone, ?_, ?_⟩
    · refine (runs_parserCheck .rparen parser).bind ?_
      rw [beq_eq_false_iff_ne.2 htype]
      exact (Runs.get parser).bind (Runs.pure _ _)
    · rw [← Bool.not_eq_true, Option.isNone_iff_eq_none]
      exact ⟨.inr, fun h => h.resolve_left htype⟩

theorem runs_parserGoesOn {parser : Parser} (hinv : parser.Inv) :
    ∃ b, Runs parserGoesOn parser b parser ∧
      (b = true ↔ parserReader.Ok parser ∧ (parserReader.view parser).head? ≠ some rparen) := by
  have hview : (parserReader.view parser).head? = some rparen ↔ parser.current.type = .rparen := by
    show parser.view.head? = some rparen ↔ _
    constructor
    · intro h
      unfold Parser.view at h
      split at h
      · cases h
      · rw [Option.some.inj h]
        rfl
    · intro h
      rw [Parser.view_cons (by rw [h]; exact TokenType.noConfusion),
        hinv.genuine.eq_symbol h (List.cons_ne_nil _ _)]
      rfl
  obtain ⟨b, hrun, hb⟩ := parserGoesOn_iff parser
  refine ⟨b, hrun, ?_⟩
  rw [← Bool.not_eq_false, hb, not_or, not_not, ne_eq, hview]
  exact and_comm

theorem reads_parseItems {α : Type} {item : Prog Parser α} {G : Grammar Token α}
    (hitem : Reads parserReader item G)
    (hshorter : ∀ ts a rest, G ts a rest → rest.length < ts.length) :
    Reads parserReader (parseItems item) (Grammar.Until rparen comma G) := by
  intro parser hinv
  refine ReadsAt.look (Runs.get parser) ?_
  have hlen := parser.length_view_le
  have hfuel : (parserReader.view parser).length + 1 < parser.lexer.length + 3 := by
    show parser.view.length + 1 < _
    omega
  exact readsAt_itemsUntil (fun _ => runs_parserGoesOn) hitem
    (reads_parserAccept .comma (List.cons_ne_nil _ _)) hshorter hinv (Nat.succ_pos _)
    fun _ => hfuel

theorem reads_parseSchemaColumnDefList : Reads parserReader parseSchemaColumnDefList
    (Grammar.Until rparen comma columnDefGrammar) := by
  exact reads_parseItems reads_parseColumnDef fun _ _ _ =>
    Grammar.Printed.length_lt fun _ => List.cons_ne_nil _ _

theorem reads_parseIndexDef : Reads parserReader parseIndexDef indexDefGrammar := by
  refine (reads_parseIdent.bind fun type => (reads_parserAcceptKeyword (text "unique")).bind
    fun isUnique => reads_parseIdent.bind fun name =>
      (reads_parserExpect .lparen (List.cons_ne_nil _ _)).bind fun _ =>
        reads_parseIndexKeyPartList.bind fun keyParts =>
          (reads_parserExpect .rparen (List.cons_ne_nil _ _)).bind fun _ =>
            Reads.pure (IndexDef.mk type isUnique name keyParts)).congr ?_
  intro ts d rest
  constructor
  · rintro ⟨type, _, rfl, isUnique, _, hunique, name, _, rfl, _, _, rfl, keyParts, _,
      ⟨rfl, ⟨hne, hlens⟩, -⟩, _, _, rfl, rfl, rfl⟩
    obtain ⟨rfl, rfl⟩ | ⟨rfl, hhead, rfl⟩ := hunique
    · refine ⟨?_, ⟨fun h => (by cases h), hne, hlens⟩, trivial⟩
      simp [IndexDef.tokens, lparen, rparen]
    · refine ⟨?_, ⟨fun _ heq => hhead ?_, hne, hlens⟩, trivial⟩
      · simp [IndexDef.tokens, lparen, rparen]
      · rw [show name = text "unique" from heq]
        rfl
  · rintro ⟨rfl, hformed, -⟩
    obtain ⟨type, isUnique, name, keyParts⟩ := d
    refine ⟨type, _, rfl, isUnique, identToken name :: lparen ::
      (Grammar.separated comma IndexKeyPart.tokens keyParts ++ rparen :: rest), ?_, name, _, rfl,
      (), _, rfl, keyParts, _, ⟨rfl, ⟨hformed.keyParts, hformed.lengths⟩, ?_, ?_⟩, (), rest, rfl,
      rfl, rfl⟩
    · cases isUnique with
      | true => exact .inl ⟨rfl, by simp⟩
      | false =>
        refine .inr ⟨rfl, fun h => hformed.name rfl ?_, by simp⟩
        simpa [identToken] using h
    · intro h
      cases h
    · intro part _ _ h
      cases h

theorem reads_parseIndexDefList : Reads parserReader parseIndexDefList
    (Grammar.Until rparen comma indexDefGrammar) := by
  exact reads_parseItems reads_parseIndexDef fun _ _ _ =>
    Grammar.Printed.length_lt fun _ => List.cons_ne_nil _ _

theorem reads_parseSchema : Reads parserReader parseSchema schemaGrammar := by
  refine ((reads_parserExpectKeyword (text "table")).bind fun _ =>
    (reads_parserExpect .lparen (List.cons_ne_nil _ _)).bind fun _ =>
    (reads_parserExpectKeyword (text "columns")).bind fun _ =>
    (reads_parserExpect .lparen (List.cons_ne_nil _ _)).bind fun _ =>
    reads_parseSchemaColumnDefList.bind fun columnDefs =>
    (reads_parserExpect .rparen (List.cons_ne_nil _ _)).bind fun _ =>
    (reads_parserAccept .comma (List.cons_ne_nil _ _)).bind fun _ =>
    (reads_parserExpectKeyword (text "indexes")).bind fun _ =>
    (reads_parserExpect .lparen (List.cons_ne_nil _ _)).bind fun _ =>
    reads_parseIndexDefList.bind fun indexDefs =>
    (reads_parserExpect .rparen (List.cons_ne_nil _ _)).bind fun _ =>
    (reads_parserAccept .comma (List.cons_ne_nil _ _)).bind fun _ =>
    (reads_parserExpect .rparen (List.cons_ne_nil _ _)).bind fun _ =>
    Reads.pure (SchemaParseResult.mk columnDefs indexDefs)).congr ?_
  intro ts result rest
  constructor
  · rintro ⟨_, _, rfl, _, _, rfl, _, _, rfl, _, _, rfl, columnDefs, _, hcolumns, _, _, rfl, b, _,
      hcomma, _, _, rfl, _, _, rfl, indexDefs, _, hindexes, _, _, rfl, b', _, hcomma', _, _, rfl,
      rfl, rfl⟩
    exact ⟨_, _, b, _, _, b', rfl, hcolumns, hcomma, hindexes, hcomma'⟩
  · rintro ⟨columns, mid, b, indexes, mid', b', rfl, hcolumns, hcomma, hindexes, hcomma'⟩
    exact ⟨(), _, rfl, (), _, rfl, (), _, rfl, (), _, rfl, _, _, hcolumns, (), _, rfl, b, _, hcomma,
      (), _, rfl, (), _, rfl, _, _, hindexes, (), _, rfl, b', _, hcomma', (), _, rfl, rfl, rfl⟩

/-- Parsing ends on every text, with an error or with what the text spells. -/
theorem parseSchemaText_total (content : Text) : ∃ result e,
    parseSchemaText content = .ok (result, e) ∧
    (e = none → ∃ rest, schemaGrammar (lexerTokens content) result rest ∧
      ∀ t ∈ lexerTokens content, t ∈ rest ∨ t.type ≠ .invalid) := by
  obtain ⟨result, parser, hrun, -, -, hsound, -⟩ :=
    reads_parseSchema (parserInit content) (Parser.advance_inv _)
  have hrun : parseSchema.run (parserInit content) = .ok (result, parser) := hrun
  refine ⟨result, parser.error, ?_, fun hok => ?_⟩
  · rw [parseSchemaText, hrun]
    rfl
  · obtain ⟨-, hgood, hG⟩ := hsound hok
    rw [show parserReader.view (parserInit content) = _ from view_parserInit content] at hgood hG
    exact ⟨parserReader.view parser, hG, hgood⟩

/-- A text without invalid tokens gives what it spells. -/
theorem parseSchemaText_of_grammar {content : Text} {result : SchemaParseResult}
    (rest : List Token) (hvalid : ∀ t ∈ lexerTokens content, t.type ≠ .invalid)
    (h : schemaGrammar (lexerTokens content) result rest) :
    parseSchemaText content = .ok (result, none) := by
  obtain ⟨result', parser, hrun, -, -, -, hcomplete⟩ :=
    reads_parseSchema (parserInit content) (Parser.advance_inv _)
  have hview : parserReader.view (parserInit content) = lexerTokens content :=
    view_parserInit content
  rw [hview] at hcomplete
  obtain ⟨hok, rfl, -⟩ := hcomplete (parserInit_error hvalid) hvalid result rest h
  have hrun : parseSchema.run (parserInit content) = .ok (result', parser) := hrun
  have herror : parser.error = none := hok
  rw [parseSchemaText, hrun]
  show Except.ok (result', parser.error) = _
  rw [herror]

end Maxql
