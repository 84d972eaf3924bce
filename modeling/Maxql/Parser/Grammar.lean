import Maxql.Parser.Primitives

/-!
# The grammar

The statements of the language as the tokens that they are written with.  Two
statements are never written with the same tokens, because the parser gets
each of them back (`Maxql.Parser.Accepts`).  A statement is formed when its
lists are not empty and its optional parts are empty where they are left out;
the tokens of a statement are valid when its names are identifiers and its
literals have the form of their type.
-/

namespace Maxql

open Program Bytes

/-! ## Valid tokens -/

def isIdentifier (name : Text) : Bool := isIdentStart (name.headD 0) && name.all isIdent

theorem isIdentifier_not_mem {name : Text} (h : isIdentifier name = true) {c : UInt8}
    (hc : isIdent c = false) : c ∉ name := by
  rw [isIdentifier, Bool.and_eq_true, List.all_eq_true] at h
  intro hmem
  rw [h.2 c hmem] at hc
  cases hc

theorem isIdentifier_zero_not_mem {name : Text} (h : isIdentifier name = true) : 0 ∉ name :=
  isIdentifier_not_mem h rfl

/-- Digits with at most one dot behind the first. -/
def isNumber (value : Text) : Bool :=
  isDigit (value.headD 0) && value.all (fun c => isDigit c || isDot c) &&
    value.countP isDot ≤ 1

def Token.isValid (t : Token) : Bool :=
  match t.type with
  | .ident => isIdentifier t.lexeme
  | .number => isNumber t.lexeme
  | .hex => t.lexeme != [] && t.lexeme.all isHexDigit
  | .string => t.lexeme.all fun c => !isQuote c
  | type => symbolText type != [] && t.lexeme == symbolText type

/-! ## The parts of a statement -/

def LiteralType.tokenType : LiteralType → TokenType
  | .number => .number
  | .string => .string
  | .hex => .hex

def RawValue.token (value : RawValue) : Token := ⟨value.type.tokenType, value.value⟩

def numberToken (value : Text) : Token := ⟨.number, value⟩

def comma : Token := symbolToken .comma

def lparen : Token := symbolToken .lparen

def rparen : Token := symbolToken .rparen

def identList (names : List Text) : List Token :=
  Grammar.separated comma (fun name => [identToken name]) names

/-- The length in parentheses. -/
def lenTokens (hasLen : Bool) (len : Text) : List Token :=
  if hasLen then [lparen, numberToken len, rparen] else []

/-- There is no length where it is left out. -/
def LenFormed (hasLen : Bool) (len : Text) : Prop := hasLen = false → len = []

/-- A length that is left out is read as left out. -/
def LenEnds (hasLen : Bool) (rest : List Token) : Prop :=
  hasLen = false → rest.head? ≠ some lparen

def IndexKeyPart.tokens (part : IndexKeyPart) : List Token :=
  identToken part.column :: lenTokens part.hasKeyLen part.keyLen

def Assignment.tokens (a : Assignment) : List Token :=
  [identToken a.column, symbolToken .equals, a.value.token]

def ConditionOp.tokenType : ConditionOp → TokenType
  | .equals => .equals
  | .notEquals => .notEquals
  | .less => .less
  | .lessOrEqual => .lessOrEqual
  | .greater => .greater
  | .greatOrEqual => .greatOrEqual

def Condition.tokens (c : Condition) : List Token :=
  [identToken c.column, symbolToken c.op.tokenType, c.value.token]

def ColumnTypeDef.tokens (type : ColumnTypeDef) : List Token :=
  identToken type.name :: lenTokens type.hasLen type.len

def noValue : RawValue := { type := .number, value := [] }

def ColumnDef.tokens (d : ColumnDef) : List Token :=
  identToken d.column :: (d.type.tokens ++
    if d.hasDefault then [identToken (text "default"), d.defaultValue.token] else [])

structure ColumnDef.Formed (d : ColumnDef) : Prop where
  type : LenFormed d.type.hasLen d.type.len
  noDefault : d.hasDefault = false → d.defaultValue = noValue

def ColumnDef.Ends (d : ColumnDef) (rest : List Token) : Prop :=
  d.hasDefault = false →
    LenEnds d.type.hasLen rest ∧ rest.head? ≠ some (identToken (text "default"))

def conditionList (conditions : List Condition) : List Token :=
  Grammar.separated (identToken (text "and")) Condition.tokens conditions

/-- The conditions behind `where`, which may be left out. -/
def whereTokens (conditions : List Condition) : List Token :=
  if conditions = [] then [] else identToken (text "where") :: conditionList conditions

def assignmentList (assignments : List Assignment) : List Token :=
  Grammar.separated comma Assignment.tokens assignments

/-! ## Statements

The tokens behind the keywords that name the statement. -/

def SelectStmt.tokens (stmt : SelectStmt) : List Token :=
  (if stmt.columns = [] then [symbolToken .star] else identList stmt.columns) ++
    identToken (text "from") :: identToken stmt.table ::
      ((if stmt.ignoreIndex then [identToken (text "ignore_index")] else []) ++
        whereTokens stmt.conditions)

def DeleteStmt.tokens (stmt : DeleteStmt) : List Token :=
  identToken (text "from") :: identToken stmt.table :: identToken (text "where") ::
    conditionList stmt.conditions

def InsertStmt.tokens (stmt : InsertStmt) : List Token :=
  identToken (text "into") :: identToken stmt.table :: identToken (text "set") ::
    assignmentList stmt.assignments

def UpdateStmt.tokens (stmt : UpdateStmt) : List Token :=
  identToken stmt.table :: identToken (text "set") :: (assignmentList stmt.assignments ++
    identToken (text "where") :: conditionList stmt.conditions)

def CreateTableStmt.tokens (stmt : CreateTableStmt) : List Token :=
  identToken stmt.table :: lparen ::
    (Grammar.separated comma ColumnDef.tokens stmt.columnDefs ++ [rparen])

def CreateIndexStmt.tokens (stmt : CreateIndexStmt) : List Token :=
  identToken stmt.name ::
    ((if stmt.type = [] then [] else [identToken (text "using"), identToken stmt.type]) ++
      identToken (text "on") :: identToken stmt.table :: lparen ::
        (Grammar.separated comma IndexKeyPart.tokens stmt.keyParts ++ [rparen]))

def DropIndexStmt.tokens (stmt : DropIndexStmt) : List Token :=
  [identToken stmt.index, identToken (text "on"), identToken stmt.table]

def ShowIndexStmt.tokens (stmt : ShowIndexStmt) : List Token :=
  [identToken (text "on"), identToken stmt.table]

/-- The keywords that name the statement. -/
def Query.keywords : Query → List Token
  | .unknown => []
  | .createTable _ => [identToken (text "create"), identToken (text "table")]
  | .dropTable _ => [identToken (text "drop"), identToken (text "table")]
  | .createIndex stmt =>
    identToken (text "create") ::
      if stmt.isUnique then [identToken (text "unique"), identToken (text "index")]
      else [identToken (text "index")]
  | .dropIndex _ => [identToken (text "drop"), identToken (text "index")]
  | .truncateTable _ => [identToken (text "truncate")]
  | .select _ => [identToken (text "select")]
  | .delete _ => [identToken (text "delete")]
  | .insert _ => [identToken (text "insert")]
  | .update _ => [identToken (text "update")]
  | .showTables => [identToken (text "show"), identToken (text "tables")]
  | .showTable _ => [identToken (text "show"), identToken (text "table")]
  | .showIndex _ => [identToken (text "show"), identToken (text "index")]
  | .showIndexTypes =>
    [identToken (text "show"), identToken (text "index"), identToken (text "types")]

/-- What follows the keywords. -/
def Query.body : Query → List Token
  | .unknown | .showTables | .showIndexTypes => []
  | .createTable stmt => stmt.tokens
  | .dropTable stmt => [identToken stmt.table]
  | .createIndex stmt => stmt.tokens
  | .dropIndex stmt => stmt.tokens
  | .truncateTable stmt => [identToken stmt.table]
  | .select stmt => stmt.tokens
  | .delete stmt => stmt.tokens
  | .insert stmt => stmt.tokens
  | .update stmt => stmt.tokens
  | .showTable stmt => [identToken stmt.table]
  | .showIndex stmt => stmt.tokens

def Query.tokens (q : Query) : List Token := q.keywords ++ q.body

/-- No list is empty but the columns of `select *`, and what is left out is empty. -/
def Query.Formed : Query → Prop
  | .unknown => False
  | .createTable stmt => stmt.columnDefs ≠ [] ∧ ∀ d ∈ stmt.columnDefs, d.Formed
  | .createIndex stmt =>
    stmt.keyParts ≠ [] ∧ ∀ part ∈ stmt.keyParts, LenFormed part.hasKeyLen part.keyLen
  | .delete stmt => stmt.conditions ≠ []
  | .insert stmt => stmt.assignments ≠ []
  | .update stmt => stmt.assignments ≠ [] ∧ stmt.conditions ≠ []
  | _ => True

/-- The end of a statement. -/
def Ending (ts : List Token) : Prop := ts = [] ∨ ts = [symbolToken .semicolon]

/-- The tokens of one statement. -/
def Sentence (ts : List Token) : Prop :=
  ∃ q : Query, ∃ ending, q.Formed ∧ Ending ending ∧ ts = q.tokens ++ ending

end Maxql
