import Maxql.Parser.Primitives

/-!
# The parser

`src/parser/parser.c` and `parse_input` of `src/engine/engine.c`.
-/

namespace Maxql

open Program Bytes

def parseSelect : Prog Parser Query := do
  let columns ← (do if ← parserAccept .star then return [] else parseIdentList)
  parserExpectKeyword (text "from")
  let table ← parseIdent
  let ignoreIndex ← parserAcceptKeyword (text "ignore_index")
  let conditions ← (do
    if ← parserAcceptKeyword (text "where") then parseConditionList else return [])
  let _ ← parserAccept .semicolon
  parserExpect .eof
  return .select { columns, table, ignoreIndex, conditions }

def parseDelete : Prog Parser Query := do
  parserExpectKeyword (text "from")
  let table ← parseIdent
  parserExpectKeyword (text "where")
  let conditions ← parseConditionList
  let _ ← parserAccept .semicolon
  parserExpect .eof
  return .delete { table, conditions }

def parseInsert : Prog Parser Query := do
  parserExpectKeyword (text "into")
  let table ← parseIdent
  parserExpectKeyword (text "set")
  let assignments ← parseAssignmentList
  let _ ← parserAccept .semicolon
  parserExpect .eof
  return .insert { table, assignments }

def parseUpdate : Prog Parser Query := do
  let table ← parseIdent
  parserExpectKeyword (text "set")
  let assignments ← parseAssignmentList
  parserExpectKeyword (text "where")
  let conditions ← parseConditionList
  let _ ← parserAccept .semicolon
  parserExpect .eof
  return .update { table, assignments, conditions }

def parseCreateTable : Prog Parser Query := do
  let table ← parseIdent
  parserExpect .lparen
  let columnDefs ← parseColumnDefList
  parserExpect .rparen
  let _ ← parserAccept .semicolon
  parserExpect .eof
  return .createTable { table, columnDefs }

def parseCreateIndex (isUnique : Bool) : Prog Parser Query := do
  let name ← parseIdent
  let type ← (do if ← parserAcceptKeyword (text "using") then parseIdent else return [])
  parserExpectKeyword (text "on")
  let table ← parseIdent
  parserExpect .lparen
  let keyParts ← parseIndexKeyPartList
  parserExpect .rparen
  let _ ← parserAccept .semicolon
  parserExpect .eof
  return .createIndex { isUnique, name, type, table, keyParts }

def parseDropTable : Prog Parser Query := do
  let table ← parseIdent
  let _ ← parserAccept .semicolon
  parserExpect .eof
  return .dropTable { table }

def parseShowTables : Prog Parser Query := do
  let _ ← parserAccept .semicolon
  parserExpect .eof
  return .showTables

def parseShowTable : Prog Parser Query := do
  let table ← parseIdent
  let _ ← parserAccept .semicolon
  parserExpect .eof
  return .showTable { table }

def parseShowIndex : Prog Parser Query := do
  parserExpectKeyword (text "on")
  let table ← parseIdent
  let _ ← parserAccept .semicolon
  parserExpect .eof
  return .showIndex { table }

def parseDropIndex : Prog Parser Query := do
  let index ← parseIdent
  parserExpectKeyword (text "on")
  let table ← parseIdent
  let _ ← parserAccept .semicolon
  parserExpect .eof
  return .dropIndex { index, table }

def parseShowIndexTypes : Prog Parser Query := do
  let _ ← parserAccept .semicolon
  parserExpect .eof
  return .showIndexTypes

def parseTruncateTable : Prog Parser Query := do
  let table ← parseIdent
  let _ ← parserAccept .semicolon
  parserExpect .eof
  return .truncateTable { table }

/-- After `Unknown create query` and its likes the alternatives that are left are tried on. -/
def parseQuery : Prog Parser Query := do
  if ← parserCheck .ident then
    if ← parserAcceptKeyword (text "select") then return ← parseSelect
    if ← parserAcceptKeyword (text "delete") then return ← parseDelete
    if ← parserAcceptKeyword (text "insert") then return ← parseInsert
    if ← parserAcceptKeyword (text "update") then return ← parseUpdate
    if ← parserAcceptKeyword (text "create") then
      if ← parserAcceptKeyword (text "table") then return ← parseCreateTable
      if ← parserAcceptKeyword (text "unique") then
        parserExpectKeyword (text "index")
        return ← parseCreateIndex true
      if ← parserAcceptKeyword (text "index") then return ← parseCreateIndex false
      parserSetError .parser (text "Unknown create query")
    if ← parserAcceptKeyword (text "drop") then
      if ← parserAcceptKeyword (text "table") then return ← parseDropTable
      if ← parserAcceptKeyword (text "index") then return ← parseDropIndex
      parserSetError .parser (text "Unknown drop query")
    if ← parserAcceptKeyword (text "truncate") then return ← parseTruncateTable
    if ← parserAcceptKeyword (text "show") then
      if ← parserAcceptKeyword (text "tables") then return ← parseShowTables
      if ← parserAcceptKeyword (text "table") then return ← parseShowTable
      if ← parserAcceptKeyword (text "index") then
        if ← parserAcceptKeyword (text "types") then return ← parseShowIndexTypes
        return ← parseShowIndex
      parserSetError .parser (text "Unknown show query")
  parserSetError .parser (text "Expected query type")
  return .unknown

def parserInit (input : Text) : Parser :=
  Parser.advance { lexer := input, current := ⟨.eof, []⟩, error := none }

/-- `parse_input`: the query and `parser.error`. -/
def parseInput (input : Text) : Checked (Query × Option Error) := do
  let (query, parser) ← parseQuery.run (parserInit input)
  return (query, parser.error)

end Maxql
