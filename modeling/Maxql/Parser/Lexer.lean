import Maxql.Types

/-!
# The lexer

`src/core/lexer.c`.  The state of a lexer is what is left of its input; behind
the input stands the NUL that ends it, which `next_char` may read.
-/

namespace Maxql

open Program Bytes

/-! ## Characters -/

def isLower (c : UInt8) : Bool := 97 ≤ c && c ≤ 122

def isUpper (c : UInt8) : Bool := 65 ≤ c && c ≤ 90

def isDigit (c : UInt8) : Bool := 48 ≤ c && c ≤ 57

def underscore : UInt8 := 95

def isIdentStart (c : UInt8) : Bool := isLower c || isUpper c

def isIdent (c : UInt8) : Bool := isLower c || isUpper c || isDigit c || c == underscore

/-- Blank, tab, newline and carriage return. -/
def isWhitespace (c : UInt8) : Bool := c == 32 || c == 9 || c == 10 || c == 13

def isDot (c : UInt8) : Bool := c == 46

def isHexMark (c : UInt8) : Bool := c == 120

def isHexDigit (c : UInt8) : Bool := isDigit c || (97 ≤ c && c ≤ 102)

def quote : UInt8 := 34

def isQuote (c : UInt8) : Bool := c == quote

/-! ## Tokens -/

inductive TokenType where
  | eof | ident | number | hex | string | lparen | rparen | comma | star | semicolon | not
  | equals | notEquals | less | greater | lessOrEqual | greatOrEqual | invalid
  deriving DecidableEq, Repr

structure Token where
  type : TokenType
  lexeme : Text
  deriving DecidableEq, Repr

/-- A `Lexer`: its input from `pos` on. -/
abbrev Lexer := Text

/-- `next_char` -/
def nextChar (lexer : Lexer) : UInt8 := lexer.tail.headD 0

def lexerSkipWhitespace (lexer : Lexer) : Lexer := lexer.dropWhile isWhitespace

def lexerReadIdent (lexer : Lexer) : Token × Lexer :=
  (⟨.ident, lexer.takeWhile isIdent⟩, lexer.dropWhile isIdent)

/-- The loop of `lexer_read_number`: the characters that it takes and the rest. -/
def numberChars (hasDot : Bool) : Lexer → Text × Lexer
  | [] => ([], [])
  | c :: lexer =>
    if isDot c && hasDot then ([], c :: lexer)
    else if isDigit c || isDot c then
      let (chars, rest) := numberChars (hasDot || isDot c) lexer
      (c :: chars, rest)
    else ([], c :: lexer)

def lexerReadNumber (lexer : Lexer) : Token × Lexer :=
  let (chars, rest) := numberChars false lexer
  (⟨.number, chars⟩, rest)

def lexerReadHex (lexer : Lexer) : Token × Lexer :=
  let digits := (lexer.drop 2).takeWhile isHexDigit
  let rest := (lexer.drop 2).dropWhile isHexDigit
  (⟨if digits = [] then .invalid else .hex, digits⟩, rest)

def lexerReadString (lexer : Lexer) : Token × Lexer :=
  let chars := lexer.tail.takeWhile fun c => !isQuote c
  match lexer.tail.dropWhile fun c => !isQuote c with
  | [] => (⟨.invalid, chars⟩, [])
  | _ :: rest => (⟨.string, chars⟩, rest)

def lexerSymbolTwoChars (cc nc : UInt8) : TokenType :=
  if cc == 62 && nc == 61 then .greatOrEqual
  else if cc == 60 && nc == 61 then .lessOrEqual
  else if cc == 33 && nc == 61 then .notEquals
  else .invalid

def lexerSymbolType (c : UInt8) : TokenType :=
  match c with
  | 60 => .less
  | 62 => .greater
  | 40 => .lparen
  | 41 => .rparen
  | 44 => .comma
  | 42 => .star
  | 59 => .semicolon
  | 61 => .equals
  | _ => .invalid

/-- `lexer_read_symbol` with a current character. -/
def lexerReadSymbol (c : UInt8) (lexer : Lexer) : Token × Lexer :=
  let tokenType := lexerSymbolTwoChars c (lexer.headD 0)
  if tokenType ≠ .invalid then (⟨tokenType, c :: lexer.take 1⟩, lexer.drop 1)
  else (⟨lexerSymbolType c, [c]⟩, lexer)

def lexerNext (lexer : Lexer) : Token × Lexer :=
  match lexerSkipWhitespace lexer with
  | [] => (⟨.eof, []⟩, [])
  | c :: rest =>
    if isIdentStart c then lexerReadIdent (c :: rest)
    else if isDigit c then
      if isHexMark (nextChar (c :: rest)) then lexerReadHex (c :: rest)
      else lexerReadNumber (c :: rest)
    else if isQuote c then lexerReadString (c :: rest)
    else lexerReadSymbol c rest

end Maxql
