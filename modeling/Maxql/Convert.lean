import Maxql.Types

/-!
# Literals

`src/types/converter.c`.  `strtof` is a parameter; `strtoll` and `strtol` are
`strtoBase`, whose number has no bound.  What `errno` reports is then part of
the comparison with the bounds of `int32_t`.
-/

namespace Maxql

open Program Bytes

/-! ## Numbers in text -/

def isSpace (c : UInt8) : Bool := c == 32 || (9 ≤ c && c ≤ 13)

/-- The value of `c` as a digit. -/
def digitValue (c : UInt8) : Option Nat :=
  if 48 ≤ c && c ≤ 57 then some (c.toNat - 48)
  else if 97 ≤ c && c ≤ 122 then some (c.toNat - 87)
  else if 65 ≤ c && c ≤ 90 then some (c.toNat - 55)
  else none

def isDigitIn (base : Nat) (c : UInt8) : Bool :=
  match digitValue c with
  | some d => d < base
  | none => false

/-- The digits at the front of the text, and what follows them. -/
def readDigits (base : Nat) : (s : Text) → (acc : Nat) → Nat × Text
  | [], acc => (acc, [])
  | c :: s, acc =>
    match digitValue c with
    | some d => if d < base then readDigits base s (acc * base + d) else (acc, c :: s)
    | none => (acc, c :: s)

/-- The sign in front of a number. -/
def readSign : Text → Bool × Text
  | 45 :: s => (true, s)
  | 43 :: s => (false, s)
  | s => (false, s)

/-- The `0x` that may stand in front of hexadecimal digits. -/
def skipHexMark (base : Nat) : Text → Text
  | 48 :: x :: d :: s =>
    if base == 16 && (x == 120 || x == 88) && isDigitIn 16 d then d :: s else 48 :: x :: d :: s
  | s => s

/-- `strtol` and `strtoll`: the number and the text that is left. -/
def strtoBase (base : Nat) (s : Text) : Int × Text :=
  let (negative, body) := readSign (s.dropWhile isSpace)
  let body := skipHexMark base body
  if isDigitIn base (body.headD 0) then
    let (n, rest) := readDigits base body 0
    (if negative then -n else n, rest)
  else (0, s)

/-- What `strtof` gives: whether it sets `ERANGE`, the number and the text that is left. -/
structure FloatText where
  outOfRange : Bool
  bits : UInt32
  rest : Text

/-- `strtof` -/
abbrev Strtof := Text → FloatText

/-! ## Conversion -/

inductive ConvertResult where
  | unknownLiteral | notANumber | outOfRange | tooLong | badHex
  deriving DecidableEq, Repr

structure RawValue where
  type : LiteralType
  value : Text
  deriving DecidableEq, Repr

def convertInt (intLiteral : Text) : Except ConvertResult DataValue :=
  let buf := svToCstr intLiteral 16
  let (longValue, rest) := strtoBase 10 buf
  if longValue < -2147483648 ∨ longValue > 2147483647 then .error .outOfRange
  else if rest ≠ [] then .error .notANumber
  else .ok (.int (Int32.ofInt longValue))

def convertFloat (strtof : Strtof) (floatLiteral : Text) : Except ConvertResult DataValue :=
  let buf := svToCstr floatLiteral 32
  let parsed := strtof buf
  if parsed.outOfRange then .error .outOfRange
  else if parsed.rest ≠ [] then .error .notANumber
  else .ok (.float parsed.bits)

def dot : UInt8 := 46

def convertNumber (strtof : Strtof) (numberLiteral : Text) : Except ConvertResult DataValue :=
  if dot ∈ numberLiteral then convertFloat strtof numberLiteral else convertInt numberLiteral

def convertString (stringLiteral : Text) : Except ConvertResult DataValue :=
  if stringLiteral.length > maxVarcharValueSize then .error .tooLong
  else .ok (.string (VarcharValue.copy stringLiteral))

/-- One byte of a hex literal, from two characters. -/
def hexByte (hi lo : UInt8) : Except ConvertResult UInt8 :=
  let (n, rest) := strtoBase 16 (cstr [hi, lo])
  if rest ≠ [] then .error .badHex else .ok (UInt8.ofInt n)

def hexBytes : Text → Except ConvertResult (List UInt8)
  | hi :: lo :: s => do
    let byte ← hexByte hi lo
    let bytes ← hexBytes s
    .ok (byte :: bytes)
  | _ => .ok []

/-- `convert_hex`: an odd number of digits gets a zero in front. -/
def convertHex (hexLiteral : Text) : Except ConvertResult DataValue :=
  if hexLiteral.length > maxBinaryValueSize * 2 then .error .tooLong
  else do
    let bytes ← hexBytes (if hexLiteral.length % 2 = 1 then 48 :: hexLiteral else hexLiteral)
    if h : bytes.length ≤ maxBinaryValueSize then .ok (.binary ⟨bytes, h⟩)
    else .error .tooLong

def convertValue (strtof : Strtof) (value : RawValue) : Except ConvertResult DataValue :=
  match value.type with
  | .number => convertNumber strtof value.value
  | .string => convertString value.value
  | .hex => convertHex value.value

def convertResultMsg : ConvertResult → Text
  | .notANumber => text "not a valid number"
  | .outOfRange => text "value out of range"
  | .tooLong => text "value too long"
  | .badHex => text "invalid hex literal"
  | .unknownLiteral => text "unknown literal type"

end Maxql
