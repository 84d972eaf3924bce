import Maxql.Lib.TextFile
import Maxql.Types
import Mathlib.Data.List.Infix

/-!
# The interactive prompt

`src/cli/repl.c` on a terminal: `read_key`, the branches of the loop of
`repl_run`, and the history with its file.  `buf` is an array with all of its
8192 bytes; an entry of `history` and `saved_input` are the contents of their
C strings.  What is printed is left out, and the file can always be opened.
-/

namespace Maxql

open Program Bytes

/-! ## Limits and keys -/

def maxInputLen : Nat := 8192
def historyCapacity : Nat := 100

def keyOffset : Nat := 1000
def keyUp : Nat := keyOffset + 'A'.toNat
def keyDown : Nat := keyOffset + 'B'.toNat
def keyRight : Nat := keyOffset + 'C'.toNat
def keyLeft : Nat := keyOffset + 'D'.toNat
def keyDelete : Nat := keyOffset + '~'.toNat
def keyCtrlA : Nat := 1
def keyCtrlD : Nat := 4
def keyCtrlE : Nat := 5
def keyCtrlL : Nat := 12
def keyCtrlR : Nat := 18
def keyCtrlW : Nat := 23
def keyCtrlLeft : Nat := keyOffset + 200
def keyCtrlRight : Nat := keyOffset + 201

@[simp] theorem keyUp_eq : keyUp = 1065 := rfl
@[simp] theorem keyDown_eq : keyDown = 1066 := rfl
@[simp] theorem keyRight_eq : keyRight = 1067 := rfl
@[simp] theorem keyLeft_eq : keyLeft = 1068 := rfl
@[simp] theorem keyDelete_eq : keyDelete = 1126 := rfl
@[simp] theorem keyCtrlA_eq : keyCtrlA = 1 := rfl
@[simp] theorem keyCtrlD_eq : keyCtrlD = 4 := rfl
@[simp] theorem keyCtrlE_eq : keyCtrlE = 5 := rfl
@[simp] theorem keyCtrlL_eq : keyCtrlL = 12 := rfl
@[simp] theorem keyCtrlR_eq : keyCtrlR = 18 := rfl
@[simp] theorem keyCtrlW_eq : keyCtrlW = 23 := rfl
@[simp] theorem keyCtrlLeft_eq : keyCtrlLeft = 1200 := rfl
@[simp] theorem keyCtrlRight_eq : keyCtrlRight = 1201 := rfl

/-- The byte of a character of the source. -/
def byte (c : Char) : UInt8 := UInt8.ofNat c.toNat

/-- `ESC [ 1 ;` has been read: the rest of Ctrl+Arrow. -/
def readCtrlArrow : List UInt8 → Nat × List UInt8
  | mod :: arrow :: stdin =>
    if mod = byte '5' ∧ arrow = byte 'C' then (keyCtrlRight, stdin)
    else if mod = byte '5' ∧ arrow = byte 'D' then (keyCtrlLeft, stdin)
    else (27, stdin)
  | _ => (27, [])

/-- `ESC [` and a digit have been read. -/
def readDigitSequence (digit : UInt8) : List UInt8 → Nat × List UInt8
  | [] => (27, [])
  | seq2 :: stdin =>
    if seq2 = byte '~' ∧ digit = byte '3' then (keyDelete, stdin)
    else if seq2 = byte ';' ∧ digit = byte '1' then readCtrlArrow stdin
    else (27, stdin)

/-- `ESC` has been read. -/
def readSequence : List UInt8 → Nat × List UInt8
  | [] => (27, [])
  | [_] => (27, [])
  | seq0 :: seq1 :: stdin =>
    if seq0 ≠ byte '[' then (27, seq1 :: stdin)
    else if byte 'A' ≤ seq1 ∧ seq1 ≤ byte 'D' then (keyOffset + seq1.toNat, stdin)
    else if byte '0' ≤ seq1 ∧ seq1 ≤ byte '9' then readDigitSequence seq1 stdin
    else (27, stdin)

/-- `read_key`: the key, and what is left of the input.  At the end of the input it is 0. -/
def readKey : List UInt8 → Nat × List UInt8
  | [] => (0, [])
  | c :: stdin => if c ≠ 27 then (c.toNat, stdin) else readSequence stdin

/-! ## C strings -/

/-- The C string in an array, which must have a NUL. -/
def cString (a : List UInt8) : Checked Text :=
  if 0 ∈ a then .ok (cstr a) else .error .outOfBounds

/-- `strcpy` -/
def strcpy (dst : List UInt8) (src : Text) : Checked (List UInt8) :=
  if src.length < dst.length then .ok (src ++ 0 :: dst.drop (src.length + 1))
  else .error .outOfBounds

/-- `strcpy` into an array of `MAX_INPUT_LEN` bytes whose C string alone matters. -/
def strcpyText (src : Text) : Checked Text :=
  if src.length < maxInputLen then .ok src else .error .outOfBounds

/-! ## Editing -/

/-- `(b & 0xC0) == 0x80` -/
def isContinuation (b : UInt8) : Bool := b &&& 0xC0 == 0x80

/-- `while (pos > 0 && p(buf[pos - 1])) pos--;` -/
def skipLeft (p : UInt8 → Bool) (buf : List UInt8) : (pos : Nat) → Checked Nat
  | 0 => .ok 0
  | pos + 1 => do
    let b ← readAt buf pos
    if p b then skipLeft p buf pos else .ok (pos + 1)

/-- `while (pos < buf_len && p(buf[pos])) pos++;`, where `room` is `buf_len - pos` -/
def skipRight (p : UInt8 → Bool) (buf : List UInt8) : (room pos : Nat) → Checked Nat
  | 0, pos => .ok pos
  | room + 1, pos => do
    let b ← readAt buf pos
    if p b then skipRight p buf room (pos + 1) else .ok pos

def wordLeft (buf : List UInt8) (pos : Nat) : Checked Nat := do
  if pos = 0 then return 0
  let pos ← skipLeft (· = 32) buf pos
  skipLeft (· ≠ 32) buf pos

def wordRight (buf : List UInt8) (bufLen pos : Nat) : Checked Nat := do
  let pos ← skipRight (· ≠ 32) buf (bufLen - pos) pos
  skipRight (· = 32) buf (bufLen - pos) pos

/-- `do pos--; while (pos > 0 && continuation(buf[pos]));` -/
def charLeft (buf : List UInt8) : (pos : Nat) → Checked Nat
  | 0 => .error .outOfBounds
  | pos + 1 => do
    if pos = 0 then return 0
    let b ← readAt buf pos
    if isContinuation b then charLeft buf pos else return pos

/-- `pos++; while (pos < buf_len && continuation(buf[pos])) pos++;` -/
def charRight (buf : List UInt8) (bufLen pos : Nat) : Checked Nat :=
  skipRight isContinuation buf (bufLen - (pos + 1)) (pos + 1)

/-- `buf`, `buf_len` and `cursor_pos`. -/
structure LineBuffer where
  buf : List UInt8
  bufLen : Nat
  cursorPos : Nat
  deriving DecidableEq, Repr

/-- The bytes from `fromPos` on move down to `toPos`, and the text ends with a NUL again. -/
def removeRange (l : LineBuffer) (toPos fromPos : Nat) : Checked (List UInt8 × Nat) := do
  let buf ← copySlots l.buf toPos l.buf fromPos (l.bufLen - fromPos)
  let bufLen := l.bufLen - (fromPos - toPos)
  let buf ← writeAt buf bufLen 0
  return (buf, bufLen)

/-- The bytes from the cursor on move up. -/
def makeRoom (l : LineBuffer) : Checked (List UInt8) :=
  if l.cursorPos ≠ l.bufLen then
    copySlots l.buf (l.cursorPos + 1) l.buf l.cursorPos (l.bufLen - l.cursorPos)
  else .ok l.buf

/-- The last branch of the loop. -/
def insertByte (l : LineBuffer) (b : UInt8) : Checked LineBuffer := do
  let buf ← makeRoom l
  let buf ← writeAt buf l.cursorPos b
  let buf ← writeAt buf (l.bufLen + 1) 0
  return { buf, bufLen := l.bufLen + 1, cursorPos := l.cursorPos + 1 }

/-- The branches of the loop that edit the line, in their order.  A key whose guard does not
hold goes on to the branches behind it. -/
def editKey (l : LineBuffer) (key : Nat) : Checked LineBuffer := do
  if key = keyCtrlA ∧ l.cursorPos > 0 then
    return { l with cursorPos := 0 }
  if key = keyCtrlE ∧ l.cursorPos < l.bufLen then
    return { l with cursorPos := l.bufLen }
  if key = keyCtrlW ∧ l.cursorPos > 0 then
    let newPos ← wordLeft l.buf l.cursorPos
    let (buf, bufLen) ← removeRange l newPos l.cursorPos
    return { buf, bufLen, cursorPos := newPos }
  if key = keyCtrlLeft ∧ l.cursorPos > 0 then
    let cursorPos ← wordLeft l.buf l.cursorPos
    return { l with cursorPos }
  if key = keyCtrlRight ∧ l.cursorPos < l.bufLen then
    let cursorPos ← wordRight l.buf l.bufLen l.cursorPos
    return { l with cursorPos }
  if key = keyRight ∧ l.cursorPos < l.bufLen then
    let cursorPos ← charRight l.buf l.bufLen l.cursorPos
    return { l with cursorPos }
  if key = keyLeft ∧ l.cursorPos > 0 then
    let cursorPos ← charLeft l.buf l.cursorPos
    return { l with cursorPos }
  if key = 127 ∧ l.cursorPos > 0 then
    let cursorPos ← charLeft l.buf l.cursorPos
    let (buf, bufLen) ← removeRange l cursorPos l.cursorPos
    return { buf, bufLen, cursorPos }
  if key = keyDelete ∧ l.cursorPos < l.bufLen then
    let nextSymbolPos ← charRight l.buf l.bufLen l.cursorPos
    let (buf, bufLen) ← removeRange l l.cursorPos nextSymbolPos
    return { l with buf, bufLen }
  if key ≥ 32 ∧ key < keyOffset ∧ l.bufLen < maxInputLen - 1 then
    insertByte l (UInt8.ofNat key)
  else
    return l

/-- A C string into `buf`, with the cursor behind it. -/
def LineBuffer.load (l : LineBuffer) (entry : Text) : Checked LineBuffer := do
  let buf ← strcpy l.buf entry
  let line ← cString buf
  return { buf, bufLen := line.length, cursorPos := line.length }

/-! ## History -/

/-- `(history_write - back + HISTORY_CAPACITY) % HISTORY_CAPACITY` on `size_t` -/
def historyIndex (historyWrite back : Nat) : Nat :=
  (historyWrite + 2 ^ 64 - back + historyCapacity) % 2 ^ 64 % historyCapacity

/-- `history`, `history_count` and `history_write`. -/
structure History where
  slots : List Text
  count : Nat
  write : Nat
  deriving DecidableEq, Repr

def History.empty : History where
  slots := List.replicate historyCapacity []
  count := 0
  write := 0

/-- A line without the newline at its end. -/
def stripNewline (line : Text) : Text :=
  if line.getLast? = some newline then line.dropLast else line

/-- The loop of `history_load`; every round takes at least one byte of the file. -/
def historyLoadFrom : (fuel : Nat) → (file : Text) → History → Checked History
  | 0, file, h => if file = [] then .ok h else .error .outOfFuel
  | fuel + 1, file, h => do
    if file = [] then return h
    let (chunk, file) := fgets (maxInputLen - 1) file
    if h.count ≥ historyCapacity then return h
    let line := stripNewline (cstr chunk)
    if line = [] then historyLoadFrom fuel file h
    else
      let entry ← strcpyText line
      let slots ← writeAt h.slots h.write entry
      historyLoadFrom fuel file
        { slots, count := h.count + 1, write := (h.write + 1) % historyCapacity }

/-- `history_load`, on the contents of the file if there is one. -/
def historyLoad (historyFile : Option Text) : Checked History :=
  match historyFile with
  | none => .ok .empty
  | some file => historyLoadFrom file.length file .empty

/-- `history_save`: the new contents of the file. -/
def historySave (h : History) (historyFile : Option Text) : Checked (Option Text) := do
  if h.count = 0 then return historyFile
  let start := historyIndex h.write h.count
  let lines ← (List.range h.count).mapM fun i => do
    let line ← readAt h.slots ((start + i) % historyCapacity)
    return line ++ [newline]
  return some lines.flatten

def isDuplicateRecord (line : Text) (h : History) : Checked Bool := do
  if h.count > 0 then
    let last ← readAt h.slots (historyIndex h.write 1)
    return line == last
  return false

/-! ## The loop -/

/-- The variables of `repl_run` that outlive a key. -/
structure Repl where
  line : LineBuffer
  history : History
  savedInput : Text
  browseOffset : Nat
  deriving DecidableEq, Repr

/-- The program at the prompt, with what it shares with its environment. -/
structure Session where
  repl : Repl
  stdin : List UInt8
  historyFile : Option Text
  /-- The lines that were handed to `execute_fn`, the last one at the end. -/
  executed : List Text
  deriving DecidableEq, Repr

def emptyLine : LineBuffer where
  buf := List.replicate maxInputLen 0
  bufLen := 0
  cursorPos := 0

def startSession (historyFile : Option Text) (stdin : List UInt8) : Checked Session := do
  let history ← historyLoad historyFile
  return {
    repl := { line := emptyLine, history, savedInput := [], browseOffset := 0 }
    stdin, historyFile, executed := [] }

/-- The branch for Up. -/
def browseUp (r : Repl) : Checked Repl := do
  let savedInput ← if r.browseOffset = 0 then do
      let typed ← cString r.line.buf
      strcpyText typed
    else pure r.savedInput
  let browseOffset := r.browseOffset + 1
  let entry ← readAt r.history.slots (historyIndex r.history.write browseOffset)
  let line ← r.line.load entry
  return { r with line, savedInput, browseOffset }

/-- The branch for Down. -/
def browseDown (r : Repl) : Checked Repl := do
  let browseOffset := r.browseOffset - 1
  let entry ← if browseOffset = 0 then pure r.savedInput
    else readAt r.history.slots (historyIndex r.history.write browseOffset)
  let line ← r.line.load entry
  return { r with line, browseOffset }

/-- The first entry, of those that are so far back, that contains the text. -/
def searchHistory (h : History) (searchBuf : Text) : (back : List Nat) → Checked (Option Nat)
  | [] => .ok none
  | i :: back => do
    let idx := historyIndex h.write (i + 1)
    let entry ← readAt h.slots idx
    if searchBuf <:+: entry then return some idx else searchHistory h searchBuf back

/-- What follows a change of the text that is searched for. -/
def findMatch (h : History) (searchBuf : Text) (searchFrom : Nat) : Checked (Option Nat) :=
  if searchBuf.length > 0 then
    searchHistory h searchBuf ((List.range h.count).drop searchFrom)
  else .ok none

/-- Where a repeated Ctrl+R goes on: behind the entry that was found. -/
def repeatFrom (h : History) (matchIdx : Option Nat) : Nat :=
  match matchIdx with
  | none => 0
  | some m =>
    match (List.range h.count).find? fun i => historyIndex h.write (i + 1) = m with
    | none => 0
    | some i => i + 1

/-- The loop of Ctrl+R, which reads its own keys. -/
def reverseSearch (r : Repl) : (stdin : List UInt8) → (searchBuf : Text) →
    (matchIdx : Option Nat) → Checked (Repl × List UInt8)
  | [], _, _ => .ok (r, [])
  | skey :: stdin, searchBuf, matchIdx => do
    if skey = 10 ∨ skey = 13 then
      match matchIdx with
      | none => return (r, stdin)
      | some m =>
        let entry ← readAt r.history.slots m
        let line ← r.line.load entry
        return ({ r with line }, stdin)
    else if skey = 27 then return (r, stdin)
    else if skey = 127 ∧ searchBuf.length > 0 then
      let searchBuf := searchBuf.dropLast
      let matchIdx ← findMatch r.history searchBuf 0
      reverseSearch r stdin searchBuf matchIdx
    else if skey.toNat = keyCtrlR then
      let matchIdx ← findMatch r.history searchBuf (repeatFrom r.history matchIdx)
      reverseSearch r stdin searchBuf matchIdx
    else if skey ≥ 32 ∧ skey < 127 ∧ searchBuf.length < 255 then
      let searchBuf := searchBuf ++ [skey]
      let matchIdx ← findMatch r.history searchBuf 0
      reverseSearch r stdin searchBuf matchIdx
    else reverseSearch r stdin searchBuf matchIdx

/-- A key that stays at the prompt, other than Ctrl+R. -/
def pressKey (r : Repl) (key : Nat) : Checked Repl := do
  if key = keyUp ∧ r.browseOffset < r.history.count then browseUp r
  else if key = keyDown ∧ r.browseOffset > 0 then browseDown r
  else
    let line ← editKey r.line key
    return { r with line }

/-- A line that was not the last one becomes part of the history. -/
def recordLine (h : History) (historyFile : Option Text) (line : Text) :
    Checked (History × Option Text) := do
  let entry ← strcpyText line
  let slots ← writeAt h.slots h.write entry
  let h' : History := {
    slots
    count := if h.count < historyCapacity then h.count + 1 else h.count
    write := (h.write + 1) % historyCapacity }
  let historyFile ← historySave h' historyFile
  return (h', historyFile)

/-- Enter: what follows the loop over the keys.  `none` leaves `repl_run`. -/
def enterLine (s : Session) : Checked (Option Session) := do
  let r := s.repl
  let line ← cString r.line.buf
  if line = text "exit" then return none
  if r.line.bufLen = 0 then return some s
  let duplicate ← isDuplicateRecord line r.history
  let (history, historyFile) ← if duplicate then pure (r.history, s.historyFile)
    else recordLine r.history s.historyFile line
  let buf ← writeAt r.line.buf 0 0
  return some {
    s with
    repl := { r with line := { buf, bufLen := 0, cursorPos := 0 }, history, browseOffset := 0 }
    historyFile, executed := s.executed ++ [line] }

/-- One round of the loop over the keys. -/
def feedKey (s : Session) (key : Nat) : Checked (Option Session) := do
  if key = 10 ∨ key = 13 then enterLine s
  else if key = 0 then return some s
  else if key = keyCtrlD ∧ s.repl.line.bufLen = 0 then return none
  else if key = keyCtrlL then return some s
  else if key = keyCtrlR then
    let (repl, stdin) ← reverseSearch s.repl s.stdin [] none
    return some { s with repl, stdin }
  else
    let repl ← pressKey s.repl key
    return some { s with repl }

/-- A key of the input. -/
def replStep (s : Session) : Checked (Option Session) :=
  let (key, stdin) := readKey s.stdin
  feedKey { s with stdin } key

end Maxql
