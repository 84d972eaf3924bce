import Maxql.Lib.Program
import Maxql.Parser.Lexing

/-!
# The lexer with its position

`src/core/lexer.c` with the `Lexer` of the source: the whole input and a
position in it.  A character may be read up to and including the NUL behind
the input; any other read faults.

* `Standing`: a position as what is behind it and what is in front of it;
* `runs_scanWhile`, `runs_readNumberLoop`: the loops;
* `scans_lexerReadIdent`, `scans_lexerReadNumber`, …: the readers of tokens;
* `scans_lexerNext`, `runs_lexerNext`: `lexer_next` reads what `lexerNext` cuts off, and moves on.
-/

namespace Maxql

open Program Bytes

/-! ## Definitions -/

structure PosLexer where
  input : Text
  pos : Nat
  deriving DecidableEq, Repr

namespace PosLexer

def hasMore (lexer : PosLexer) : Bool := lexer.pos < lexer.input.length

/-- `input.ptr[i]` -/
def charAt (lexer : PosLexer) (i : Nat) : Checked UInt8 :=
  if i ≤ lexer.input.length then .ok (lexer.input.getD i 0) else .error .outOfBounds

def currentChar : Prog PosLexer UInt8 := do
  let lexer ← get
  lexer.charAt lexer.pos

def nextChar : Prog PosLexer UInt8 := do
  let lexer ← get
  lexer.charAt (lexer.pos + 1)

def advance (n : Nat) : Prog PosLexer Unit :=
  modify fun lexer => { lexer with pos := lexer.pos + n }

/-- The view from `start` up to the position. -/
def lexemeFrom (start : Nat) : Prog PosLexer Text := do
  let lexer ← get
  return (lexer.input.drop start).take (lexer.pos - start)

/-- The loops that take characters `while` there are more of a kind. -/
def scanLoop (p : UInt8 → Bool) : Nat → Prog PosLexer Unit
  | 0 => liftM (Except.error .outOfFuel : Checked Unit)
  | fuel + 1 => do
    if (← get).hasMore then
      if p (← currentChar) then
        advance 1
        scanLoop p fuel

def scanWhile (p : UInt8 → Bool) : Prog PosLexer Unit := do
  scanLoop p ((← get).input.length + 1)

def lexerSkipWhitespace : Prog PosLexer Unit := scanWhile isWhitespace

def lexerReadIdent : Prog PosLexer Token := do
  let start := (← get).pos
  scanWhile isIdent
  return ⟨.ident, ← lexemeFrom start⟩

def readNumberLoop (hasDot : Bool) : Nat → Prog PosLexer Unit
  | 0 => liftM (Except.error .outOfFuel : Checked Unit)
  | fuel + 1 => do
    if (← get).hasMore then
      let c ← currentChar
      if isDigit c || isDot c then
        if isDot c && hasDot then return ()
        advance 1
        readNumberLoop (hasDot || isDot c) fuel

def lexerReadNumber : Prog PosLexer Token := do
  let start := (← get).pos
  readNumberLoop false ((← get).input.length + 1)
  return ⟨.number, ← lexemeFrom start⟩

def lexerReadHex : Prog PosLexer Token := do
  advance 2
  let start := (← get).pos
  scanWhile isHexDigit
  let token ← lexemeFrom start
  if token.length = 0 then return ⟨.invalid, token⟩
  return ⟨.hex, token⟩

def lexerReadString : Prog PosLexer Token := do
  advance 1
  let start := (← get).pos
  scanWhile fun c => !isQuote c
  let token ← lexemeFrom start
  if !(← get).hasMore then return ⟨.invalid, token⟩
  if !isQuote (← currentChar) then return ⟨.invalid, token⟩
  advance 1
  return ⟨.string, token⟩

/-- A view of `n` characters from the position on, which is then moved behind them. -/
def takeSymbol (type : TokenType) (n : Nat) : Prog PosLexer Token := do
  let lexer ← get
  advance n
  return ⟨type, (lexer.input.drop lexer.pos).take n⟩

def lexerReadSymbol : Prog PosLexer Token := do
  if (← get).hasMore then
    let tokenType := lexerSymbolTwoChars (← currentChar) (← nextChar)
    if tokenType ≠ .invalid then return ← takeSymbol tokenType 2
  takeSymbol (lexerSymbolType (← currentChar)) 1

def lexerNext : Prog PosLexer Token := do
  lexerSkipWhitespace
  if !(← get).hasMore then return ⟨.eof, []⟩
  let c ← currentChar
  if isIdentStart c then return ← lexerReadIdent
  if isDigit c then
    if (← get).hasMore then
      if isHexMark (← nextChar) then return ← lexerReadHex
    return ← lexerReadNumber
  if isQuote c then return ← lexerReadString
  lexerReadSymbol

end PosLexer

/-! ## Positions -/

/-- The lexer behind `front`, with `rest` in front of it. -/
def Standing (front rest : Text) : PosLexer := ⟨front ++ rest, front.length⟩

namespace PosLexer

variable {front rest word : Text} {c : UInt8}

theorem hasMore_standing : (Standing front rest).hasMore = !rest.isEmpty := by
  cases rest <;> simp [hasMore, Standing]

/-- The positions behind `word` are the same, whichever side it is written on. -/
theorem standing_append :
    Standing (front ++ word) rest = { Standing front (word ++ rest) with
      pos := (Standing front (word ++ rest)).pos + word.length } := by
  simp [Standing]

theorem runs_currentChar :
    Runs currentChar (Standing front rest) (rest.headD 0) (Standing front rest) := by
  refine (Runs.get _).bind (Runs.lift ?_ _)
  cases rest <;> simp [charAt, Standing, List.getD]

theorem runs_nextChar :
    Runs nextChar (Standing front (c :: rest)) (rest.headD 0) (Standing front (c :: rest)) := by
  refine (Runs.get _).bind (Runs.lift ?_ _)
  cases rest <;> simp [charAt, Standing, List.getD]

theorem runs_advance (front word rest : Text) :
    Runs (advance word.length) (Standing front (word ++ rest)) ()
    (Standing (front ++ word) rest) := by
  rw [standing_append]
  exact Runs.modify _ _

theorem runs_lexemeFrom (front word rest : Text) :
    Runs (lexemeFrom front.length) (Standing (front ++ word) rest) word
    (Standing (front ++ word) rest) := by
  refine (Runs.get _).bind ?_
  have hword : ((Standing (front ++ word) rest).input.drop front.length).take
      ((Standing (front ++ word) rest).pos - front.length) = word := by
    simp [Standing]
  rw [hword]
  exact Runs.pure _ _

theorem runs_takeSymbol (type : TokenType) (front word rest : Text) {n : Nat}
    (hn : n = word.length) :
    Runs (takeSymbol type n) (Standing front (word ++ rest)) ⟨type, word⟩
      (Standing (front ++ word) rest) := by
  subst hn
  refine (Runs.get _).bind ((runs_advance _ _ _).bind ?_)
  have hword : ((Standing front (word ++ rest)).input.drop
      (Standing front (word ++ rest)).pos).take word.length = word := by
    simp [Standing]
  rw [hword]
  exact Runs.pure _ _

/-! ## Loops -/

theorem runs_scanLoop (p : UInt8 → Bool) {fuel : Nat} (hfuel : rest.length < fuel) :
    Runs (scanLoop p fuel) (Standing front rest) ()
      (Standing (front ++ rest.takeWhile p) (rest.dropWhile p)) := by
  induction fuel generalizing front rest with
  | zero => exact absurd hfuel (Nat.not_lt_zero _)
  | succ fuel ih =>
    refine (Runs.get _).bind ?_
    rw [hasMore_standing]
    cases rest with
    | nil => simpa using Runs.pure () (Standing front [])
    | cons c rest =>
      refine runs_currentChar.bind ?_
      by_cases hc : p c = true
      · refine Runs.ite_pos hc ?_
        have hstep : Runs (advance 1) (Standing front (c :: rest)) ()
            (Standing (front ++ [c]) rest) := runs_advance _ [c] _
        have hrest := @ih (front ++ [c]) rest (Nat.lt_of_succ_lt_succ hfuel)
        rw [List.takeWhile_cons_of_pos hc, List.dropWhile_cons_of_pos hc]
        rw [List.append_assoc, List.singleton_append] at hrest
        exact hstep.bind hrest
      · refine Runs.ite_neg hc ?_
        rw [List.takeWhile_cons_of_neg hc, List.dropWhile_cons_of_neg hc, List.append_nil]
        exact Runs.pure _ _

theorem length_lt_fuel : rest.length < (Standing front rest).input.length + 1 := by
  show rest.length < (front ++ rest).length + 1
  rw [List.length_append]
  omega

theorem runs_scanWhile (p : UInt8 → Bool) (front rest : Text) :
    Runs (scanWhile p) (Standing front rest) ()
      (Standing (front ++ rest.takeWhile p) (rest.dropWhile p)) :=
  (Runs.get _).bind (runs_scanLoop p length_lt_fuel)

theorem runs_readNumberLoop (hasDot : Bool) {fuel : Nat} (hfuel : rest.length < fuel) :
    Runs (readNumberLoop hasDot fuel) (Standing front rest) ()
      (Standing (front ++ (numberChars hasDot rest).1) (numberChars hasDot rest).2) := by
  induction fuel generalizing front rest hasDot with
  | zero => exact absurd hfuel (Nat.not_lt_zero _)
  | succ fuel ih =>
    refine (Runs.get _).bind ?_
    rw [hasMore_standing]
    cases rest with
    | nil => simpa [numberChars] using Runs.pure () (Standing front [])
    | cons c rest =>
      refine runs_currentChar.bind ?_
      unfold numberChars
      show Runs (if (isDigit c || isDot c) = true then _ else _) _ _ _
      by_cases hdot : (isDot c && hasDot) = true
      · have hkind : (isDigit c || isDot c) = true := by
          rw [(Bool.and_eq_true_iff.1 hdot).1, Bool.or_true]
        rw [if_pos hkind, if_pos hdot]
        refine Runs.ite_pos hdot ?_
        rw [List.append_nil]
        exact Runs.pure _ _
      · rw [if_neg hdot]
        by_cases hkind : (isDigit c || isDot c) = true
        · rw [if_pos hkind, if_pos hkind]
          refine Runs.ite_neg hdot ?_
          have hstep : Runs (advance 1) (Standing front (c :: rest)) ()
              (Standing (front ++ [c]) rest) := runs_advance _ [c] _
          have hrest := @ih (front ++ [c]) rest (hasDot || isDot c)
            (Nat.lt_of_succ_lt_succ hfuel)
          rw [List.append_assoc, List.singleton_append] at hrest
          exact hstep.bind hrest
        · rw [if_neg hkind, if_neg hkind, List.append_nil]
          exact Runs.pure _ _

/-! ## Tokens -/

/-- With `input` in front of it, `p` hands out the token of `result` and leaves its rest. -/
def ScansTo (p : Prog PosLexer Token) (input : Text) (result : Token × Lexer) : Prop :=
  ∀ front, ∃ word, input = word ++ result.2 ∧
    Runs p (Standing front input) result.1 (Standing (front ++ word) result.2)

theorem scans_lexerReadIdent (input : Text) :
    ScansTo lexerReadIdent input (Maxql.lexerReadIdent input) := by
  intro front
  refine ⟨input.takeWhile isIdent, List.takeWhile_append_dropWhile.symm, ?_⟩
  exact (Runs.get _).bind ((runs_scanWhile isIdent _ _).bind
    ((runs_lexemeFrom _ _ _).bind (Runs.pure _ _)))

theorem scans_lexerReadNumber (input : Text) :
    ScansTo lexerReadNumber input (Maxql.lexerReadNumber input) := by
  intro front
  refine ⟨(numberChars false input).1, (numberChars_append false input).symm, ?_⟩
  refine (Runs.get _).bind ((Runs.get _).bind ?_)
  exact (runs_readNumberLoop false length_lt_fuel).bind
    ((runs_lexemeFrom _ _ _).bind (Runs.pure _ _))

theorem scans_lexerReadHex (c : UInt8) (rest : Text) :
    ScansTo lexerReadHex (c :: 120 :: rest) (Maxql.lexerReadHex (c :: 120 :: rest)) := by
  intro front
  refine ⟨c :: 120 :: rest.takeWhile isHexDigit, ?_, ?_⟩
  · simp [Maxql.lexerReadHex]
  · have hmark : Runs (advance 2) (Standing front (c :: 120 :: rest)) ()
        (Standing (front ++ [c, 120]) rest) := runs_advance _ [c, 120] _
    have hword : front ++ c :: 120 :: rest.takeWhile isHexDigit
        = (front ++ [c, 120]) ++ rest.takeWhile isHexDigit := by simp
    rw [hword]
    refine hmark.bind ((Runs.get _).bind ((runs_scanWhile isHexDigit _ _).bind
      ((runs_lexemeFrom _ _ _).bind ?_)))
    simp only [Maxql.lexerReadHex, List.drop_succ_cons, List.drop_zero]
    by_cases hdigits : rest.takeWhile isHexDigit = []
    · rw [if_pos hdigits]
      refine Runs.ite_pos ?_ (Runs.pure _ _)
      rw [hdigits]
      rfl
    · rw [if_neg hdigits]
      refine Runs.ite_neg ?_ (Runs.pure _ _)
      rw [List.length_eq_zero_iff]
      exact hdigits

theorem scans_lexerReadString (rest : Text) :
    ScansTo lexerReadString (quote :: rest) (Maxql.lexerReadString (quote :: rest)) := by
  intro front
  have hopen : Runs (advance 1) (Standing front (quote :: rest)) ()
      (Standing (front ++ [quote]) rest) := runs_advance _ [quote] _
  have hscan := runs_scanWhile (fun c => !isQuote c) (front ++ [quote]) rest
  have hlexeme : Runs (lexemeFrom (front ++ [quote]).length) _ _ _ :=
    runs_lexemeFrom (front ++ [quote]) (rest.takeWhile fun c => !isQuote c)
      (rest.dropWhile fun c => !isQuote c)
  have hsplit : rest.takeWhile (fun c => !isQuote c) ++ rest.dropWhile (fun c => !isQuote c)
      = rest := List.takeWhile_append_dropWhile
  simp only [Maxql.lexerReadString, List.tail_cons]
  cases hclose : rest.dropWhile fun c => !isQuote c with
  | nil =>
    rw [hclose] at hscan hlexeme hsplit
    refine ⟨quote :: rest, by simp, ?_⟩
    have hword : front ++ quote :: rest
        = (front ++ [quote]) ++ rest.takeWhile fun c => !isQuote c := by
      rw [List.append_nil] at hsplit
      rw [hsplit]
      simp
    rw [hword]
    refine hopen.bind ((Runs.get _).bind (hscan.bind (hlexeme.bind ((Runs.get _).bind ?_))))
    rw [hasMore_standing]
    exact Runs.pure _ _
  | cons c tail =>
    have hquote : isQuote c = true := by
      have hhead := List.head_dropWhile_not (fun c => !isQuote c)
        (show rest.dropWhile (fun c => !isQuote c) ≠ [] by
          rw [hclose]
          exact List.cons_ne_nil _ _)
      simp only [hclose, List.head_cons] at hhead
      simpa using hhead
    rw [hclose] at hscan hlexeme hsplit
    refine ⟨quote :: (rest.takeWhile (fun c => !isQuote c) ++ [c]), ?_, ?_⟩
    · simpa using congrArg (quote :: ·) hsplit.symm
    have hclosing : Runs (advance 1)
        (Standing ((front ++ [quote]) ++ rest.takeWhile fun c => !isQuote c) (c :: tail)) ()
        (Standing (((front ++ [quote]) ++ rest.takeWhile fun c => !isQuote c) ++ [c]) tail) :=
      runs_advance _ [c] _
    have hword : front ++ quote :: (rest.takeWhile (fun c => !isQuote c) ++ [c])
        = ((front ++ [quote]) ++ rest.takeWhile fun c => !isQuote c) ++ [c] := by simp
    rw [hword]
    refine hopen.bind ((Runs.get _).bind (hscan.bind (hlexeme.bind ((Runs.get _).bind ?_))))
    rw [hasMore_standing]
    refine runs_currentChar.bind ?_
    rw [List.headD_cons, hquote]
    exact hclosing.bind (Runs.pure _ _)

theorem scans_lexerReadSymbol (c : UInt8) (rest : Text) :
    ScansTo lexerReadSymbol (c :: rest) (Maxql.lexerReadSymbol c rest) := by
  intro front
  unfold Maxql.lexerReadSymbol lexerReadSymbol
  dsimp only
  by_cases htwo : lexerSymbolTwoChars c (rest.headD 0) = .invalid
  · rw [if_neg (not_not.2 htwo)]
    refine ⟨[c], rfl, (Runs.get _).bind ?_⟩
    rw [hasMore_standing]
    refine runs_currentChar.bind (runs_nextChar.bind ?_)
    rw [List.headD_cons, htwo]
    exact runs_currentChar.bind (runs_takeSymbol _ _ [c] _ rfl)
  · rw [if_pos htwo]
    cases rest with
    | nil => simp [lexerSymbolTwoChars] at htwo
    | cons n rest =>
      refine ⟨[c, n], rfl, (Runs.get _).bind ?_⟩
      rw [hasMore_standing]
      refine runs_currentChar.bind (runs_nextChar.bind ?_)
      refine Runs.ite_pos htwo ?_
      exact (runs_takeSymbol _ _ [c, n] _ rfl).bind (Runs.pure _ _)

/-- `lexer_next` in front of a character that is no whitespace. -/
theorem scans_afterSkip (c : UInt8) (rest : Text) (hc : isWhitespace c = false) :
    ScansTo lexerNext (c :: rest) (Maxql.lexerNext (c :: rest)) := by
  intro front
  have hskip : Runs lexerSkipWhitespace (Standing front (c :: rest)) ()
      (Standing front (c :: rest)) := by
    have hrun := runs_scanWhile isWhitespace front (c :: rest)
    have hneg : ¬isWhitespace c = true := by simp [hc]
    rwa [List.takeWhile_cons_of_neg hneg, List.dropWhile_cons_of_neg hneg,
      List.append_nil] at hrun
  have hnext : Maxql.lexerNext (c :: rest) = if isIdentStart c then
      Maxql.lexerReadIdent (c :: rest) else if isDigit c then
        if isHexMark (Maxql.nextChar (c :: rest)) then Maxql.lexerReadHex (c :: rest)
        else Maxql.lexerReadNumber (c :: rest)
      else if isQuote c then Maxql.lexerReadString (c :: rest)
      else Maxql.lexerReadSymbol c rest := by
    have hdrop : Maxql.lexerSkipWhitespace (c :: rest) = c :: rest :=
      List.dropWhile_cons_of_neg (by simp [hc])
    rw [Maxql.lexerNext, hdrop]
  have hmore : ¬(!(Standing front (c :: rest)).hasMore) = true := by
    rw [hasMore_standing]
    exact Bool.false_ne_true
  unfold lexerNext
  rw [hnext]
  by_cases hident : isIdentStart c = true
  · obtain ⟨word, hsplit, hrun⟩ := scans_lexerReadIdent (c :: rest) front
    rw [if_pos hident]
    refine ⟨word, hsplit, hskip.bind ((Runs.get _).bind (Runs.ite_neg hmore
      (runs_currentChar.bind ?_)))⟩
    rw [List.headD_cons]
    exact Runs.ite_pos hident hrun
  rw [if_neg hident]
  by_cases hdigit : isDigit c = true
  · rw [if_pos hdigit]
    by_cases hmark : isHexMark (rest.headD 0) = true
    · cases rest with
      | nil => cases hmark
      | cons x rest =>
        obtain rfl : x = 120 := by simpa [isHexMark] using hmark
        obtain ⟨word, hsplit, hrun⟩ := scans_lexerReadHex c rest front
        refine ⟨word, hsplit, hskip.bind ((Runs.get _).bind (Runs.ite_neg hmore
      (runs_currentChar.bind ?_)))⟩
        rw [List.headD_cons]
        refine Runs.ite_neg hident (Runs.ite_pos hdigit ((Runs.get _).bind ?_))
        rw [hasMore_standing]
        exact runs_nextChar.bind hrun
    · obtain ⟨word, hsplit, hrun⟩ := scans_lexerReadNumber (c :: rest) front
      rw [if_neg (show ¬isHexMark (Maxql.nextChar (c :: rest)) = true from hmark)]
      refine ⟨word, hsplit, hskip.bind ((Runs.get _).bind (Runs.ite_neg hmore
      (runs_currentChar.bind ?_)))⟩
      rw [List.headD_cons]
      refine Runs.ite_neg hident (Runs.ite_pos hdigit ((Runs.get _).bind ?_))
      rw [hasMore_standing]
      exact runs_nextChar.bind (Runs.ite_neg hmark hrun)
  rw [if_neg hdigit]
  by_cases hquote : isQuote c = true
  · obtain rfl : c = quote := by simpa [isQuote] using hquote
    obtain ⟨word, hsplit, hrun⟩ := scans_lexerReadString rest front
    rw [if_pos hquote]
    refine ⟨word, hsplit, hskip.bind ((Runs.get _).bind (Runs.ite_neg hmore
      (runs_currentChar.bind ?_)))⟩
    exact hrun
  · obtain ⟨word, hsplit, hrun⟩ := scans_lexerReadSymbol c rest front
    rw [if_neg hquote]
    refine ⟨word, hsplit, hskip.bind ((Runs.get _).bind (Runs.ite_neg hmore
      (runs_currentChar.bind ?_)))⟩
    rw [List.headD_cons]
    exact Runs.ite_neg hident (Runs.ite_neg hdigit (Runs.ite_neg hquote hrun))

theorem scans_lexerNext (input : Text) : ScansTo lexerNext input (Maxql.lexerNext input) := by
  intro front
  have hskip := runs_scanWhile isWhitespace front input
  have hsplit : input.takeWhile isWhitespace ++ input.dropWhile isWhitespace = input :=
    List.takeWhile_append_dropWhile
  cases hdrop : input.dropWhile isWhitespace with
  | nil =>
    have hnext : Maxql.lexerNext input = (⟨.eof, []⟩, []) := by
      rw [Maxql.lexerNext, show Maxql.lexerSkipWhitespace input = [] from hdrop]
    rw [hdrop] at hskip hsplit
    rw [hnext]
    refine ⟨input.takeWhile isWhitespace, hsplit.symm, hskip.bind ((Runs.get _).bind ?_)⟩
    rw [hasMore_standing]
    exact Runs.pure _ _
  | cons c rest =>
    have hc : isWhitespace c = false := by
      have hhead := List.head_dropWhile_not isWhitespace
        (show input.dropWhile isWhitespace ≠ [] by
          rw [hdrop]
          exact List.cons_ne_nil _ _)
      simpa only [hdrop, List.head_cons] using hhead
    have hnext : Maxql.lexerNext input = Maxql.lexerNext (c :: rest) := by
      rw [lexerNext_skip, show Maxql.lexerSkipWhitespace input = c :: rest from hdrop]
    rw [hdrop] at hskip hsplit
    obtain ⟨word, hword, hrun⟩ :=
      scans_afterSkip c rest hc (front ++ input.takeWhile isWhitespace)
    rw [hnext]
    refine ⟨input.takeWhile isWhitespace ++ word, ?_, ?_⟩
    · rw [List.append_assoc, ← hword, hsplit]
    · -- The whitespace is behind the position now, so skipping it again does nothing.
      have hstay : Runs lexerSkipWhitespace
          (Standing (front ++ input.takeWhile isWhitespace) (c :: rest)) ()
          (Standing (front ++ input.takeWhile isWhitespace) (c :: rest)) := by
        have hrun := runs_scanWhile isWhitespace (front ++ input.takeWhile isWhitespace)
          (c :: rest)
        have hneg : ¬isWhitespace c = true := by simp [hc]
        rwa [List.takeWhile_cons_of_neg hneg, List.dropWhile_cons_of_neg hneg,
          List.append_nil] at hrun
      rw [← List.append_assoc]
      exact hskip.bind (hstay.rest hrun)

/-- In front of the end `lexer_next` moves on, past the end it never gets, and it reads nothing
behind the NUL. -/
theorem runs_lexerNext {input : Text} {pos : Nat} (h : pos ≤ input.length) :
    ∃ token pos', Runs lexerNext ⟨input, pos⟩ token ⟨input, pos'⟩ ∧ pos' ≤ input.length ∧
      (pos < input.length → pos < pos') ∧
      Maxql.lexerNext (input.drop pos) = (token, input.drop pos') := by
  obtain ⟨word, hword, hrun⟩ := scans_lexerNext (input.drop pos) (input.take pos)
  have hinput : input = (input.take pos ++ word) ++ (Maxql.lexerNext (input.drop pos)).2 := by
    rw [List.append_assoc, ← hword, List.take_append_drop]
  have hfront : (input.take pos).length = pos := by
    rw [List.length_take, Nat.min_eq_left h]
  have hend : Standing (input.take pos ++ word) (Maxql.lexerNext (input.drop pos)).2
      = ⟨input, pos + word.length⟩ := by
    rw [Standing, ← hinput, List.length_append, hfront]
  have hstart : Standing (input.take pos) (input.drop pos) = ⟨input, pos⟩ := by
    rw [Standing, List.take_append_drop, hfront]
  rw [hstart, hend] at hrun
  have hrest : (Maxql.lexerNext (input.drop pos)).2 = input.drop (pos + word.length) := by
    rw [← List.drop_drop]
    conv_rhs => rw [hword, List.drop_left]
  have hlen := congrArg List.length hword
  rw [List.length_append, List.length_drop] at hlen
  refine ⟨_, _, hrun, by omega, ?_, ?_⟩
  · intro hlt
    have hshorter := lexerNext_length_lt
      (show input.drop pos ≠ [] by rw [ne_eq, List.drop_eq_nil_iff]; omega)
    rw [List.length_drop] at hshorter
    omega
  · rw [← hrest]

end PosLexer

end Maxql
