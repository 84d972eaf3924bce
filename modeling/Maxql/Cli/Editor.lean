import Maxql.Cli.Repl
import Mathlib.Data.List.DropRight
import Mathlib.Data.List.SplitBy

/-!
# The line editor

An abstract editor has the text before and the text behind its cursor.  A
character is a byte with the continuation bytes that follow it.  The branches
of the loop of `repl_run` do what the keys of the editor say, but for
Backspace at the start of a line: it goes on to the last branch, which inserts
the byte 127.

* `Shows`: the array holds the text of an editor;
* `editKey_edits`: what the branches do on a key, `editKey_backspace_start`.
-/

namespace Maxql

open Program Bytes

/-! ## The abstract editor -/

/-- The characters of a text. -/
def utf8Chars (bs : Text) : List Text := bs.splitBy fun _ b => isContinuation b

/-- What is left of a text before the start of its last word. -/
def wordStart (bs : Text) : Text := (bs.rdropWhile (· = 32)).rdropWhile (· ≠ 32)

/-- What is left of a text from its next word on. -/
def nextWord (bs : Text) : Text := (bs.dropWhile (· ≠ 32)).dropWhile (· = 32)

/-- A text and a cursor in it. -/
structure Editor where
  before : Text
  behind : Text
  deriving DecidableEq, Repr

namespace Editor

def text (e : Editor) : Text := e.before ++ e.behind

def insert (e : Editor) (b : UInt8) : Editor :=
  if e.text.length < maxInputLen - 1 then ⟨e.before ++ [b], e.behind⟩ else e

def backspace (e : Editor) : Editor := ⟨(utf8Chars e.before).dropLast.flatten, e.behind⟩

def delete (e : Editor) : Editor := ⟨e.before, (utf8Chars e.behind).tail.flatten⟩

def left (e : Editor) : Editor :=
  ⟨(utf8Chars e.before).dropLast.flatten, (utf8Chars e.before).getLastD [] ++ e.behind⟩

def right (e : Editor) : Editor :=
  ⟨e.before ++ (utf8Chars e.behind).headD [], (utf8Chars e.behind).tail.flatten⟩

def home (e : Editor) : Editor := ⟨[], e.text⟩

def toEnd (e : Editor) : Editor := ⟨e.text, []⟩

def removeWord (e : Editor) : Editor := ⟨wordStart e.before, e.behind⟩

def leftWord (e : Editor) : Editor :=
  ⟨wordStart e.before, e.text.drop (wordStart e.before).length⟩

def rightWord (e : Editor) : Editor :=
  ⟨e.text.take (e.text.length - (nextWord e.behind).length), nextWord e.behind⟩

/-- What a key does to the text and the cursor. -/
def edit (e : Editor) (key : Nat) : Editor :=
  if key = 127 then e.backspace
  else if key = keyDelete then e.delete
  else if key = keyLeft then e.left
  else if key = keyRight then e.right
  else if key = keyCtrlA then e.home
  else if key = keyCtrlE then e.toEnd
  else if key = keyCtrlLeft then e.leftWord
  else if key = keyCtrlRight then e.rightWord
  else if key = keyCtrlW then e.removeWord
  else if 32 ≤ key ∧ key < 256 then e.insert (UInt8.ofNat key)
  else e

/-- A key at the prompt: Enter begins a new line, and `exit` or Ctrl+D on an empty line leave. -/
def press (e : Editor) (key : Nat) : Option Editor :=
  if key = 10 ∨ key = 13 then
    if e.text = Maxql.text "exit" then none else some ⟨[], []⟩
  else if key = keyCtrlD ∧ e.text = [] then none
  else some (e.edit key)

end Editor

/-! ## Characters and words -/

theorem isChain_continuation {b : UInt8} {cs : Text} (hcs : ∀ c ∈ cs, isContinuation c = true) :
    (b :: cs).IsChain fun _ y => isContinuation y := by
  induction cs generalizing b with
  | nil => exact .singleton b
  | cons c cs ih =>
    obtain ⟨hc, hcs⟩ := List.forall_mem_cons.1 hcs
    exact .cons_cons hc (ih hcs)

/-- A text that ends in a character. -/
theorem utf8Chars_append {xs : Text} {b : UInt8} {cs : Text}
    (hcs : ∀ c ∈ cs, isContinuation c = true) (hb : xs = [] ∨ isContinuation b = false) :
    utf8Chars (xs ++ b :: cs) = utf8Chars xs ++ [b :: cs] := by
  have hlast : utf8Chars (b :: cs) = [b :: cs] :=
    List.splitBy_of_isChain (List.cons_ne_nil b cs) (isChain_continuation hcs)
  rcases hb with rfl | hb
  · exact hlast
  · rw [utf8Chars, List.splitBy_append fun _ _ y hy => by
      obtain rfl := Option.some.inj hy
      exact hb]
    exact congrArg (utf8Chars xs ++ ·) hlast

/-- A text that begins with a character. -/
theorem utf8Chars_cons (b : UInt8) (bs : Text) : utf8Chars (b :: bs)
    = (b :: bs.takeWhile isContinuation) :: utf8Chars (bs.dropWhile isContinuation) := by
  have hfirst : utf8Chars (b :: bs.takeWhile isContinuation)
      = [b :: bs.takeWhile isContinuation] :=
    List.splitBy_of_isChain (List.cons_ne_nil _ _)
      (isChain_continuation fun c hc => List.mem_takeWhile_imp hc)
  have hcut : b :: bs = (b :: bs.takeWhile isContinuation) ++ bs.dropWhile isContinuation := by
    rw [List.cons_append, List.takeWhile_append_dropWhile]
  have hhead : ∀ y ∈ (bs.dropWhile isContinuation).head?, isContinuation y = false := by
    intro y hy
    have hnot := List.head?_dropWhile_not isContinuation bs
    rw [Option.mem_def.1 hy] at hnot
    exact hnot
  rw [hcut, utf8Chars, List.splitBy_append fun _ _ => hhead]
  exact congrArg (· ++ utf8Chars (bs.dropWhile isContinuation)) hfirst

theorem flatten_utf8Chars (bs : Text) : (utf8Chars bs).flatten = bs :=
  List.flatten_splitBy _ bs

/-- A text up to its last word, and the rest. -/
theorem exists_wordStart (bs : Text) : ∃ word, wordStart bs ++ word = bs :=
  (List.rdropWhile_prefix _ _).trans (List.rdropWhile_prefix _ _)

theorem nextWord_suffix (bs : Text) : nextWord bs <:+ bs :=
  (List.dropWhile_suffix _).trans (List.dropWhile_suffix _)

/-! ## Moves keep the text -/

namespace Editor

theorem eq_empty {e : Editor} (h : e.text = []) : e = ⟨[], []⟩ := by
  obtain ⟨before, behind⟩ := e
  obtain ⟨rfl, rfl⟩ := List.append_eq_nil_iff.1 h
  rfl

theorem text_toEnd (e : Editor) : e.toEnd.text = e.text := List.append_nil _

theorem text_left (e : Editor) : e.left.text = e.text := by
  rw [left, text, text]
  rcases List.eq_nil_or_concat' (utf8Chars e.before) with hnil | ⟨init, last, hlast⟩
  · have hbefore := flatten_utf8Chars e.before
    rw [hnil] at hbefore ⊢
    rw [← hbefore]
    rfl
  · have hbefore := flatten_utf8Chars e.before
    rw [hlast, List.flatten_append, List.flatten_singleton] at hbefore
    rw [hlast, List.dropLast_concat, List.getLastD_concat, ← List.append_assoc, hbefore]

theorem text_right (e : Editor) : e.right.text = e.text := by
  have hbehind := flatten_utf8Chars e.behind
  rw [right, text, text, List.append_assoc]
  cases hchars : utf8Chars e.behind with
  | nil =>
    rw [hchars] at hbehind
    rw [← hbehind]
    rfl
  | cons char chars =>
    rw [hchars, List.flatten_cons] at hbehind
    rw [List.headD_cons, List.tail_cons, hbehind]

theorem text_leftWord (e : Editor) : e.leftWord.text = e.text := by
  obtain ⟨word, hword⟩ := exists_wordStart e.before
  have htext : e.text = wordStart e.before ++ (word ++ e.behind) := by
    rw [← List.append_assoc, hword]
    rfl
  show wordStart e.before ++ e.text.drop (wordStart e.before).length = e.text
  rw [htext, List.drop_left]

theorem text_rightWord (e : Editor) : e.rightWord.text = e.text := by
  obtain ⟨word, hword⟩ : nextWord e.behind <:+ e.text :=
    (nextWord_suffix e.behind).trans (List.suffix_append _ _)
  show e.text.take (e.text.length - (nextWord e.behind).length) ++ nextWord e.behind = e.text
  rw [← hword, List.length_append, Nat.add_sub_cancel, List.take_left]

theorem backspace_sublist (e : Editor) : e.backspace.text.Sublist e.text := by
  have hchars := (List.dropLast_sublist (utf8Chars e.before)).flatten
  rw [flatten_utf8Chars] at hchars
  exact hchars.append_right e.behind

theorem delete_sublist (e : Editor) : e.delete.text.Sublist e.text := by
  have hchars := (List.tail_sublist (utf8Chars e.behind)).flatten
  rw [flatten_utf8Chars] at hchars
  exact hchars.append_left e.before

theorem removeWord_sublist (e : Editor) : e.removeWord.text.Sublist e.text := by
  obtain ⟨word, hword⟩ := exists_wordStart e.before
  exact (hword ▸ List.sublist_append_left _ word).append_right e.behind

/-- A key brings no byte into the text but its own. -/
theorem mem_edit {e : Editor} {key : Nat} {b : UInt8} (hb : b ∈ (e.edit key).text) :
    b ∈ e.text ∨ (32 ≤ key ∧ key < 256 ∧ key ≠ 127 ∧ b = UInt8.ofNat key) := by
  unfold edit at hb
  split at hb
  · exact .inl (e.backspace_sublist.mem hb)
  · next hback =>
    split at hb
    · exact .inl (e.delete_sublist.mem hb)
    split at hb
    · exact .inl (e.text_left ▸ hb)
    split at hb
    · exact .inl (e.text_right ▸ hb)
    split at hb
    · exact .inl hb
    split at hb
    · exact .inl (e.text_toEnd ▸ hb)
    split at hb
    · exact .inl (e.text_leftWord ▸ hb)
    split at hb
    · exact .inl (e.text_rightWord ▸ hb)
    split at hb
    · exact .inl (e.removeWord_sublist.mem hb)
    split at hb
    · next hbyte =>
      unfold insert at hb
      split at hb
      · rw [text, List.append_assoc] at hb
        rcases List.mem_append.1 hb with hb | hb
        · exact .inl (List.mem_append_left _ hb)
        · rcases List.mem_cons.1 hb with rfl | hb
          · exact .inr ⟨hbyte.1, hbyte.2, hback, rfl⟩
          · exact .inl (List.mem_append_right _ hb)
      · exact .inl hb
    · exact .inl hb

end Editor

/-! ## The line in its array -/

/-- The array holds the text of the editor with a NUL behind it. -/
structure Shows (l : LineBuffer) (e : Editor) : Prop where
  buf : ∃ junk, l.buf = e.text ++ 0 :: junk
  len : l.buf.length = maxInputLen
  bufLen : l.bufLen = e.text.length
  cursorPos : l.cursorPos = e.before.length

theorem skipLeft_eq (p : UInt8 → Bool) (xs rest : Text) :
    skipLeft p (xs ++ rest) xs.length = .ok (xs.rdropWhile p).length := by
  induction xs using List.reverseRecOn generalizing rest with
  | nil => rfl
  | append_singleton xs a ih =>
    rw [List.length_append, List.length_singleton, skipLeft, List.append_assoc,
      List.singleton_append, readAt_append_cons, Checked.ok_bind]
    by_cases ha : p a
    · rw [if_pos ha, ih, List.rdropWhile_concat_pos _ _ _ ha]
    · rw [if_neg ha, List.rdropWhile_concat_neg _ _ _ ha, List.length_append,
        List.length_singleton]

theorem skipRight_eq (p : UInt8 → Bool) (xs : Text) : ∀ pre rest : Text,
    skipRight p (pre ++ (xs ++ rest)) xs.length pre.length
      = .ok (pre ++ xs.takeWhile p).length := by
  induction xs with
  | nil =>
    intro pre rest
    rw [List.takeWhile_nil, List.append_nil]
    rfl
  | cons a xs ih =>
    intro pre rest
    rw [List.length_cons, skipRight, List.cons_append, readAt_append_cons, Checked.ok_bind]
    by_cases ha : p a
    · have hrest := ih (pre ++ [a]) rest
      rw [List.append_assoc, List.singleton_append, List.length_append, List.length_singleton]
        at hrest
      rw [if_pos ha, hrest, List.takeWhile_cons_of_pos ha, List.append_assoc,
        List.singleton_append]
    · rw [if_neg ha, List.takeWhile_cons_of_neg ha, List.append_nil]

/-- The cursor moves over the character before it. -/
theorem charLeft_spec {xs : Text} (hxs : xs ≠ []) (rest : Text) : ∃ ys b cs,
    xs = ys ++ b :: cs ∧ (∀ c ∈ cs, isContinuation c = true) ∧
      (ys = [] ∨ isContinuation b = false) ∧ charLeft (xs ++ rest) xs.length = .ok ys.length := by
  induction xs using List.reverseRecOn generalizing rest with
  | nil => exact absurd rfl hxs
  | append_singleton xs a ih =>
    rw [List.length_append, List.length_singleton, charLeft, List.append_assoc,
      List.singleton_append]
    by_cases hzero : xs.length = 0
    · obtain rfl := List.eq_nil_of_length_eq_zero hzero
      exact ⟨[], a, [], rfl, fun c hc => absurd hc List.not_mem_nil, .inl rfl, rfl⟩
    · rw [if_neg hzero, readAt_append_cons, Checked.ok_bind]
      by_cases ha : isContinuation a = true
      · obtain ⟨ys, b, cs, hcut, hcs, hb, hrun⟩ :=
          ih (List.ne_nil_of_length_pos (Nat.pos_of_ne_zero hzero)) (a :: rest)
        refine ⟨ys, b, cs ++ [a], ?_, ?_, hb, ?_⟩
        · rw [hcut, List.append_assoc, List.cons_append]
        · intro c hc
          rcases List.mem_append.1 hc with hc | hc
          · exact hcs c hc
          · rw [List.mem_singleton.1 hc]
            exact ha
        · rw [if_pos ha]
          exact hrun
      · rw [if_neg ha]
        exact ⟨xs, a, [], rfl, fun c hc => absurd hc List.not_mem_nil,
          .inr (Bool.eq_false_iff.2 ha), rfl⟩

namespace Shows

variable {l : LineBuffer} {e : Editor} (h : Shows l e)

include h

theorem exists_behind : ∃ junk, l.buf = e.before ++ (e.behind ++ 0 :: junk) := by
  obtain ⟨junk, hbuf⟩ := h.buf
  exact ⟨junk, hbuf.trans (List.append_assoc _ _ _)⟩

theorem length_text_lt : e.text.length < maxInputLen := by
  obtain ⟨junk, hbuf⟩ := h.buf
  have hlen := h.len
  rw [hbuf, List.length_append, List.length_cons] at hlen
  omega

/-- The cursor goes somewhere else in the same text. -/
theorem move {e' : Editor} (htext : e'.text = e.text) {pos : Nat}
    (hpos : pos = e'.before.length) : Shows { l with cursorPos := pos } e' := by
  refine ⟨?_, h.len, ?_, hpos⟩
  · rw [htext]
    exact h.buf
  · rw [htext]
    exact h.bufLen

theorem wordLeft_eq : wordLeft l.buf l.cursorPos = .ok (wordStart e.before).length := by
  obtain ⟨junk, hbuf⟩ := h.exists_behind
  rw [h.cursorPos, hbuf, wordLeft]
  by_cases hzero : e.before.length = 0
  · rw [if_pos hzero, List.eq_nil_of_length_eq_zero hzero]
    rfl
  · obtain ⟨spaces, hspaces⟩ := List.rdropWhile_prefix (· = (32 : UInt8)) e.before
    have hword := skipLeft_eq (· ≠ 32) (e.before.rdropWhile (· = 32))
      (spaces ++ (e.behind ++ 0 :: junk))
    rw [← List.append_assoc, hspaces] at hword
    rw [if_neg hzero, skipLeft_eq, Checked.ok_bind]
    exact hword

theorem charRight_eq {b : UInt8} {bs : Text} (hbehind : e.behind = b :: bs) :
    charRight l.buf l.bufLen l.cursorPos
      = .ok (e.before ++ b :: bs.takeWhile isContinuation).length := by
  obtain ⟨junk, hbuf⟩ := h.exists_behind
  have hroom : l.bufLen - (l.cursorPos + 1) = bs.length := by
    rw [h.bufLen, h.cursorPos, Editor.text, hbehind, List.length_append, List.length_cons]
    omega
  have hpos : l.cursorPos + 1 = (e.before ++ [b]).length := by
    rw [h.cursorPos, List.length_append, List.length_singleton]
  have hcut : l.buf = (e.before ++ [b]) ++ (bs ++ 0 :: junk) := by
    rw [hbuf, hbehind, List.append_assoc]
    rfl
  rw [charRight, hroom, hpos, hcut, skipRight_eq, List.append_assoc]
  rfl

theorem wordRight_eq :
    wordRight l.buf l.bufLen l.cursorPos
      = .ok (e.text.length - (nextWord e.behind).length) := by
  obtain ⟨junk, hbuf⟩ := h.exists_behind
  have hroom : l.bufLen - l.cursorPos = e.behind.length := by
    rw [h.bufLen, h.cursorPos, Editor.text, List.length_append]
    omega
  have hword := skipRight_eq (· ≠ 32) e.behind e.before (0 :: junk)
  have hsplit : e.behind.takeWhile (· ≠ 32) ++ e.behind.dropWhile (· ≠ 32) = e.behind :=
    List.takeWhile_append_dropWhile
  have hlen := congrArg List.length hsplit
  rw [List.length_append] at hlen
  have hspace := skipRight_eq (· = 32) (e.behind.dropWhile (· ≠ 32))
    (e.before ++ e.behind.takeWhile (· ≠ 32)) (0 :: junk)
  have hsplit' := congrArg List.length (List.takeWhile_append_dropWhile
    (p := (· = (32 : UInt8))) (l := e.behind.dropWhile (· ≠ 32)))
  rw [List.length_append] at hsplit'
  have hroom' : l.bufLen - (e.before ++ e.behind.takeWhile (· ≠ 32)).length
      = (e.behind.dropWhile (· ≠ 32)).length := by
    rw [h.bufLen, Editor.text, List.length_append, List.length_append]
    omega
  rw [List.append_assoc, ← List.append_assoc _ _ (0 :: junk), hsplit] at hspace
  rw [wordRight, hroom, h.cursorPos, hbuf, hword, Checked.ok_bind, hroom', hspace]
  rw [List.length_append, List.length_append, Editor.text, List.length_append, nextWord]
  congr 1
  omega

/-- The part of the text between two positions goes. -/
theorem remove {a b c : Text} (htext : e.text = a ++ (b ++ c)) : ∃ buf bufLen,
    removeRange l a.length (a ++ b).length = .ok (buf, bufLen) ∧
      Shows { buf, bufLen, cursorPos := a.length } ⟨a, c⟩ := by
  obtain ⟨junk, hbuf⟩ := h.buf
  have hbufLen := h.bufLen
  have hlen := h.len
  rw [htext] at hbuf hbufLen
  rw [hbuf] at hlen
  simp only [List.length_append, List.length_cons] at hlen hbufLen
  have hmoved : l.bufLen - (a ++ b).length = c.length := by
    rw [List.length_append]
    omega
  have hkept : l.bufLen - ((a ++ b).length - a.length) = (a ++ c).length := by
    rw [List.length_append, List.length_append]
    omega
  have hcopy : copySlots l.buf a.length l.buf (a ++ b).length c.length
      = .ok ((a ++ c) ++ l.buf.drop (a.length + c.length)) := by
    have hend : l.buf.length = a.length + (b.length + c.length) + (junk.length + 1) := by
      rw [hbuf]
      simp only [List.length_append, List.length_cons]
    rw [copySlots_of_le (by rw [List.length_append]; omega) (by omega)]
    have hcut : l.buf = (a ++ b) ++ (c ++ 0 :: junk) := by
      rw [hbuf]
      simp only [List.append_assoc]
    have htake : l.buf.take a.length = a := by
      rw [hcut, List.append_assoc, List.take_left]
    have hdrop : (l.buf.drop (a ++ b).length).take c.length = c := by
      rw [hcut, List.drop_left, List.take_left]
    rw [htake, hdrop]
  obtain ⟨x, rest, hrest⟩ := List.exists_cons_of_length_pos
    (l := l.buf.drop (a.length + c.length)) (by
      rw [List.length_drop, hbuf]
      simp only [List.length_append, List.length_cons]
      omega)
  refine ⟨(a ++ c) ++ 0 :: rest, (a ++ c).length, ?_, ⟨rest, rfl⟩, ?_, rfl, rfl⟩
  · have hend := writeAt_append_cons (a ++ c) rest x 0
    rw [removeRange, hmoved, hcopy, Checked.ok_bind, hkept, hrest]
    simp only [hend]
    rfl
  · have hrestLen := congrArg List.length hrest
    rw [List.length_drop, hbuf] at hrestLen
    simp only [List.length_append, List.length_cons] at hrestLen ⊢
    omega

/-- Behind the cursor there is a slot for a byte, then what was there. -/
theorem makeRoom_eq (hroom : e.text.length < maxInputLen - 1) : ∃ x j junk,
    makeRoom l = .ok (e.before ++ x :: (e.behind ++ j :: junk)) ∧
      (e.before ++ x :: (e.behind ++ j :: junk)).length = maxInputLen := by
  obtain ⟨junk, hbuf⟩ := h.exists_behind
  have hlen := h.len
  have htext : e.text.length = e.before.length + e.behind.length := List.length_append
  rw [hbuf] at hlen
  simp only [List.length_append, List.length_cons] at hlen
  obtain ⟨j, junk, rfl⟩ := List.exists_cons_of_length_pos (l := junk) (by omega)
  suffices hopen : ∃ x, makeRoom l = .ok (e.before ++ x :: (e.behind ++ j :: junk)) by
    obtain ⟨x, hopen⟩ := hopen
    refine ⟨x, j, junk, hopen, ?_⟩
    simpa only [List.length_append, List.length_cons, Nat.add_assoc] using hlen
  unfold makeRoom
  by_cases hend : l.cursorPos = l.bufLen
  · have hnil : e.behind = [] := by
      refine List.eq_nil_of_length_eq_zero ?_
      rw [h.cursorPos, h.bufLen] at hend
      omega
    rw [if_neg (not_not.2 hend), hbuf, hnil]
    exact ⟨0, rfl⟩
  · have hcount : l.bufLen - l.cursorPos = e.behind.length := by
      rw [h.cursorPos, h.bufLen]
      omega
    obtain ⟨x, xs, hxs⟩ := List.exists_cons_of_ne_nil
      (l := e.behind ++ [0]) (List.append_ne_nil_of_right_ne_nil _ (List.cons_ne_nil _ _))
    have hxsLen := congrArg List.length hxs
    rw [List.length_append, List.length_singleton, List.length_cons] at hxsLen
    have hdst : l.buf = (e.before ++ [x]) ++ xs ++ j :: junk := by
      rw [hbuf, List.append_assoc, List.append_assoc, List.singleton_append,
        ← List.cons_append, ← hxs, List.append_assoc]
      rfl
    have hcopy := copySlots_parts (e.before ++ [x]) xs (j :: junk) e.before e.behind
      (0 :: j :: junk) (by omega)
    rw [← hdst, List.append_assoc e.before, ← hbuf, List.length_append,
      List.length_singleton] at hcopy
    refine ⟨x, ?_⟩
    rw [if_pos hend, hcount, h.cursorPos, hcopy, List.append_assoc, List.append_assoc]
    rfl

/-- One more byte at the cursor. -/
theorem insert (b : UInt8) (hroom : e.text.length < maxInputLen - 1) :
    ∃ l', insertByte l b = .ok l' ∧ Shows l' ⟨e.before ++ [b], e.behind⟩ := by
  obtain ⟨x, j, junk, hopen, hlen⟩ := h.makeRoom_eq hroom
  have htext : (⟨e.before ++ [b], e.behind⟩ : Editor).text = e.before ++ b :: e.behind :=
    List.append_assoc _ _ _
  have hbufLen : l.bufLen + 1 = (e.before ++ b :: e.behind).length := by
    rw [h.bufLen, Editor.text, List.length_append, List.length_append, List.length_cons]
    omega
  have hend := writeAt_append_cons (e.before ++ b :: e.behind) junk j 0
  rw [List.append_assoc, List.cons_append] at hend
  refine ⟨⟨(e.before ++ b :: e.behind) ++ 0 :: junk, l.bufLen + 1, l.cursorPos + 1⟩, ?_, ?_⟩
  · rw [insertByte, hopen, Checked.ok_bind, h.cursorPos, writeAt_append_cons, Checked.ok_bind,
      hbufLen, hend]
    rfl
  · refine ⟨⟨junk, ?_⟩, ?_, ?_, ?_⟩
    · rw [htext]
    · simp only [List.length_append, List.length_cons] at hlen ⊢
      omega
    · rw [htext]
      exact hbufLen
    · rw [h.cursorPos, List.length_append, List.length_singleton]

end Shows

/-! ## One key -/

/-- The branch of a key does to the line what the key does to the editor. -/
def Edits (l : LineBuffer) (e : Editor) (key : Nat) : Prop :=
  ∃ l', editKey l key = .ok l' ∧ Shows l' (e.edit key)

section Keys

variable {l : LineBuffer} {e : Editor} (h : Shows l e)

include h

theorem edits_nothing {key : Nat} (hrun : editKey l key = .ok l) (hedit : e.edit key = e) :
    Edits l e key := by
  refine ⟨l, hrun, ?_⟩
  rw [hedit]
  exact h

theorem edits_move {key pos : Nat} (hrun : editKey l key = .ok { l with cursorPos := pos })
    (htext : (e.edit key).text = e.text) (hpos : pos = (e.edit key).before.length) :
    Edits l e key :=
  ⟨_, hrun, h.move htext hpos⟩

theorem Shows.before_nil (hpos : ¬l.cursorPos > 0) : e.before = [] := by
  refine List.eq_nil_of_length_eq_zero ?_
  rw [← h.cursorPos]
  omega

theorem Shows.behind_nil (hpos : ¬l.cursorPos < l.bufLen) : e.behind = [] := by
  refine List.eq_nil_of_length_eq_zero ?_
  rw [h.cursorPos, h.bufLen, Editor.text, List.length_append] at hpos
  omega

theorem Shows.exists_before (hpos : l.cursorPos > 0) : e.before ≠ [] :=
  List.ne_nil_of_length_pos (h.cursorPos ▸ hpos)

theorem Shows.exists_behind_cons (hpos : l.cursorPos < l.bufLen) :
    ∃ b bs, e.behind = b :: bs := by
  refine List.exists_cons_of_length_pos ?_
  rw [h.cursorPos, h.bufLen, Editor.text, List.length_append] at hpos
  omega

theorem edits_ctrlA : Edits l e keyCtrlA := by
  by_cases hpos : l.cursorPos > 0
  · exact edits_move h (by simp [editKey, hpos]; rfl) rfl rfl
  · have hnil := h.before_nil hpos
    refine edits_nothing h (by simp [editKey, hpos]; rfl) ?_
    show (⟨[], e.text⟩ : Editor) = e
    rw [Editor.text, hnil, List.nil_append, ← hnil]

theorem edits_ctrlE : Edits l e keyCtrlE := by
  by_cases hpos : l.cursorPos < l.bufLen
  · exact edits_move h (by simp [editKey, hpos]; rfl) e.text_toEnd h.bufLen
  · have hnil := h.behind_nil hpos
    refine edits_nothing h (by simp [editKey, hpos]; rfl) ?_
    show (⟨e.text, []⟩ : Editor) = e
    rw [Editor.text, hnil, List.append_nil, ← hnil]

theorem edits_ctrlW : Edits l e keyCtrlW := by
  obtain ⟨word, hword⟩ := exists_wordStart e.before
  have hlen : (wordStart e.before ++ word).length = l.cursorPos := by rw [hword, h.cursorPos]
  have htext : e.text = wordStart e.before ++ (word ++ e.behind) := by
    rw [← List.append_assoc, hword]
    rfl
  obtain ⟨buf, bufLen, hremove, hshows⟩ := h.remove htext
  rw [hlen] at hremove
  by_cases hpos : l.cursorPos > 0
  · exact ⟨_, by simp [editKey, hpos, h.wordLeft_eq, hremove], hshows⟩
  · have hnil := h.before_nil hpos
    refine edits_nothing h (by simp [editKey, hpos]; rfl) ?_
    show (⟨wordStart e.before, e.behind⟩ : Editor) = e
    rw [hnil]
    show (⟨[], e.behind⟩ : Editor) = e
    rw [← hnil]

theorem edits_ctrlLeft : Edits l e keyCtrlLeft := by
  by_cases hpos : l.cursorPos > 0
  · exact edits_move h (by simp [editKey, hpos, h.wordLeft_eq]; rfl) e.text_leftWord rfl
  · have hnil := h.before_nil hpos
    refine edits_nothing h (by simp [editKey, hpos]; rfl) ?_
    show (⟨wordStart e.before, e.text.drop (wordStart e.before).length⟩ : Editor) = e
    rw [Editor.text, hnil]
    show (⟨[], e.behind⟩ : Editor) = e
    rw [← hnil]

theorem edits_ctrlRight : Edits l e keyCtrlRight := by
  by_cases hpos : l.cursorPos < l.bufLen
  · refine edits_move h (by simp [editKey, hpos, h.wordRight_eq]; rfl) e.text_rightWord ?_
    show _ = (e.text.take (e.text.length - (nextWord e.behind).length)).length
    rw [List.length_take]
    omega
  · have hnil := h.behind_nil hpos
    refine edits_nothing h (by simp [editKey, hpos]; rfl) ?_
    show (⟨e.text.take (e.text.length - (nextWord e.behind).length), nextWord e.behind⟩
      : Editor) = e
    rw [hnil]
    show (⟨e.text.take e.text.length, []⟩ : Editor) = e
    rw [List.take_length, Editor.text, hnil, List.append_nil, ← hnil]

theorem edits_right : Edits l e keyRight := by
  by_cases hpos : l.cursorPos < l.bufLen
  · obtain ⟨b, bs, hbehind⟩ := h.exists_behind_cons hpos
    have hedit : e.edit keyRight = ⟨e.before ++ b :: bs.takeWhile isContinuation,
        bs.dropWhile isContinuation⟩ := by
      show e.right = _
      rw [Editor.right, hbehind, utf8Chars_cons, List.headD_cons, List.tail_cons,
        flatten_utf8Chars]
    refine edits_move h (by simp [editKey, hpos, h.charRight_eq hbehind]; rfl) e.text_right ?_
    rw [hedit]
    simp only [List.length_append, List.length_cons]
  · have hnil := h.behind_nil hpos
    refine edits_nothing h (by simp [editKey, hpos]; rfl) ?_
    show e.right = e
    rw [Editor.right, hnil]
    show (⟨e.before ++ [], []⟩ : Editor) = e
    rw [List.append_nil, ← hnil]

theorem edits_delete : Edits l e keyDelete := by
  by_cases hpos : l.cursorPos < l.bufLen
  · obtain ⟨b, bs, hbehind⟩ := h.exists_behind_cons hpos
    have htext : e.text = e.before ++ (b :: bs.takeWhile isContinuation
        ++ bs.dropWhile isContinuation) := by
      rw [Editor.text, hbehind, List.cons_append, List.takeWhile_append_dropWhile]
    obtain ⟨buf, bufLen, hremove, hshows⟩ := h.remove htext
    rw [← h.cursorPos] at hremove hshows
    have hrun : editKey l keyDelete = charRight l.buf l.bufLen l.cursorPos >>= fun pos =>
        removeRange l l.cursorPos pos >>= fun r =>
        .ok { l with buf := r.1, bufLen := r.2 } := by simp [editKey, hpos]; rfl
    refine ⟨_, by rw [hrun, h.charRight_eq hbehind, Checked.ok_bind, hremove]; rfl, ?_⟩
    show Shows _ e.delete
    rw [Editor.delete, hbehind, utf8Chars_cons, List.tail_cons, flatten_utf8Chars]
    exact hshows
  · have hnil := h.behind_nil hpos
    refine edits_nothing h (by simp [editKey, hpos]; rfl) ?_
    show e.delete = e
    rw [Editor.delete, hnil]
    show (⟨e.before, []⟩ : Editor) = e
    rw [← hnil]

/-- The character before the cursor. -/
theorem Shows.charLeft_eq (hpos : l.cursorPos > 0) : ∃ ys char, e.before = ys ++ char ∧
    utf8Chars e.before = utf8Chars ys ++ [char] ∧
    charLeft l.buf l.cursorPos = .ok ys.length := by
  obtain ⟨junk, hbuf⟩ := h.exists_behind
  obtain ⟨ys, b, cs, hcut, hcs, hb, hrun⟩ :=
    charLeft_spec (h.exists_before hpos) (e.behind ++ 0 :: junk)
  refine ⟨ys, b :: cs, hcut, ?_, ?_⟩
  · rw [hcut, utf8Chars_append hcs hb]
  · rw [h.cursorPos, hbuf, hrun]

theorem edits_left : Edits l e keyLeft := by
  by_cases hpos : l.cursorPos > 0
  · obtain ⟨ys, char, hcut, hchars, hrun⟩ := h.charLeft_eq hpos
    have hbefore : (e.edit keyLeft).before = ys := by
      show (utf8Chars e.before).dropLast.flatten = ys
      rw [hchars, List.dropLast_concat, flatten_utf8Chars]
    exact edits_move h (by simp [editKey, hpos, hrun]; rfl) e.text_left (by rw [hbefore])
  · have hnil := h.before_nil hpos
    refine edits_nothing h (by simp [editKey, hpos]; rfl) ?_
    show e.left = e
    rw [Editor.left, hnil]
    show (⟨[], e.behind⟩ : Editor) = e
    rw [← hnil]

theorem edits_backspace (hpos : l.cursorPos > 0) : Edits l e 127 := by
  obtain ⟨ys, char, hcut, hchars, hrun⟩ := h.charLeft_eq hpos
  have htext : e.text = ys ++ (char ++ e.behind) := by
    rw [Editor.text, hcut, List.append_assoc]
  obtain ⟨buf, bufLen, hremove, hshows⟩ := h.remove htext
  rw [← hcut, ← h.cursorPos] at hremove
  refine ⟨_, by simp [editKey, hpos, hrun, hremove]; rfl, ?_⟩
  show Shows _ e.backspace
  rw [Editor.backspace, hchars, List.dropLast_concat, flatten_utf8Chars]
  exact hshows

end Keys

/-- Backspace at the start of a line: the last branch inserts a byte while there is room. -/
theorem editKey_backspace_start {l : LineBuffer} (hpos : ¬l.cursorPos > 0) :
    editKey l 127 = if l.bufLen < maxInputLen - 1 then insertByte l 127 else .ok l := by
  simp [editKey, hpos, keyOffset]
  rfl

/-! ## The keys -/

/-- The keys that `read_key` can return. -/
def KeyCode (key : Nat) : Prop := ∃ stdin, (readKey stdin).1 = key

/-- The keys of the escape sequences. -/
def sequenceKeys : List Nat :=
  [keyUp, keyDown, keyRight, keyLeft, keyDelete, keyCtrlLeft, keyCtrlRight]

theorem readDigitSequence_key (digit : UInt8) (stdin : List UInt8) :
    (readDigitSequence digit stdin).1 = 27 ∨
      (readDigitSequence digit stdin).1 ∈ sequenceKeys := by
  unfold readDigitSequence readCtrlArrow
  split
  · exact .inl rfl
  · split
    · exact .inr (show keyDelete ∈ sequenceKeys by decide)
    · split
      · split
        · split
          · exact .inr (show keyCtrlRight ∈ sequenceKeys by decide)
          · split
            · exact .inr (show keyCtrlLeft ∈ sequenceKeys by decide)
            · exact .inl rfl
        · exact .inl rfl
      · exact .inl rfl

theorem readSequence_key (stdin : List UInt8) :
    (readSequence stdin).1 = 27 ∨ (readSequence stdin).1 ∈ sequenceKeys := by
  unfold readSequence
  split
  · exact .inl rfl
  · exact .inl rfl
  · next seq1 rest =>
    split
    · exact .inl rfl
    · split
      · next hletter =>
        obtain ⟨hA, hD⟩ := hletter
        have hlo : 65 ≤ seq1.toNat := UInt8.le_iff_toNat_le.1 hA
        have hhi : seq1.toNat ≤ 68 := UInt8.le_iff_toNat_le.1 hD
        right
        simp [sequenceKeys, keyOffset]
        omega
      · split
        · exact readDigitSequence_key seq1 rest
        · exact .inl rfl

theorem keyCode_cases {key : Nat} (h : KeyCode key) : key < 256 ∨ key ∈ sequenceKeys := by
  obtain ⟨stdin, rfl⟩ := h
  cases stdin with
  | nil => exact .inl (by decide)
  | cons c stdin =>
    rw [readKey]
    split
    · exact .inl c.toNat_lt
    · rcases readSequence_key stdin with hkey | hkey
      · rw [hkey]
        exact .inl (by decide)
      · exact .inr hkey

section Keys

variable {l : LineBuffer} {e : Editor} (h : Shows l e)

include h

theorem edits_backspace_full (hstart : ¬l.cursorPos > 0)
    (hfull : ¬l.bufLen < maxInputLen - 1) : Edits l e 127 := by
  have hnil := h.before_nil hstart
  refine edits_nothing h ((editKey_backspace_start hstart).trans (if_neg hfull)) ?_
  show e.backspace = e
  rw [Editor.backspace, hnil]
  show (⟨[], e.behind⟩ : Editor) = e
  rw [← hnil]

/-- A byte comes to the last branch. -/
theorem edits_insert {key : Nat} (hlow : 32 ≤ key) (hhigh : key < 256) (hback : key ≠ 127) :
    Edits l e key := by
  have hoffset : key < keyOffset := Nat.lt_trans hhigh (by decide)
  have hrun : editKey l key = if l.bufLen < maxInputLen - 1 then
      insertByte l (UInt8.ofNat key) else .ok l := by
    simp [editKey, hback, hlow, hoffset, show key ≠ 1 by omega, show key ≠ 5 by omega,
      show key ≠ 23 by omega, show key ≠ 1200 by omega, show key ≠ 1201 by omega,
      show key ≠ 1067 by omega, show key ≠ 1068 by omega, show key ≠ 1126 by omega]
    rfl
  have hedit : e.edit key = e.insert (UInt8.ofNat key) := by
    simp [Editor.edit, hback, hlow, hhigh, show key ≠ 1 by omega, show key ≠ 5 by omega,
      show key ≠ 23 by omega, show key ≠ 1200 by omega, show key ≠ 1201 by omega,
      show key ≠ 1067 by omega, show key ≠ 1068 by omega, show key ≠ 1126 by omega]
  by_cases hroom : e.text.length < maxInputLen - 1
  · obtain ⟨l', hinsert, hshows⟩ := h.insert (UInt8.ofNat key) hroom
    rw [h.bufLen, if_pos hroom] at hrun
    refine ⟨l', hrun.trans hinsert, ?_⟩
    rw [hedit, Editor.insert, if_pos hroom]
    exact hshows
  · rw [h.bufLen, if_neg hroom] at hrun
    refine edits_nothing h hrun ?_
    rw [hedit, Editor.insert, if_neg hroom]

/-- A key that no branch is for. -/
theorem edits_unknown {key : Nat} (hrange : key < 32 ∨ keyOffset ≤ key)
    (hkeys : key ∉ [keyCtrlA, keyCtrlE, keyCtrlW, keyCtrlLeft, keyCtrlRight, keyRight, keyLeft,
      keyDelete]) : Edits l e key := by
  have hoffset : keyOffset = 1000 := rfl
  simp only [List.mem_cons, List.not_mem_nil, or_false, not_or] at hkeys
  obtain ⟨hA, hE, hW, hCtrlLeft, hCtrlRight, hRight, hLeft, hDelete⟩ := hkeys
  have hback : key ≠ 127 := by omega
  have hinsert : ¬(key ≥ 32 ∧ key < keyOffset ∧ l.bufLen < maxInputLen - 1) := by omega
  have hbyte : ¬(32 ≤ key ∧ key < 256) := by omega
  refine edits_nothing h ?_ ?_
  · unfold editKey
    rw [if_neg fun hg => hA hg.1, if_neg fun hg => hE hg.1, if_neg fun hg => hW hg.1,
      if_neg fun hg => hCtrlLeft hg.1, if_neg fun hg => hCtrlRight hg.1,
      if_neg fun hg => hRight hg.1, if_neg fun hg => hLeft hg.1, if_neg fun hg => hback hg.1,
      if_neg fun hg => hDelete hg.1, if_neg hinsert]
    rfl
  · unfold Editor.edit
    rw [if_neg hback, if_neg hDelete, if_neg hLeft, if_neg hRight, if_neg hA, if_neg hE,
      if_neg hCtrlLeft, if_neg hCtrlRight, if_neg hW, if_neg hbyte]

/-- A key other than Backspace at the start of a line with room does what it says. -/
theorem editKey_edits {key : Nat} (hkey : KeyCode key)
    (hback : key = 127 → l.cursorPos > 0 ∨ l.bufLen = maxInputLen - 1) : Edits l e key := by
  by_cases hspecial : key ∈ [keyCtrlA, keyCtrlE, keyCtrlW, keyCtrlLeft, keyCtrlRight, keyRight,
      keyLeft, keyDelete]
  · simp only [List.mem_cons, List.not_mem_nil, or_false] at hspecial
    rcases hspecial with rfl | rfl | rfl | rfl | rfl | rfl | rfl | rfl
    · exact edits_ctrlA h
    · exact edits_ctrlE h
    · exact edits_ctrlW h
    · exact edits_ctrlLeft h
    · exact edits_ctrlRight h
    · exact edits_right h
    · exact edits_left h
    · exact edits_delete h
  · by_cases hrange : key < 32 ∨ keyOffset ≤ key
    · exact edits_unknown h hrange hspecial
    · have hoffset : keyOffset = 1000 := rfl
      have hhigh : key < 256 := by
        rcases keyCode_cases hkey with hlt | hmem
        · exact hlt
        · have hall : sequenceKeys.all (keyOffset ≤ ·) = true := by decide
          have hlarge := of_decide_eq_true (List.all_eq_true.1 hall key hmem)
          omega
      by_cases hkey127 : key = 127
      · subst hkey127
        rcases hback rfl with hpos | hfull
        · exact edits_backspace h hpos
        · by_cases hpos : l.cursorPos > 0
          · exact edits_backspace h hpos
          · exact edits_backspace_full h hpos (by omega)
      · exact edits_insert h (by omega) hhigh hkey127

end Keys

end Maxql
