import Maxql.Cli.Editor
import Maxql.Cli.History

/-!
# Keys at the prompt

What Enter does, and the runs of the prompt in which the line follows the
abstract editor.

* `enterLine_exit`, `enterLine_empty`, `enterLine_record`: the three ways in
  which a line ends;
* `editor_follows_iff`: the line follows the editor exactly as long as nobody
  presses Backspace at the start of a line that is not full.
-/

namespace Maxql

open Program Bytes

/-! ## Enter -/

/-- A text that is one line of a C string. -/
structure OneLine (bs : Text) : Prop where
  nonzero : 0 ∉ bs
  oneLine : newline ∉ bs

theorem cString_eq {bs : Text} (h : 0 ∉ bs) (junk : List UInt8) :
    cString (bs ++ 0 :: junk) = .ok bs := by
  rw [cString, if_pos (List.mem_append_right _ List.mem_cons_self), cstr_append_zero,
    cstr_of_zero_not_mem h]

theorem Shows.cString_eq {l : LineBuffer} {e : Editor} (h : Shows l e) (htext : OneLine e.text) :
    cString l.buf = .ok e.text := by
  obtain ⟨junk, hbuf⟩ := h.buf
  rw [hbuf]
  exact Maxql.cString_eq htext.nonzero junk

theorem shows_empty : Shows emptyLine ⟨[], []⟩ where
  buf := ⟨List.replicate (maxInputLen - 1) 0, rfl⟩
  len := List.length_replicate
  bufLen := rfl
  cursorPos := rfl

section Enter

variable {s : Session} {e : Editor} (h : Shows s.repl.line e) (htext : OneLine e.text)

include h htext

theorem enterLine_exit (hexit : e.text = text "exit") : enterLine s = .ok none := by
  unfold enterLine
  simp only [h.cString_eq htext, Checked.ok_bind]
  rw [if_pos hexit]
  rfl

/-- An empty line ends nothing but itself. -/
theorem enterLine_empty (hempty : e.text = []) : enterLine s = .ok (some s) := by
  have hlen : s.repl.line.bufLen = 0 := by rw [h.bufLen, hempty]; rfl
  unfold enterLine
  simp only [h.cString_eq htext, Checked.ok_bind]
  rw [if_neg (by rw [hempty]; decide), if_pos hlen]
  rfl

/-- Every other line is executed, and recorded unless it was the last one already. -/
theorem enterLine_record (hexit : e.text ≠ text "exit") (hne : e.text ≠ [])
    {recent : List Text} (hh : s.repl.history.Holds recent) :
    ∃ line history, enterLine s = .ok (some {
        s with
        repl := { s.repl with line, history, browseOffset := 0 }
        historyFile := if recent.head? = some e.text then s.historyFile
          else some (historyText (remember recent e.text))
        executed := s.executed ++ [e.text] }) ∧
      Shows line ⟨[], []⟩ ∧ history.Holds (remember recent e.text) := by
  have hlen : s.repl.line.bufLen ≠ 0 := by
    rw [h.bufLen]
    exact Nat.ne_of_gt (List.length_pos_of_ne_nil hne)
  have hentry : HistoryEntry e.text := ⟨hne, htext.nonzero, htext.oneLine, h.length_text_lt⟩
  have hdup := isDuplicateRecord_eq hh e.text
  obtain ⟨b, rest, hbuf⟩ : ∃ b rest, s.repl.line.buf = b :: rest := by
    refine List.exists_cons_of_length_pos ?_
    rw [h.len]
    decide
  have hclear : writeAt s.repl.line.buf 0 0 = .ok (0 :: rest) := by rw [hbuf]; rfl
  have hshows : Shows ⟨0 :: rest, 0, 0⟩ ⟨[], []⟩ := by
    refine ⟨⟨rest, rfl⟩, ?_, rfl, rfl⟩
    have hbufLen := h.len
    rw [hbuf] at hbufLen
    exact hbufLen
  unfold enterLine
  simp only [h.cString_eq htext, Checked.ok_bind, hdup, hclear]
  rw [if_neg hexit, if_neg hlen]
  by_cases hsame : recent.head? = some e.text
  · have hremember : remember recent e.text = recent := if_pos hsame
    rw [hremember]
    refine ⟨⟨0 :: rest, 0, 0⟩, s.repl.history, ?_, hshows, hh⟩
    rw [if_pos hsame, if_pos (decide_eq_true hsame)]
    rfl
  · have hremember : remember recent e.text = (e.text :: recent).take historyCapacity :=
      if_neg hsame
    obtain ⟨history, hrecord, hholds⟩ := recordLine_eq hh s.historyFile hentry
    rw [hremember]
    refine ⟨⟨0 :: rest, 0, 0⟩, history, ?_, hshows, hholds⟩
    rw [if_neg hsame, if_neg (by simpa using hsame), hrecord]
    rfl

end Enter

/-! ## The line and the editor -/

/-- The text of a line and the cursor in it. -/
def LineBuffer.editor (l : LineBuffer) : Editor :=
  ⟨l.buf.take l.cursorPos, (l.buf.take l.bufLen).drop l.cursorPos⟩

/-- The bounds of a line, its NUL, and that no control byte has come into it. -/
structure LineOk (l : LineBuffer) : Prop where
  length : l.buf.length = maxInputLen
  cursor : l.cursorPos ≤ l.bufLen
  room : l.bufLen ≤ maxInputLen - 1
  nul : l.buf[l.bufLen]? = some 0
  printable : ∀ b ∈ l.buf.take l.bufLen, 32 ≤ b ∧ b ≠ 127

theorem LineBuffer.editor_text {l : LineBuffer} (h : l.cursorPos ≤ l.bufLen) :
    l.editor.text = l.buf.take l.bufLen := by
  have hbefore : l.buf.take l.cursorPos = (l.buf.take l.bufLen).take l.cursorPos := by
    rw [List.take_take, Nat.min_eq_left h]
  rw [Editor.text, LineBuffer.editor, hbefore, List.take_append_drop]

theorem LineOk.shows {l : LineBuffer} (h : LineOk l) : Shows l l.editor := by
  obtain ⟨hlen, hcursor, hroom, hnul, -⟩ := h
  have hmax : maxInputLen = 8192 := rfl
  have htext := LineBuffer.editor_text hcursor
  refine ⟨⟨l.buf.drop (l.bufLen + 1), ?_⟩, hlen, ?_, ?_⟩
  · obtain ⟨hlt, hget⟩ := List.getElem?_eq_some_iff.1 hnul
    rw [htext, ← hget, ← List.drop_eq_getElem_cons hlt, List.take_append_drop]
  · rw [htext, List.length_take]
    omega
  · show _ = (l.buf.take l.cursorPos).length
    rw [List.length_take]
    omega

section Shows

variable {l : LineBuffer} {e : Editor} (h : Shows l e)

include h

theorem Shows.take_bufLen : l.buf.take l.bufLen = e.text := by
  obtain ⟨junk, hbuf⟩ := h.buf
  rw [hbuf, h.bufLen, List.take_left]

theorem Shows.editor_eq : l.editor = e := by
  obtain ⟨junk, hbuf⟩ := h.exists_behind
  rw [LineBuffer.editor, h.take_bufLen, h.cursorPos, hbuf, List.take_left, Editor.text,
    List.drop_left]

theorem Shows.lineOk (hprintable : ∀ b ∈ e.text, 32 ≤ b ∧ b ≠ 127) : LineOk l := by
  obtain ⟨junk, hbuf⟩ := h.buf
  refine ⟨h.len, ?_, ?_, ?_, ?_⟩
  · rw [h.cursorPos, h.bufLen, Editor.text, List.length_append]
    exact Nat.le_add_right _ _
  · rw [h.bufLen]
    exact Nat.le_sub_one_of_lt h.length_text_lt
  · rw [hbuf, h.bufLen, List.getElem?_append_right (Nat.le_refl _), Nat.sub_self]
    rfl
  · rw [h.take_bufLen]
    exact hprintable

end Shows

theorem oneLine_of_printable {bs : Text} (h : ∀ b ∈ bs, 32 ≤ b ∧ b ≠ 127) : OneLine bs where
  nonzero := fun hmem => absurd (h 0 hmem).1 (by decide)
  oneLine := fun hmem => absurd (h newline hmem).1 (by decide)

/-- A key brings printable bytes only. -/
theorem printable_edit {e : Editor} (h : ∀ b ∈ e.text, 32 ≤ b ∧ b ≠ 127) (key : Nat) :
    ∀ b ∈ (e.edit key).text, 32 ≤ b ∧ b ≠ 127 := by
  intro b hb
  rcases Editor.mem_edit hb with hold | ⟨hlow, hhigh, hback, rfl⟩
  · exact h b hold
  · have hnat : (UInt8.ofNat key).toNat = key := UInt8.toNat_ofNat_of_lt' hhigh
    constructor
    · rw [UInt8.le_iff_toNat_le, hnat]
      exact hlow
    · intro hsame
      rw [hsame] at hnat
      exact hback hnat.symm

/-! ## Runs -/

/-- What `read_key` can return, but for the keys of the history. -/
structure EditingKey (key : Nat) : Prop where
  code : KeyCode key
  ctrlR : key ≠ keyCtrlR
  up : key ≠ keyUp
  down : key ≠ keyDown

/-- In every state of the run the line is as it should be, and every key does to it what it
does to the editor, until a key leaves the prompt. -/
def FollowsEditor : Session → (keys : List Nat) → Prop
  | s, [] => LineOk s.repl.line
  | s, key :: keys => LineOk s.repl.line ∧ ∃ next, feedKey s key = .ok next ∧
      next.map (fun s' => s'.repl.line.editor) = s.repl.line.editor.press key ∧
      ∀ s', next = some s' → FollowsEditor s' keys

/-- Whenever Backspace is pressed there is something before the cursor, or the line is full. -/
def BackspaceHasText : Session → (keys : List Nat) → Prop
  | _, [] => True
  | s, key :: keys =>
    (key = 127 → s.repl.line.cursorPos > 0 ∨ s.repl.line.bufLen = maxInputLen - 1) ∧
      ∀ s', feedKey s key = .ok (some s') → BackspaceHasText s' keys

/-- A key of the middle of the loop. -/
theorem feedKey_press {s : Session} {key : Nat} (henter : ¬(key = 10 ∨ key = 13))
    (hzero : key ≠ 0) (hexit : ¬(key = keyCtrlD ∧ s.repl.line.bufLen = 0))
    (hclear : key ≠ keyCtrlL) (hctrlR : key ≠ keyCtrlR) {repl : Repl}
    (hrun : pressKey s.repl key = .ok repl) : feedKey s key = .ok (some { s with repl }) := by
  unfold feedKey
  rw [if_neg henter, if_neg hzero, if_neg hexit, if_neg hclear, if_neg hctrlR, hrun]
  rfl

theorem pressKey_edit {r : Repl} {key : Nat} (hup : key ≠ keyUp) (hdown : key ≠ keyDown)
    {line : LineBuffer} (hrun : editKey r.line key = .ok line) :
    pressKey r key = .ok { r with line } := by
  unfold pressKey
  rw [if_neg fun hg => hup hg.1, if_neg fun hg => hdown hg.1, hrun]
  rfl

/-- One key of a run. -/
theorem feedKey_follows {s : Session} {key : Nat} (hkey : EditingKey key)
    (hline : LineOk s.repl.line) {recent : List Text} (hh : s.repl.history.Holds recent)
    (hback : key = 127 → s.repl.line.cursorPos > 0 ∨ s.repl.line.bufLen = maxInputLen - 1) :
    ∃ next, feedKey s key = .ok next ∧
      next.map (fun s' => s'.repl.line.editor) = s.repl.line.editor.press key ∧
      ∀ s', next = some s' → LineOk s'.repl.line ∧ ∃ recent', s'.repl.history.Holds recent' := by
  have hshows := hline.shows
  have hprintable : ∀ b ∈ s.repl.line.editor.text, 32 ≤ b ∧ b ≠ 127 := by
    rw [LineBuffer.editor_text hline.cursor]
    exact hline.printable
  have hone := oneLine_of_printable hprintable
  have hempty : s.repl.line.bufLen = 0 ↔ s.repl.line.editor.text = [] := by
    rw [hshows.bufLen]
    exact List.length_eq_zero_iff
  -- a key that changes nothing
  have hstay : ∀ k, feedKey s k = .ok (some s) →
      s.repl.line.editor.press k = some s.repl.line.editor → ∃ next, feedKey s k = .ok next ∧
        next.map (fun s' => s'.repl.line.editor) = s.repl.line.editor.press k ∧
        ∀ s', next = some s' →
          LineOk s'.repl.line ∧ ∃ recent', s'.repl.history.Holds recent' := by
    intro k hrun hpress
    refine ⟨some s, hrun, hpress.symm, ?_⟩
    rintro s' ⟨⟩
    exact ⟨hline, recent, hh⟩
  by_cases henter : key = 10 ∨ key = 13
  · have hfeed : feedKey s key = enterLine s := if_pos henter
    have hpress : s.repl.line.editor.press key
        = if s.repl.line.editor.text = text "exit" then none else some ⟨[], []⟩ := if_pos henter
    by_cases hexit : s.repl.line.editor.text = text "exit"
    · refine ⟨none, hfeed.trans (enterLine_exit hshows hone hexit), ?_, ?_⟩
      · rw [hpress, if_pos hexit]
        rfl
      · rintro s' ⟨⟩
    · rw [if_neg hexit] at hpress
      by_cases hnil : s.repl.line.editor.text = []
      · refine hstay key (hfeed.trans (enterLine_empty hshows hone hnil)) ?_
        rw [hpress, ← Editor.eq_empty hnil]
      · obtain ⟨line, history, hrun, hline', hholds⟩ :=
          enterLine_record hshows hone hexit hnil hh
        refine ⟨_, hfeed.trans hrun, ?_, ?_⟩
        · rw [hpress, ← hline'.editor_eq]
          rfl
        · rintro s' ⟨⟩
          exact ⟨hline'.lineOk fun b hb => absurd hb List.not_mem_nil, _, hholds⟩
  · have hpress : s.repl.line.editor.press key
        = if key = keyCtrlD ∧ s.repl.line.editor.text = [] then none
          else some (s.repl.line.editor.edit key) := if_neg henter
    by_cases hzero : key = 0
    · subst hzero
      exact hstay 0 rfl rfl
    by_cases hexit : key = keyCtrlD ∧ s.repl.line.bufLen = 0
    · refine ⟨none, ?_, ?_, ?_⟩
      · unfold feedKey
        rw [if_neg henter, if_neg hzero, if_pos hexit]
        rfl
      · rw [hpress, if_pos ⟨hexit.1, hempty.1 hexit.2⟩]
        rfl
      · rintro s' ⟨⟩
    by_cases hclear : key = keyCtrlL
    · subst hclear
      exact hstay keyCtrlL rfl rfl
    obtain ⟨line, hrun, hedit⟩ := editKey_edits hshows hkey.code hback
    refine ⟨_, feedKey_press henter hzero hexit hclear hkey.ctrlR
      (pressKey_edit hkey.up hkey.down hrun), ?_, ?_⟩
    · rw [hpress, if_neg fun hleave => hexit ⟨hleave.1, hempty.2 hleave.2⟩, ← hedit.editor_eq]
      rfl
    · rintro s' ⟨⟩
      exact ⟨hedit.lineOk (printable_edit hprintable key), recent, hh⟩

theorem followsEditor_of_backspace {keys : List Nat} (hkeys : ∀ key ∈ keys, EditingKey key) :
    ∀ {s : Session}, LineOk s.repl.line → (∃ recent, s.repl.history.Holds recent) →
      BackspaceHasText s keys → FollowsEditor s keys := by
  induction keys with
  | nil => exact fun hline _ _ => hline
  | cons key keys ih =>
    intro s hline hhistory hback
    obtain ⟨hkey, hkeys⟩ := List.forall_mem_cons.1 hkeys
    obtain ⟨recent, hh⟩ := hhistory
    obtain ⟨hback, hrest⟩ := hback
    obtain ⟨next, hrun, hpress, hnext⟩ := feedKey_follows hkey hline hh hback
    refine ⟨hline, next, hrun, hpress, ?_⟩
    rintro s' rfl
    obtain ⟨hline', hhistory'⟩ := hnext s' rfl
    exact ih hkeys hline' hhistory' (hrest s' hrun)

/-- Backspace at the start of a line that is not full inserts its own byte. -/
theorem feedKey_backspace_start {s : Session} (hline : LineOk s.repl.line)
    (hstart : ¬s.repl.line.cursorPos > 0) (hroom : s.repl.line.bufLen ≠ maxInputLen - 1) :
    ∃ line, feedKey s 127 = .ok (some { s with repl := { s.repl with line } }) ∧
      line.editor = ⟨[127], s.repl.line.editor.behind⟩ := by
  have hshows := hline.shows
  have hlt : s.repl.line.bufLen < maxInputLen - 1 := Nat.lt_of_le_of_ne hline.room hroom
  obtain ⟨line, hinsert, hshows'⟩ := hshows.insert 127 (hshows.bufLen ▸ hlt)
  have hrun := (editKey_backspace_start hstart).trans ((if_pos hlt).trans hinsert)
  refine ⟨line, feedKey_press (by decide) (by decide)
    (fun hexit => absurd hexit.1 (by decide)) (by decide) (by decide)
    (pressKey_edit (by decide) (by decide) hrun), ?_⟩
  rw [hshows'.editor_eq, hshows.before_nil hstart]
  rfl

theorem backspace_of_followsEditor {keys : List Nat} :
    ∀ {s : Session}, FollowsEditor s keys → BackspaceHasText s keys := by
  induction keys with
  | nil => exact fun _ => trivial
  | cons key keys ih =>
    intro s hfollows
    obtain ⟨hline, next, hrun, hpress, hnext⟩ := hfollows
    refine ⟨?_, fun s' hrun' => ?_⟩
    · rintro rfl
      by_contra hneither
      obtain ⟨hstart, hroom⟩ := not_or.1 hneither
      obtain ⟨line, hrun', heditor⟩ := feedKey_backspace_start hline hstart hroom
      obtain rfl := Except.ok.inj (hrun.symm.trans hrun')
      -- the editor has nothing to remove
      have hnil := hline.shows.before_nil hstart
      have hsame : s.repl.line.editor.press 127 = some s.repl.line.editor.backspace := rfl
      rw [hsame] at hpress
      have hbefore := congrArg Editor.before
        (heditor.symm.trans (Option.some.inj hpress))
      rw [Editor.backspace, hnil] at hbefore
      cases hbefore
    · exact ih (hnext s' (Except.ok.inj (hrun.symm.trans hrun')))

theorem startSession_line (historyFile : Option Text) (stdin : List UInt8) :
    ∃ s recent, startSession historyFile stdin = .ok s ∧ s.repl.line = emptyLine ∧
      s.repl.history.Holds recent := by
  obtain ⟨history, recent, hload, hh⟩ := historyLoad_total historyFile
  refine ⟨⟨⟨emptyLine, history, [], 0⟩, stdin, historyFile, []⟩, recent, ?_, rfl, hh⟩
  rw [startSession, hload]
  rfl

/-- In a run of any keys but Ctrl+R, Up and Down the line follows the editor exactly if Backspace
is never pressed at the start of a line that is not full. -/
theorem editor_follows_iff (historyFile : Option Text) (stdin : List UInt8) {keys : List Nat}
    (hkeys : ∀ key ∈ keys, EditingKey key) :
    ∃ s, startSession historyFile stdin = .ok s ∧
      (FollowsEditor s keys ↔ BackspaceHasText s keys) := by
  obtain ⟨s, recent, hstart, hline, hh⟩ := startSession_line historyFile stdin
  refine ⟨s, hstart, backspace_of_followsEditor, followsEditor_of_backspace hkeys ?_ ⟨recent, hh⟩⟩
  rw [hline]
  exact shows_empty.lineOk fun b hb => absurd hb List.not_mem_nil

theorem editor_follows_iff_typed : ∃ s, startSession none [] = .ok s ∧
    (FollowsEditor s [104, 105, 127, keyLeft, keyDelete, 13] ↔
      BackspaceHasText s [104, 105, 127, keyLeft, keyDelete, 13]) := by
  refine editor_follows_iff none [] ?_
  intro key hkey
  simp only [List.mem_cons, List.not_mem_nil, or_false] at hkey
  rcases hkey with rfl | rfl | rfl | rfl | rfl | rfl
  · exact ⟨⟨[104], rfl⟩, by decide, by decide, by decide⟩
  · exact ⟨⟨[105], rfl⟩, by decide, by decide, by decide⟩
  · exact ⟨⟨[127], rfl⟩, by decide, by decide, by decide⟩
  · exact ⟨⟨[27, 91, 68], rfl⟩, by decide, by decide, by decide⟩
  · exact ⟨⟨[27, 91, 51, 126], rfl⟩, by decide, by decide, by decide⟩
  · exact ⟨⟨[13], rfl⟩, by decide, by decide, by decide⟩

/-- Backspace on the empty first line. -/
theorem backspace_insertsByte : ∃ s next, startSession none [] = .ok s ∧
    EditingKey 127 ∧ feedKey s 127 = .ok (some next) ∧ next.repl.line.editor = ⟨[127], []⟩ ∧
    s.repl.line.editor.press 127 = some ⟨[], []⟩ ∧ ¬FollowsEditor s [127] := by
  obtain ⟨s, recent, hstart, hline, -⟩ := startSession_line none []
  have hempty : s.repl.line.editor = ⟨[], []⟩ := by
    rw [hline]
    exact shows_empty.editor_eq
  have hok : LineOk s.repl.line := by
    rw [hline]
    exact shows_empty.lineOk fun b hb => absurd hb List.not_mem_nil
  have hpos : ¬s.repl.line.cursorPos > 0 := by
    rw [hline]
    decide
  have hroom : s.repl.line.bufLen ≠ maxInputLen - 1 := by
    rw [hline]
    decide
  obtain ⟨line, hrun, heditor⟩ := feedKey_backspace_start hok hpos hroom
  rw [hempty] at heditor
  refine ⟨s, _, hstart, ⟨⟨[127], rfl⟩, by decide, by decide, by decide⟩, hrun, heditor, ?_, ?_⟩
  · rw [hempty]
    rfl
  · intro hfollows
    rcases (backspace_of_followsEditor hfollows).1 rfl with htext | hfull
    · exact hpos htext
    · exact hroom hfull

end Maxql
