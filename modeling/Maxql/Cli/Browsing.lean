import Maxql.Cli.Session
import Mathlib.Data.List.Infix
import Mathlib.Logic.Relation

/-!
# Browsing in the history

The ring over whole sessions.  It holds the lines that were executed, and the
file holds what the ring does.  Up and Down at a new prompt go through the
entries and back to what was typed, unless an empty line was submitted in the
middle of browsing: then `browse_offset` is still that of the prompt before.

* `SessionOk`, `feedKey_ok`, `Reaches.ok`: what every session keeps;
* `browsesBack_iff`: the prompts at which Up and Down do what they should;
* `history_refines_iff`: the sessions in which they do so at every prompt.
-/

namespace Maxql

open Program Bytes

/-! ## Definitions -/

/-- The entries in the order in which `history_save` writes them. -/
def History.lines (h : History) : Checked (List Text) :=
  (List.range h.count).mapM fun i =>
    readAt h.slots ((historyIndex h.write h.count + i) % historyCapacity)

/-- The lines without those that repeat the one before. -/
def dropRepeats : (last : Option Text) → List Text → List Text
  | _, [] => []
  | last, line :: lines =>
    if last = some line then dropRepeats last lines else line :: dropRepeats (some line) lines

def Session.text (s : Session) : Text := s.repl.line.editor.text

/-- Keys, one after the other. -/
def feedKeys : (keys : List Nat) → Session → Checked (Option Session)
  | [], s => .ok (some s)
  | key :: keys, s => do
    match ← feedKey s key with
    | none => return none
    | some s' => feedKeys keys s'

/-- A key that stays at the prompt and does not browse. -/
structure TypingKey (key : Nat) : Prop where
  code : KeyCode key
  enter : key ≠ 10 ∧ key ≠ 13
  up : key ≠ keyUp
  down : key ≠ keyDown

/-- Whatever is typed first, `k` times Up show the `k`-th last entry, and as often Down what was
typed. -/
def BrowsesBack (s : Session) : Prop :=
  ∃ lines, s.repl.history.lines = .ok lines ∧
    ∀ keys, (∀ key ∈ keys, TypingKey key) → ∀ typed, feedKeys keys s = .ok (some typed) →
      ∀ k, 1 ≤ k → k ≤ lines.length →
        ∃ up, feedKeys (List.replicate k keyUp) typed = .ok (some up) ∧
          lines.reverse[k - 1]? = some up.text ∧
          ∃ down, feedKeys (List.replicate k keyDown) up = .ok (some down) ∧
            down.text = typed.text

/-- The states that a session comes to. -/
def Reaches : Session → Session → Prop :=
  Relation.ReflTransGen fun s s' => replStep s = .ok (some s')

/-- The next key is Enter. -/
def Session.AtEnter (s : Session) : Prop :=
  (readKey s.stdin).1 = 10 ∨ (readKey s.stdin).1 = 13

/-- A prompt before anything is typed. -/
def NewPrompt (start s : Session) : Prop :=
  s = start ∨ ∃ s', Reaches start s' ∧ s'.AtEnter ∧ replStep s' = .ok (some s)

/-- No empty line is submitted while an entry is being looked at. -/
def EntersOutsideHistory (s : Session) : Prop :=
  s.AtEnter → s.repl.line.bufLen = 0 → s.repl.browseOffset = 0

/-- The history of a session that starts with the entries `loaded` is a list. -/
structure HistoryRefines (start : Session) (loaded : List Text) : Prop where
  /-- No access is outside its array. -/
  goesOn : ∀ s, Reaches start s → ∃ next, replStep s = .ok next
  lines : ∀ s, Reaches start s → s.repl.history.lines
    = .ok ((loaded ++ dropRepeats loaded.getLast? s.executed).rtake historyCapacity)
  /-- A new session begins with the same list. -/
  reload : ∀ s, Reaches start s → ∃ h, historyLoad s.historyFile = .ok h ∧
    h.lines = s.repl.history.lines
  browse : ∀ s, NewPrompt start s → BrowsesBack s

/-! ## The list in the ring -/

theorem History.Holds.lines_eq {h : History} {recent : List Text} (hh : h.Holds recent) :
    h.lines = .ok recent.reverse := by
  have hcount := hh.ring.count_eq
  have hle := hh.ring.length_le
  refine mapM_eq_ok.2 (List.forall₂_iff_get.2 ⟨?_, fun i hi hi' => ?_⟩)
  · rw [List.length_range, List.length_reverse, hcount]
  · have hread := hh.ring.readOldest (List.getElem?_eq_getElem hi')
    rw [← historyIndex_eq hh.ring.write_lt (by omega)] at hread
    simp only [List.get_eq_getElem, List.getElem_range]
    exact hread

theorem dropRepeats_append (line : Text) : ∀ (last : Option Text) (lines : List Text),
    dropRepeats last (lines ++ [line]) = dropRepeats last lines ++
      if (dropRepeats last lines).getLast?.or last = some line then [] else [line]
  | last, [] => rfl
  | last, x :: lines => by
    rw [List.cons_append, dropRepeats, dropRepeats]
    by_cases hx : last = some x
    · rw [if_pos hx, if_pos hx]
      exact dropRepeats_append line last lines
    · rw [if_neg hx, if_neg hx, dropRepeats_append line (some x) lines, List.cons_append,
        List.getLast?_cons]
      cases (dropRepeats (some x) lines).getLast? <;> rfl

/-- The entries, the newest one first, after the lines `executed`. -/
def recentAfter (loaded executed : List Text) : List Text :=
  (loaded ++ dropRepeats loaded.getLast? executed).reverse.take historyCapacity

theorem recentAfter_nil {loaded : List Text} (h : loaded.length ≤ historyCapacity) :
    recentAfter loaded [] = loaded.reverse := by
  rw [recentAfter, dropRepeats, List.append_nil,
    List.take_of_length_le (by rw [List.length_reverse]; exact h)]

theorem recentAfter_append (loaded executed : List Text) (line : Text) :
    recentAfter loaded (executed ++ [line]) = remember (recentAfter loaded executed) line := by
  have hhead : (recentAfter loaded executed).head?
      = (dropRepeats loaded.getLast? executed).getLast?.or loaded.getLast? := by
    rw [recentAfter, List.head?_take, if_neg (by decide), List.head?_reverse,
      List.getLast?_append]
  rw [recentAfter, dropRepeats_append, remember, hhead]
  by_cases hsame : (dropRepeats loaded.getLast? executed).getLast?.or loaded.getLast? = some line
  · rw [if_pos hsame, if_pos hsame, List.append_nil]
    rfl
  · rw [if_neg hsame, if_neg hsame, ← List.append_assoc, List.reverse_append,
      List.reverse_singleton, List.singleton_append, recentAfter]
    rw [show historyCapacity = 99 + 1 from rfl, List.take_succ_cons, List.take_succ_cons,
      List.take_take, Nat.min_eq_left (by omega)]

theorem recentAfter_reverse (loaded executed : List Text) :
    (recentAfter loaded executed).reverse
      = (loaded ++ dropRepeats loaded.getLast? executed).rtake historyCapacity :=
  (List.rtake_eq_reverse_take_reverse _ _).symm

/-! ## What every session keeps -/

structure ReplOk (r : Repl) (recent : List Text) : Prop where
  line : ∃ e, Shows r.line e ∧ OneLine e.text
  history : r.history.Holds recent
  saved : OneLine r.savedInput
  savedFits : r.savedInput.length < maxInputLen
  browse : r.browseOffset ≤ recent.length

structure SessionOk (s : Session) (recent : List Text) : Prop where
  repl : ReplOk s.repl recent
  file : ∃ h, historyLoad s.historyFile = .ok h ∧ h.Holds recent

theorem HistoryEntry.toOneLine {line : Text} (h : HistoryEntry line) : OneLine line :=
  ⟨h.nonzero, h.oneLine⟩

/-- A C string into the line. -/
theorem Shows.load {l : LineBuffer} {e : Editor} (h : Shows l e) {entry : Text}
    (hentry : OneLine entry) (hfits : entry.length < maxInputLen) :
    ∃ l', l.load entry = .ok l' ∧ Shows l' ⟨entry, []⟩ := by
  have hcopy : strcpy l.buf entry = .ok (entry ++ 0 :: l.buf.drop (entry.length + 1)) :=
    if_pos (h.len.symm ▸ hfits)
  refine ⟨⟨entry ++ 0 :: l.buf.drop (entry.length + 1), entry.length, entry.length⟩, ?_,
    ⟨_, by rw [Editor.text, List.append_nil]⟩, ?_, ?_, rfl⟩
  · rw [LineBuffer.load, hcopy, Checked.ok_bind, Maxql.cString_eq hentry.nonzero]
    rfl
  · have hlen := h.len
    simp only [List.length_append, List.length_cons, List.length_drop]
    omega
  · rw [Editor.text, List.append_nil]

/-- The branches that edit the line, on any key. -/
theorem editKey_oneLine {l : LineBuffer} {e : Editor} (h : Shows l e) (hone : OneLine e.text)
    {key : Nat} (hkey : KeyCode key) :
    ∃ l' e', editKey l key = .ok l' ∧ Shows l' e' ∧ OneLine e'.text := by
  by_cases hback : key = 127 → l.cursorPos > 0 ∨ l.bufLen = maxInputLen - 1
  · obtain ⟨l', hrun, hshows⟩ := editKey_edits h hkey hback
    refine ⟨l', _, hrun, hshows, fun hmem => ?_, fun hmem => ?_⟩
    · rcases Editor.mem_edit hmem with hold | ⟨hlow, hhigh, -, heq⟩
      · exact hone.nonzero hold
      · have hnat : 0 = key := (congrArg UInt8.toNat heq).trans (UInt8.toNat_ofNat_of_lt' hhigh)
        omega
    · rcases Editor.mem_edit hmem with hold | ⟨hlow, hhigh, -, heq⟩
      · exact hone.oneLine hold
      · have hnat : 10 = key := (congrArg UInt8.toNat heq).trans (UInt8.toNat_ofNat_of_lt' hhigh)
        omega
  · obtain ⟨rfl, hneither⟩ := Classical.not_imp.1 hback
    obtain ⟨hstart, hfull⟩ := not_or.1 hneither
    have hlt := h.length_text_lt
    have hroom : l.bufLen < maxInputLen - 1 := by
      rw [h.bufLen] at hfull ⊢
      omega
    obtain ⟨l', hinsert, hshows⟩ := h.insert 127 (h.bufLen ▸ hroom)
    have hbyte : ∀ b ∈ (⟨e.before ++ [127], e.behind⟩ : Editor).text, b ∈ e.text ∨ b = 127 := by
      intro b hb
      simp only [Editor.text, List.mem_append, List.mem_singleton] at hb ⊢
      tauto
    refine ⟨l', _, (editKey_backspace_start hstart).trans ((if_pos hroom).trans hinsert), hshows,
      fun hmem => ?_, fun hmem => ?_⟩
    · rcases hbyte 0 hmem with hold | heq
      · exact hone.nonzero hold
      · exact absurd heq (by decide)
    · rcases hbyte newline hmem with hold | heq
      · exact hone.oneLine hold
      · exact absurd heq (by decide)

section Browse

variable {r : Repl} {recent : List Text} (h : ReplOk r recent)

include h

/-- Up shows the next older entry, and the first time keeps what was typed. -/
theorem browseUp_eq {e : Editor} (hshows : Shows r.line e) (hone : OneLine e.text) {entry : Text}
    (hentry : recent[r.browseOffset]? = some entry) : ∃ line,
      browseUp r = .ok {
        r with
        line
        savedInput := if r.browseOffset = 0 then e.text else r.savedInput
        browseOffset := r.browseOffset + 1 } ∧ Shows line ⟨entry, []⟩ := by
  have hmem := h.history.entries entry (List.mem_of_getElem? hentry)
  obtain ⟨line, hload, hline⟩ := hshows.load hmem.toOneLine hmem.fits
  refine ⟨line, ?_, hline⟩
  unfold browseUp
  simp only [h.history.read hentry, hload, hshows.cString_eq hone, Checked.ok_bind,
    strcpyText_eq hshows.length_text_lt]
  split <;> rfl

/-- Down shows the next newer entry, and behind the newest one what was kept. -/
theorem browseDown_eq {e : Editor} (hshows : Shows r.line e) {entry : Text}
    (hentry : if r.browseOffset - 1 = 0 then entry = r.savedInput
      else recent[r.browseOffset - 2]? = some entry) : ∃ line,
      browseDown r = .ok { r with line, browseOffset := r.browseOffset - 1 } ∧
        Shows line ⟨entry, []⟩ := by
  unfold browseDown
  by_cases hlast : r.browseOffset - 1 = 0
  · rw [if_pos hlast] at hentry
    subst hentry
    obtain ⟨line, hload, hline⟩ := hshows.load h.saved h.savedFits
    refine ⟨line, ?_, hline⟩
    simp only [if_pos hlast, pure_bind, hload, Checked.ok_bind]
    rfl
  · rw [if_neg hlast] at hentry
    have hmem := h.history.entries entry (List.mem_of_getElem? hentry)
    obtain ⟨line, hload, hline⟩ := hshows.load hmem.toOneLine hmem.fits
    have hread := h.history.read hentry
    have hback : r.browseOffset - 2 + 1 = r.browseOffset - 1 := by omega
    rw [hback] at hread
    refine ⟨line, ?_, hline⟩
    simp only [if_neg hlast, hread, hload, Checked.ok_bind]
    rfl

theorem searchHistory_total (searchBuf : Text) {back : List Nat}
    (hback : ∀ i ∈ back, i < recent.length) : ∃ found,
      searchHistory r.history searchBuf back = .ok found ∧
      ∀ m, found = some m → ∃ entry ∈ recent, readAt r.history.slots m = .ok entry := by
  induction back with
  | nil =>
    refine ⟨none, rfl, ?_⟩
    rintro m ⟨⟩
  | cons i back ih =>
    obtain ⟨hi, hback⟩ := List.forall_mem_cons.1 hback
    have hread := h.history.read (List.getElem?_eq_getElem hi)
    rw [searchHistory]
    simp only [hread, Checked.ok_bind]
    split
    · refine ⟨_, rfl, ?_⟩
      rintro m ⟨⟩
      exact ⟨_, List.getElem_mem hi, hread⟩
    · exact ih hback

theorem findMatch_total (searchBuf : Text) (searchFrom : Nat) : ∃ found,
    findMatch r.history searchBuf searchFrom = .ok found ∧
      ∀ m, found = some m → ∃ entry ∈ recent, readAt r.history.slots m = .ok entry := by
  unfold findMatch
  split
  · refine searchHistory_total h searchBuf fun i hi => ?_
    have hrange := List.mem_range.1 (List.mem_of_mem_drop hi)
    rwa [h.history.ring.count_eq] at hrange
  · refine ⟨none, rfl, ?_⟩
    rintro m ⟨⟩

/-- A search ends with another line or the same, and changes nothing else. -/
theorem reverseSearch_total (stdin : List UInt8) (searchBuf : Text) {found : Option Nat}
    (hfound : ∀ m, found = some m → ∃ entry ∈ recent, readAt r.history.slots m = .ok entry) :
    ∃ line rest, reverseSearch r stdin searchBuf found = .ok ({ r with line }, rest) ∧
      ∃ e, Shows line e ∧ OneLine e.text := by
  induction stdin generalizing searchBuf found with
  | nil => exact ⟨r.line, [], rfl, h.line⟩
  | cons skey stdin ih =>
    unfold reverseSearch
    split
    · cases found with
      | none => exact ⟨r.line, stdin, rfl, h.line⟩
      | some m =>
        obtain ⟨entry, hentry, hread⟩ := hfound m rfl
        obtain ⟨e, hshows, -⟩ := h.line
        have hmem := h.history.entries entry hentry
        obtain ⟨line, hload, hline⟩ := hshows.load hmem.toOneLine hmem.fits
        refine ⟨line, stdin, ?_, _, hline, ?_⟩
        · simp only [hread, hload, Checked.ok_bind]
          rfl
        · rw [Editor.text, List.append_nil]
          exact hmem.toOneLine
    · split
      · exact ⟨r.line, stdin, rfl, h.line⟩
      · split
        · obtain ⟨found', hmatch, hfound'⟩ := findMatch_total h searchBuf.dropLast 0
          simp only [hmatch, Checked.ok_bind]
          exact ih _ hfound'
        · split
          · obtain ⟨found', hmatch, hfound'⟩ :=
              findMatch_total h searchBuf (repeatFrom r.history found)
            simp only [hmatch, Checked.ok_bind]
            exact ih _ hfound'
          · split
            · obtain ⟨found', hmatch, hfound'⟩ := findMatch_total h (searchBuf ++ [skey]) 0
              simp only [hmatch, Checked.ok_bind]
              exact ih _ hfound'
            · exact ih _ hfound

end Browse

/-! ## Keys -/

section Keys

variable {s : Session} {recent : List Text} (h : SessionOk s recent)

include h

/-- A key that edits the line or searches leaves everything else alone. -/
theorem feedKey_typing {key : Nat} (hkey : TypingKey key) : ∃ next, feedKey s key = .ok next ∧
    ∀ s', next = some s' → SessionOk s' recent ∧ s'.executed = s.executed ∧
      s'.repl.browseOffset = s.repl.browseOffset := by
  obtain ⟨e, hshows, hone⟩ := h.repl.line
  have henter : ¬(key = 10 ∨ key = 13) := not_or.2 hkey.enter
  by_cases hzero : key = 0
  · subst hzero
    refine ⟨some s, rfl, ?_⟩
    rintro s' ⟨⟩
    exact ⟨h, rfl, rfl⟩
  by_cases hexit : key = keyCtrlD ∧ s.repl.line.bufLen = 0
  · refine ⟨none, ?_, ?_⟩
    · unfold feedKey
      rw [if_neg henter, if_neg hzero, if_pos hexit]
      rfl
    · rintro s' ⟨⟩
  by_cases hclear : key = keyCtrlL
  · subst hclear
    refine ⟨some s, rfl, ?_⟩
    rintro s' ⟨⟩
    exact ⟨h, rfl, rfl⟩
  by_cases hctrlR : key = keyCtrlR
  · obtain ⟨line, rest, hsearch, hline⟩ :=
      reverseSearch_total h.repl s.stdin [] (show ∀ m, none = some m → _ by rintro m ⟨⟩)
    refine ⟨some { s with repl := { s.repl with line }, stdin := rest }, ?_, ?_⟩
    · unfold feedKey
      rw [if_neg henter, if_neg hzero, if_neg hexit, if_neg hclear, if_pos hctrlR]
      simp only [hsearch, Checked.ok_bind]
      rfl
    · rintro s' ⟨⟩
      exact ⟨⟨⟨hline, h.repl.history, h.repl.saved, h.repl.savedFits, h.repl.browse⟩, h.file⟩,
        rfl, rfl⟩
  · obtain ⟨line, e', hrun, hshows', hone'⟩ := editKey_oneLine hshows hone hkey.code
    refine ⟨_, feedKey_press henter hzero hexit hclear hctrlR
      (pressKey_edit hkey.up hkey.down hrun), ?_⟩
    rintro s' ⟨⟩
    exact ⟨⟨⟨⟨e', hshows', hone'⟩, h.repl.history, h.repl.saved, h.repl.savedFits,
      h.repl.browse⟩, h.file⟩, rfl, rfl⟩

theorem feedKey_up {entry : Text} (hentry : recent[s.repl.browseOffset]? = some entry) :
    ∃ s', feedKey s keyUp = .ok (some s') ∧ SessionOk s' recent ∧ s'.executed = s.executed ∧
      s'.text = entry ∧ s'.repl.browseOffset = s.repl.browseOffset + 1 ∧
      s'.repl.savedInput
        = if s.repl.browseOffset = 0 then s.text else s.repl.savedInput := by
  obtain ⟨e, hshows, hone⟩ := h.repl.line
  obtain ⟨hlt, -⟩ := List.getElem?_eq_some_iff.1 hentry
  obtain ⟨line, hrun, hline⟩ := browseUp_eq h.repl hshows hone hentry
  have hmem := h.repl.history.entries entry (List.mem_of_getElem? hentry)
  have hpress : pressKey s.repl keyUp = browseUp s.repl :=
    if_pos ⟨rfl, h.repl.history.ring.count_eq ▸ hlt⟩
  have htext : s.text = e.text := congrArg Editor.text hshows.editor_eq
  refine ⟨_, feedKey_press (by decide) (by decide) (fun hg => absurd hg.1 (by decide))
    (by decide) (by decide) (hpress.trans hrun), ?_, rfl, ?_, rfl, ?_⟩
  · refine ⟨⟨⟨_, hline, ?_⟩, h.repl.history, ?_, ?_, hlt⟩, h.file⟩
    · rw [Editor.text, List.append_nil]
      exact hmem.toOneLine
    · show OneLine (if s.repl.browseOffset = 0 then e.text else s.repl.savedInput)
      split
      · exact hone
      · exact h.repl.saved
    · show (if s.repl.browseOffset = 0 then e.text else s.repl.savedInput).length < maxInputLen
      split
      · exact hshows.length_text_lt
      · exact h.repl.savedFits
  · exact (congrArg Editor.text hline.editor_eq).trans (List.append_nil _)
  · rw [htext]

theorem feedKey_down (entry : Text) (hpos : s.repl.browseOffset > 0)
    (hentry : if s.repl.browseOffset - 1 = 0 then entry = s.repl.savedInput
      else recent[s.repl.browseOffset - 2]? = some entry) :
    ∃ s', feedKey s keyDown = .ok (some s') ∧ SessionOk s' recent ∧ s'.executed = s.executed ∧
      s'.text = entry ∧ s'.repl.browseOffset = s.repl.browseOffset - 1 ∧
      s'.repl.savedInput = s.repl.savedInput := by
  obtain ⟨e, hshows, -⟩ := h.repl.line
  obtain ⟨line, hrun, hline⟩ := browseDown_eq h.repl hshows hentry
  have hpress : pressKey s.repl keyDown = browseDown s.repl := by
    unfold pressKey
    rw [if_neg fun hg => absurd hg.1 (by decide), if_pos ⟨rfl, hpos⟩]
  have hbrowse := h.repl.browse
  have hone : OneLine entry := by
    split at hentry
    · rw [hentry]
      exact h.repl.saved
    · exact (h.repl.history.entries entry (List.mem_of_getElem? hentry)).toOneLine
  refine ⟨_, feedKey_press (by decide) (by decide) (fun hg => absurd hg.1 (by decide))
    (by decide) (by decide) (hpress.trans hrun), ?_, rfl, ?_, rfl, rfl⟩
  · refine ⟨⟨⟨_, hline, ?_⟩, h.repl.history, h.repl.saved, h.repl.savedFits, ?_⟩, h.file⟩
    · rw [Editor.text, List.append_nil]
      exact hone
    · exact Nat.le_trans (Nat.sub_le _ _) hbrowse
  · exact (congrArg Editor.text hline.editor_eq).trans (List.append_nil _)

/-- Up at the oldest entry and Down at the newest do nothing. -/
theorem feedKey_still {key : Nat} (hkey : key = keyUp ∧ ¬s.repl.browseOffset < recent.length ∨
    key = keyDown ∧ ¬s.repl.browseOffset > 0) :
    ∃ s', feedKey s key = .ok (some s') ∧ SessionOk s' recent ∧ s'.executed = s.executed ∧
      s'.text = s.text := by
  obtain ⟨e, hshows, hone⟩ := h.repl.line
  have hedits : Edits s.repl.line e key := by
    refine edits_unknown hshows ?_ ?_
    · rcases hkey with ⟨rfl, -⟩ | ⟨rfl, -⟩ <;> exact .inr (by decide)
    · rcases hkey with ⟨rfl, -⟩ | ⟨rfl, -⟩ <;> decide
  have hedit : e.edit key = e := by
    rcases hkey with ⟨rfl, -⟩ | ⟨rfl, -⟩ <;> rfl
  obtain ⟨line, hrun, hline⟩ := hedits
  rw [hedit] at hline
  have hpress : pressKey s.repl key = .ok { s.repl with line } := by
    unfold pressKey
    rw [h.repl.history.ring.count_eq]
    rcases hkey with ⟨rfl, hno⟩ | ⟨rfl, hno⟩
    · rw [if_neg fun hg => hno hg.2, if_neg fun hg => absurd hg.1 (by decide), hrun]
      rfl
    · rw [if_neg fun hg => absurd hg.1 (by decide), if_neg fun hg => hno hg.2, hrun]
      rfl
  have hnot : ∀ k, k ≠ keyUp → k ≠ keyDown → key ≠ k := by
    rintro k hup hdown rfl
    rcases hkey with ⟨hkey, -⟩ | ⟨hkey, -⟩
    · exact hup hkey
    · exact hdown hkey
  refine ⟨_, feedKey_press ?_ (hnot 0 (by decide) (by decide))
    (fun hg => hnot keyCtrlD (by decide) (by decide) hg.1)
    (hnot keyCtrlL (by decide) (by decide)) (hnot keyCtrlR (by decide) (by decide)) hpress,
    ⟨⟨⟨e, hline, hone⟩, h.repl.history, h.repl.saved, h.repl.savedFits, h.repl.browse⟩, h.file⟩,
    rfl, ?_⟩
  · exact not_or.2 ⟨hnot 10 (by decide) (by decide), hnot 13 (by decide) (by decide)⟩
  · exact congrArg Editor.text (hline.editor_eq.trans hshows.editor_eq.symm)

end Keys

/-! ## Up and Down at a prompt -/

theorem feedKeys_cons {key : Nat} {keys : List Nat} {s s' : Session}
    (h : feedKey s key = .ok (some s')) : feedKeys (key :: keys) s = feedKeys keys s' := by
  rw [feedKeys, h]
  rfl

theorem feedKeys_append {keys keys' : List Nat} {s s' : Session}
    (h : feedKeys keys s = .ok (some s')) : feedKeys (keys ++ keys') s = feedKeys keys' s' := by
  induction keys generalizing s with
  | nil =>
    cases h
    rfl
  | cons key keys ih =>
    obtain ⟨next, hkey, h⟩ := Checked.bind_eq_ok.1 h
    cases next with
    | none => cases h
    | some mid => exact (feedKeys_cons hkey).trans (ih h)

theorem feedKeys_single {key : Nat} {s s' t : Session} (h : feedKey s key = .ok (some s'))
    (hrun : feedKeys [key] s = .ok (some t)) : t = s' := by
  rw [feedKeys_cons h] at hrun
  cases hrun
  rfl

/-- Typing leaves the place in the history. -/
theorem feedKeys_typing {recent : List Text} {keys : List Nat}
    (hkeys : ∀ key ∈ keys, TypingKey key) : ∀ {s s' : Session}, SessionOk s recent →
      feedKeys keys s = .ok (some s') →
      SessionOk s' recent ∧ s'.repl.browseOffset = s.repl.browseOffset := by
  induction keys with
  | nil =>
    intro s s' h hrun
    cases hrun
    exact ⟨h, rfl⟩
  | cons key keys ih =>
    intro s s' h hrun
    obtain ⟨hkey, hkeys⟩ := List.forall_mem_cons.1 hkeys
    obtain ⟨next, hfeed, hnext⟩ := feedKey_typing h hkey
    cases next with
    | none =>
      rw [feedKeys, hfeed] at hrun
      cases hrun
    | some mid =>
      rw [feedKeys_cons hfeed] at hrun
      obtain ⟨hmid, -, hoffset⟩ := hnext mid rfl
      obtain ⟨hs', hsame⟩ := ih hkeys hmid hrun
      exact ⟨hs', hsame.trans hoffset⟩

/-- `k` times Up from what is typed at a prompt. -/
theorem feedKeys_up {s : Session} {recent : List Text} (h : SessionOk s recent)
    (hoffset : s.repl.browseOffset = 0) {k : Nat} (hk : k < recent.length) :
    ∃ up, feedKeys (List.replicate (k + 1) keyUp) s = .ok (some up) ∧ SessionOk up recent ∧
      recent[k]? = some up.text ∧ up.repl.browseOffset = k + 1 ∧
      up.repl.savedInput = s.text := by
  induction k with
  | zero =>
    obtain ⟨entry, hentry⟩ : ∃ entry, recent[s.repl.browseOffset]? = some entry :=
      ⟨_, List.getElem?_eq_getElem (hoffset ▸ hk)⟩
    obtain ⟨up, hrun, hup, -, htext, hbrowse, hsaved⟩ := feedKey_up h hentry
    rw [if_pos hoffset] at hsaved
    rw [hoffset] at hbrowse
    refine ⟨up, (feedKeys_cons hrun).trans rfl, hup, ?_, hbrowse, hsaved⟩
    rw [htext, ← hentry, hoffset]
  | succ k ih =>
    obtain ⟨up, hrun, hup, -, hbrowse, hsaved⟩ := ih (Nat.lt_of_succ_lt hk)
    obtain ⟨entry, hentry⟩ : ∃ entry, recent[up.repl.browseOffset]? = some entry :=
      ⟨_, List.getElem?_eq_getElem (hbrowse ▸ hk)⟩
    obtain ⟨up', hrun', hup', -, htext, hbrowse', hsaved'⟩ := feedKey_up hup hentry
    rw [if_neg (by omega)] at hsaved'
    refine ⟨up', ?_, hup', ?_, by rw [hbrowse', hbrowse], hsaved'.trans hsaved⟩
    · rw [List.replicate_succ', feedKeys_append hrun]
      exact (feedKeys_cons hrun').trans rfl
    · rw [htext, ← hentry, hbrowse]

/-- As often Down as the entry is back. -/
theorem feedKeys_down {recent : List Text} : ∀ {k : Nat} {up : Session}, SessionOk up recent →
    up.repl.browseOffset = k + 1 → ∃ down,
      feedKeys (List.replicate (k + 1) keyDown) up = .ok (some down) ∧
        down.text = up.repl.savedInput := by
  intro k
  induction k with
  | zero =>
    intro up h hoffset
    obtain ⟨down, hrun, -, -, htext, -, -⟩ := feedKey_down h up.repl.savedInput (by omega)
      (by rw [if_pos (by omega)])
    exact ⟨down, (feedKeys_cons hrun).trans rfl, htext⟩
  | succ k ih =>
    intro up h hoffset
    have hbrowse := h.repl.browse
    have hlt : up.repl.browseOffset - 2 < recent.length := by omega
    obtain ⟨next, hrun, hnext, -, -, hoffset', hsaved⟩ := feedKey_down h
      recent[up.repl.browseOffset - 2] (by omega)
      (by rw [if_neg (by omega)]; exact List.getElem?_eq_getElem hlt)
    obtain ⟨down, hdown, htext⟩ := ih hnext (by omega)
    exact ⟨down, (feedKeys_cons hrun).trans hdown, htext.trans hsaved⟩

/-- An empty prompt browses back exactly if it does not stand in the middle of the history. -/
theorem browsesBack_iff {s : Session} {recent : List Text} (h : SessionOk s recent)
    (hempty : s.text = []) : BrowsesBack s ↔ s.repl.browseOffset = 0 := by
  have hlines := h.repl.history.lines_eq
  constructor
  · rintro ⟨lines, hlines', hback⟩
    obtain rfl := Except.ok.inj (hlines.symm.trans hlines')
    by_contra hoffset
    have hbrowse := h.repl.browse
    obtain ⟨up, hup, hentry, down, hdown, htext⟩ :=
      hback [] (fun key hkey => absurd hkey List.not_mem_nil) s rfl 1 (Nat.le_refl 1)
        (by rw [List.length_reverse]; omega)
    rw [List.reverse_reverse] at hentry
    have hne := (h.repl.history.entries up.text (List.mem_of_getElem? hentry)).nonempty
    by_cases holdest : s.repl.browseOffset < recent.length
    · -- Up and Down together end one entry before the one that is looked at
      obtain ⟨up', hup', hok, -, -, hoffset', -⟩ :=
        feedKey_up h (List.getElem?_eq_getElem holdest)
      have hsameUp := feedKeys_single hup' hup
      subst hsameUp
      have hlt : up.repl.browseOffset - 2 < recent.length := by omega
      obtain ⟨down', hdown', -, -, htext', -, -⟩ := feedKey_down hok
        recent[up.repl.browseOffset - 2] (by omega)
        (by rw [if_neg (by omega)]; exact List.getElem?_eq_getElem hlt)
      have hsameDown := feedKeys_single hdown' hdown
      subst hsameDown
      have hentry' := h.repl.history.entries _ (List.getElem_mem hlt)
      rw [← htext', htext, hempty] at hentry'
      exact hentry'.nonempty rfl
    · obtain ⟨up', hup', -, -, htext'⟩ := feedKey_still h (.inl ⟨rfl, holdest⟩)
      rw [← feedKeys_single hup' hup] at htext'
      exact hne (htext'.trans hempty)
  · intro hoffset
    refine ⟨recent.reverse, hlines, fun keys hkeys typed htyped k hk hle => ?_⟩
    obtain ⟨hok, hsame⟩ := feedKeys_typing hkeys h htyped
    rw [List.length_reverse] at hle
    obtain ⟨k, rfl⟩ := Nat.exists_eq_add_of_le' hk
    obtain ⟨up, hup, hupOk, hentry, hbrowse, hsaved⟩ :=
      feedKeys_up hok (hsame.trans hoffset) (show k < recent.length by omega)
    obtain ⟨down, hdown, htext⟩ := feedKeys_down hupOk hbrowse
    rw [List.reverse_reverse]
    exact ⟨up, hup, hentry, down, hdown, htext.trans hsaved⟩

/-! ## Whole sessions -/

/-- Enter: an empty line leaves everything as it is, and any other ends the browsing. -/
theorem enterLine_ok {s : Session} {recent : List Text} (h : SessionOk s recent) :
    ∃ next, enterLine s = .ok next ∧ ∀ s', next = some s' → s'.text = [] ∧
      (s.repl.line.bufLen = 0 ∧ s' = s ∨ s.repl.line.bufLen ≠ 0 ∧ s'.repl.browseOffset = 0 ∧
        ∃ line, s'.executed = s.executed ++ [line] ∧ SessionOk s' (remember recent line)) := by
  obtain ⟨e, hshows, hone⟩ := h.repl.line
  have htext : s.text = e.text := congrArg Editor.text hshows.editor_eq
  by_cases hexit : e.text = text "exit"
  · refine ⟨none, enterLine_exit hshows hone hexit, ?_⟩
    rintro s' ⟨⟩
  by_cases hnil : e.text = []
  · refine ⟨some s, enterLine_empty hshows hone hnil, ?_⟩
    rintro s' ⟨⟩
    refine ⟨htext.trans hnil, .inl ⟨?_, rfl⟩⟩
    rw [hshows.bufLen, hnil]
    rfl
  · obtain ⟨line, history, hrun, hline, hholds⟩ :=
      enterLine_record hshows hone hexit hnil h.repl.history
    refine ⟨_, hrun, ?_⟩
    rintro s' ⟨⟩
    have hlen : s.repl.line.bufLen ≠ 0 := by
      rw [hshows.bufLen]
      exact Nat.ne_of_gt (List.length_pos_of_ne_nil hnil)
    refine ⟨congrArg Editor.text hline.editor_eq, .inr ⟨hlen, rfl, e.text, rfl, ?_, ?_⟩⟩
    · exact ⟨⟨_, hline, ⟨List.not_mem_nil, List.not_mem_nil⟩⟩, hholds, h.repl.saved,
        h.repl.savedFits, Nat.zero_le _⟩
    · by_cases hsame : recent.head? = some e.text
      · have hremember : remember recent e.text = recent := if_pos hsame
        simp only [if_pos hsame, hremember]
        exact h.file
      · simp only [if_neg hsame]
        exact historyLoad_historyText hholds

theorem SessionOk.withStdin {s : Session} {recent : List Text} (h : SessionOk s recent)
    (stdin : List UInt8) : SessionOk { s with stdin } recent := ⟨h.repl, h.file⟩

/-- A key keeps the history in step with the lines that were executed. -/
theorem feedKey_ok {loaded : List Text} {s : Session}
    (h : SessionOk s (recentAfter loaded s.executed)) {key : Nat} (hkey : KeyCode key) :
    ∃ next, feedKey s key = .ok next ∧
      ∀ s', next = some s' → SessionOk s' (recentAfter loaded s'.executed) := by
  by_cases henter : key = 10 ∨ key = 13
  · obtain ⟨next, hrun, hnext⟩ := enterLine_ok h
    refine ⟨next, (if_pos henter).trans hrun, fun s' hs' => ?_⟩
    obtain ⟨-, ⟨-, rfl⟩ | ⟨-, -, line, hexecuted, hok⟩⟩ := hnext s' hs'
    · exact h
    · rw [hexecuted, recentAfter_append]
      exact hok
  by_cases hup : key = keyUp
  · subst hup
    by_cases hlt : s.repl.browseOffset < (recentAfter loaded s.executed).length
    · obtain ⟨s', hrun, hok, hexecuted, -⟩ := feedKey_up h (List.getElem?_eq_getElem hlt)
      refine ⟨some s', hrun, ?_⟩
      rintro _ ⟨⟩
      rw [hexecuted]
      exact hok
    · obtain ⟨s', hrun, hok, hexecuted, -⟩ := feedKey_still h (.inl ⟨rfl, hlt⟩)
      refine ⟨some s', hrun, ?_⟩
      rintro _ ⟨⟩
      rw [hexecuted]
      exact hok
  by_cases hdown : key = keyDown
  · subst hdown
    by_cases hpos : s.repl.browseOffset > 0
    · have hbrowse := h.repl.browse
      obtain ⟨entry, hentry⟩ : ∃ entry, if s.repl.browseOffset - 1 = 0
          then entry = s.repl.savedInput
          else (recentAfter loaded s.executed)[s.repl.browseOffset - 2]? = some entry := by
        split
        · exact ⟨_, rfl⟩
        · exact ⟨_, List.getElem?_eq_getElem (by omega)⟩
      obtain ⟨s', hrun, hok, hexecuted, -⟩ := feedKey_down h entry hpos hentry
      refine ⟨some s', hrun, ?_⟩
      rintro _ ⟨⟩
      rw [hexecuted]
      exact hok
    · obtain ⟨s', hrun, hok, hexecuted, -⟩ := feedKey_still h (.inr ⟨rfl, hpos⟩)
      refine ⟨some s', hrun, ?_⟩
      rintro _ ⟨⟩
      rw [hexecuted]
      exact hok
  · obtain ⟨next, hrun, hnext⟩ := feedKey_typing h ⟨hkey, not_or.1 henter, hup, hdown⟩
    refine ⟨next, hrun, fun s' hs' => ?_⟩
    obtain ⟨hok, hexecuted, -⟩ := hnext s' hs'
    rw [hexecuted]
    exact hok

theorem replStep_ok {loaded : List Text} {s : Session}
    (h : SessionOk s (recentAfter loaded s.executed)) : ∃ next, replStep s = .ok next ∧
      ∀ s', next = some s' → SessionOk s' (recentAfter loaded s'.executed) :=
  feedKey_ok (h.withStdin (readKey s.stdin).2) ⟨s.stdin, rfl⟩

theorem Reaches.ok {loaded : List Text} {start s : Session} (hreach : Reaches start s)
    (h : SessionOk start (recentAfter loaded start.executed)) :
    SessionOk s (recentAfter loaded s.executed) := by
  induction hreach with
  | refl => exact h
  | tail _ hstep ih =>
    obtain ⟨next, hrun, hnext⟩ := replStep_ok ih
    exact hnext _ (Except.ok.inj (hrun.symm.trans hstep))

theorem startSession_ok (historyFile : Option Text) (stdin : List UInt8) :
    ∃ start loaded, startSession historyFile stdin = .ok start ∧
      start.repl.history.lines = .ok loaded ∧ SessionOk start (recentAfter loaded start.executed) ∧
      start.text = [] ∧ start.repl.browseOffset = 0 := by
  obtain ⟨history, recent, hload, hh⟩ := historyLoad_total historyFile
  have hrecent : recentAfter recent.reverse [] = recent := by
    rw [recentAfter_nil (by rw [List.length_reverse]; exact hh.ring.length_le),
      List.reverse_reverse]
  refine ⟨⟨⟨emptyLine, history, [], 0⟩, stdin, historyFile, []⟩, recent.reverse, ?_,
    hh.lines_eq, ?_, congrArg Editor.text shows_empty.editor_eq, rfl⟩
  · rw [startSession, hload]
    rfl
  · rw [hrecent]
    exact ⟨⟨⟨_, shows_empty, ⟨List.not_mem_nil, List.not_mem_nil⟩⟩, hh,
      ⟨List.not_mem_nil, List.not_mem_nil⟩, (show [].length < maxInputLen by decide),
      Nat.zero_le _⟩, history, hload, hh⟩

section Session

variable {start : Session} {loaded : List Text}
  (hstart : SessionOk start (recentAfter loaded start.executed))

include hstart

/-- At a new prompt the line is empty, and the offset is 0 if the condition held before. -/
theorem newPrompt_offset (hoffset : start.repl.browseOffset = 0)
    (hcondition : ∀ s, Reaches start s → EntersOutsideHistory s) (hempty : start.text = [])
    {s : Session} (hprompt : NewPrompt start s) :
    SessionOk s (recentAfter loaded s.executed) ∧ s.text = [] ∧ s.repl.browseOffset = 0 := by
  rcases hprompt with rfl | ⟨mid, hreach, henter, hstep⟩
  · exact ⟨hstart, hempty, hoffset⟩
  · have hmid := hreach.ok hstart
    have hnew : Reaches start s := hreach.tail hstep
    have hok := hnew.ok hstart
    have hrun : replStep mid = enterLine { mid with stdin := (readKey mid.stdin).2 } :=
      if_pos henter
    obtain ⟨next, hnext, hall⟩ := enterLine_ok (hmid.withStdin (readKey mid.stdin).2)
    obtain rfl := Except.ok.inj (hnext.symm.trans (hrun.symm.trans hstep))
    obtain ⟨htext, ⟨hlen, rfl⟩ | ⟨-, hzero, -⟩⟩ := hall s rfl
    · exact ⟨hok, htext, hcondition mid hreach henter hlen⟩
    · exact ⟨hok, htext, hzero⟩

/-- An empty line keeps the offset. -/
theorem entersOutside_of_browse (hbrowse : ∀ s, NewPrompt start s → BrowsesBack s) {s : Session}
    (hreach : Reaches start s) : EntersOutsideHistory s := by
  intro henter hlen
  have hs := hreach.ok hstart
  obtain ⟨e, hshows, hone⟩ := hs.repl.line
  have hnil : e.text = [] := by
    rw [hshows.bufLen] at hlen
    exact List.eq_nil_of_length_eq_zero hlen
  have hrun : replStep s = .ok (some { s with stdin := (readKey s.stdin).2 }) :=
    (if_pos henter).trans (enterLine_empty hshows hone hnil)
  have hprompt := hbrowse _ (.inr ⟨s, hreach, henter, hrun⟩)
  exact (browsesBack_iff (hs.withStdin (readKey s.stdin).2)
    ((congrArg Editor.text hshows.editor_eq).trans hnil)).1 hprompt

theorem historyRefines_iff (hoffset : start.repl.browseOffset = 0) (hempty : start.text = []) :
    HistoryRefines start loaded ↔ ∀ s, Reaches start s → EntersOutsideHistory s := by
  constructor
  · exact fun h s hreach => entersOutside_of_browse hstart h.browse hreach
  · intro hcondition
    refine ⟨fun s hreach => ?_, fun s hreach => ?_, fun s hreach => ?_, fun s hprompt => ?_⟩
    · obtain ⟨next, hrun, -⟩ := replStep_ok (hreach.ok hstart)
      exact ⟨next, hrun⟩
    · rw [(hreach.ok hstart).repl.history.lines_eq, recentAfter_reverse]
    · obtain ⟨h, hload, hholds⟩ := (hreach.ok hstart).file
      exact ⟨h, hload, hholds.lines_eq.trans (hreach.ok hstart).repl.history.lines_eq.symm⟩
    · obtain ⟨hok, htext, hzero⟩ := newPrompt_offset hstart hoffset hcondition hempty hprompt
      exact (browsesBack_iff hok htext).2 hzero

end Session

/-- A session keeps its history as a list, with its file, exactly if no empty line is submitted
while an entry of the history is being looked at. -/
theorem history_refines_iff (historyFile : Option Text) (stdin : List UInt8) :
    ∃ start loaded, startSession historyFile stdin = .ok start ∧
      start.repl.history.lines = .ok loaded ∧
      (HistoryRefines start loaded ↔ ∀ s, Reaches start s → EntersOutsideHistory s) := by
  obtain ⟨start, loaded, hstart, hlines, hok, hempty, hoffset⟩ :=
    startSession_ok historyFile stdin
  exact ⟨start, loaded, hstart, hlines, historyRefines_iff hok hoffset hempty⟩

/-- Keys of the input, one after the other. -/
def replSteps : (count : Nat) → Session → Checked (Option Session)
  | 0, s => .ok (some s)
  | count + 1, s => do
    match ← replStep s with
    | none => return none
    | some s' => replSteps count s'

theorem reaches_of_replSteps {count : Nat} {s s' : Session}
    (h : replSteps count s = .ok (some s')) : Reaches s s' := by
  induction count generalizing s with
  | zero =>
    cases h
    exact .refl
  | succ count ih =>
    obtain ⟨next, hstep, h⟩ := Checked.bind_eq_ok.1 h
    cases next with
    | none => cases h
    | some mid => exact .head hstep (ih h)

/-- `a` and Enter, Up, Backspace, and Enter on the empty line: the next prompt does not browse
from the newest entry on. -/
theorem browse_emptyLine : ∃ start mid prompt,
    startSession none [97, 10, 27, 91, 65, 127, 10] = .ok start ∧ Reaches start mid ∧
      mid.AtEnter ∧ mid.executed = [text "a"] ∧ mid.text = [] ∧ mid.repl.browseOffset = 1 ∧
      replStep mid = .ok (some prompt) ∧ ¬BrowsesBack prompt ∧
      ∀ loaded, ¬HistoryRefines start loaded := by
  obtain ⟨start, loaded, hstart, -, hok, -⟩ := startSession_ok none [97, 10, 27, 91, 65, 127, 10]
  have hrun : (startSession none [97, 10, 27, 91, 65, 127, 10] >>= fun start =>
      replSteps 4 start >>= fun mid => .ok (mid.map fun mid =>
        (mid.stdin, mid.repl.line.bufLen, mid.repl.browseOffset, mid.executed))
        : Checked (Option (List UInt8 × Nat × Nat × List Text)))
      = .ok (some ([10], 0, 1, [text "a"])) := by decide +kernel
  rw [hstart, Checked.ok_bind] at hrun
  obtain ⟨mid, hsteps, hmid⟩ := Checked.bind_eq_ok.1 hrun
  obtain ⟨mid, rfl, hview⟩ := Option.map_eq_some_iff.1 (Except.ok.inj hmid)
  simp only [Prod.mk.injEq] at hview
  obtain ⟨hstdin, hlen, hoffset, hexecuted⟩ := hview
  have hreach := reaches_of_replSteps hsteps
  have henter : mid.AtEnter := by
    rw [Session.AtEnter, hstdin]
    exact .inl rfl
  have hs := hreach.ok hok
  obtain ⟨e, hshows, hone⟩ := hs.repl.line
  have hnil : e.text = [] := List.eq_nil_of_length_eq_zero (hshows.bufLen.symm.trans hlen)
  have htext : mid.text = [] := (congrArg Editor.text hshows.editor_eq).trans hnil
  have hstep : replStep mid = .ok (some { mid with stdin := (readKey mid.stdin).2 }) :=
    (if_pos henter).trans (enterLine_empty hshows hone hnil)
  have hnot : ¬BrowsesBack { mid with stdin := (readKey mid.stdin).2 } := fun hbrowse =>
    absurd (hoffset.symm.trans ((browsesBack_iff (hs.withStdin (readKey mid.stdin).2) htext).1
      hbrowse)) (by decide)
  exact ⟨start, mid, _, hstart, hreach, henter, hexecuted, htext, hoffset, hstep, hnot,
    fun _ hrefines => hnot (hrefines.browse _ (.inr ⟨mid, hreach, henter, hstep⟩))⟩

end Maxql
