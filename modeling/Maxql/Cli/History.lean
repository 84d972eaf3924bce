import Maxql.Cli.Repl
import Maxql.Lib.RingBuffer

/-!
# The history and its file

The ring of `repl_run` as a list with the newest entry first.  The groups are
what an entry is, a line that is recorded, the file, and reading it back.
-/

namespace Maxql

open Program Bytes

/-! ## Entries -/

/-- What Enter can record: not empty, and one line of a C string that fits its array. -/
structure HistoryEntry (line : Text) : Prop where
  nonempty : line ≠ []
  nonzero : 0 ∉ line
  oneLine : newline ∉ line
  fits : line.length < maxInputLen

/-- The ring holds `recent`, the newest entry first. -/
structure History.Holds (h : History) (recent : List Text) : Prop where
  ring : RingBuffer h.slots historyCapacity h.count h.write recent
  entries : ∀ line ∈ recent, HistoryEntry line

/-- The history after a line that is not empty. -/
def remember (recent : List Text) (line : Text) : List Text :=
  if recent.head? = some line then recent else (line :: recent).take historyCapacity

/-- The file, with the oldest entry first. -/
def historyText (recent : List Text) : Text := (recent.reverse.map (· ++ [newline])).flatten

theorem holds_empty : History.empty.Holds [] where
  ring := .empty List.length_replicate (by decide)
  entries := fun _ hline => absurd hline List.not_mem_nil

theorem historyIndex_eq {write back : Nat} (hwrite : write < historyCapacity)
    (hback : back ≤ historyCapacity) :
    historyIndex write back = ringIndex historyCapacity write back := by
  unfold historyIndex ringIndex historyCapacity at *
  omega

theorem strcpyText_eq {line : Text} (h : line.length < maxInputLen) :
    strcpyText line = .ok line := if_pos h

section Holds

variable {h : History} {recent : List Text} (hh : h.Holds recent)

include hh

/-- An entry by how far it is back. -/
theorem History.Holds.read {k : Nat} {line : Text} (hline : recent[k]? = some line) :
    readAt h.slots (historyIndex h.write (k + 1)) = .ok line := by
  have hk := (List.getElem?_eq_some_iff.1 hline).1
  have hle := hh.ring.length_le
  rw [historyIndex_eq hh.ring.write_lt (by omega)]
  exact hh.ring.read hline

theorem isDuplicateRecord_eq (line : Text) :
    isDuplicateRecord line h = .ok (decide (recent.head? = some line)) := by
  have hcount := hh.ring.count_eq
  unfold isDuplicateRecord
  cases hrecent : recent with
  | nil =>
    rw [hrecent] at hcount
    rw [if_neg (by rw [hcount]; exact Nat.lt_irrefl 0)]
    rfl
  | cons last older =>
    have hread : readAt h.slots (historyIndex h.write 1) = .ok last :=
      hh.read (k := 0) (by rw [hrecent]; rfl)
    rw [hrecent] at hcount
    rw [if_pos (by rw [hcount]; exact Nat.succ_pos _), hread, Checked.ok_bind]
    show Except.ok (line == last) = _
    by_cases hsame : line = last
    · simp [hsame]
    · simp [hsame, Ne.symm hsame]

/-- `history_save` writes the entries in the order in which they came. -/
theorem historySave_eq (historyFile : Option Text) (hne : recent ≠ []) :
    historySave h historyFile = .ok (some (historyText recent)) := by
  have hcount := hh.ring.count_eq
  have hle := hh.ring.length_le
  have hpos : 0 < recent.length := List.length_pos_of_ne_nil hne
  unfold historySave
  rw [if_neg (by omega), historyIndex_eq hh.ring.write_lt (by omega)]
  have hlines : (List.range h.count).mapM (fun i => do
      let line ← readAt h.slots ((ringIndex historyCapacity h.write h.count + i)
        % historyCapacity)
      return line ++ [newline]) = Except.ok (recent.reverse.map (· ++ [newline])) := by
    refine mapM_eq_ok.2 (List.forall₂_iff_get.2 ⟨?_, fun i hi hi' => ?_⟩)
    · rw [List.length_range, List.length_map, List.length_reverse, hcount]
    · have hlt : i < recent.reverse.length := by rwa [List.length_map] at hi'
      have hread := hh.ring.readOldest (List.getElem?_eq_getElem hlt)
      simp only [List.get_eq_getElem, List.getElem_range, List.getElem_map]
      rw [hread]
      rfl
  simp only [hlines]
  rfl

/-- A new entry in the slot that is written next. -/
theorem History.Holds.push {line : Text} (hline : HistoryEntry line) :
    ∃ slots, writeAt h.slots h.write line = .ok slots ∧
      History.Holds ⟨slots, if h.count < historyCapacity then h.count + 1 else h.count,
        (h.write + 1) % historyCapacity⟩ ((line :: recent).take historyCapacity) := by
  obtain ⟨slots, hwrite, hring⟩ := hh.ring.push line
  refine ⟨slots, hwrite, hring, fun e he => ?_⟩
  rcases List.mem_cons.1 (List.mem_of_mem_take he) with rfl | he
  · exact hline
  · exact hh.entries e he

/-- A line that is not the last one again goes into the ring and the ring into the file. -/
theorem recordLine_eq (historyFile : Option Text) {line : Text} (hline : HistoryEntry line) :
    ∃ h', recordLine h historyFile line
        = .ok (h', some (historyText ((line :: recent).take historyCapacity))) ∧
      h'.Holds ((line :: recent).take historyCapacity) := by
  obtain ⟨slots, hwrite, hpush⟩ := hh.push hline
  refine ⟨_, ?_, hpush⟩
  have hsave := historySave_eq hpush historyFile (List.cons_ne_nil _ _)
  rw [recordLine, strcpyText_eq hline.fits, Checked.ok_bind, hwrite, Checked.ok_bind]
  simp only [hsave]
  rfl

end Holds

/-! ## Lines of the file -/

theorem stripNewline_of_not_mem {line : Text} (hline : newline ∉ line) :
    stripNewline line = line := by
  rw [stripNewline, if_neg]
  intro hlast
  exact hline (List.mem_of_getLast? hlast)

theorem stripNewline_append (line : Text) : stripNewline (line ++ [newline]) = line := by
  rw [stripNewline, if_pos List.getLast?_concat, List.dropLast_concat]

theorem newline_not_mem_cstr {line : Text} (hline : newline ∉ line) :
    newline ∉ cstr line := fun hmem =>
  hline ((List.takeWhile_sublist _).mem hmem)

theorem stripNewline_cstr {line : Text} (hline : newline ∉ line) :
    stripNewline (cstr (line ++ [newline])) = cstr line := by
  by_cases hzero : 0 ∈ line
  · obtain ⟨a, b, rfl⟩ := List.append_of_mem hzero
    have ha : newline ∉ a := fun hmem => hline (List.mem_append_left _ hmem)
    rw [List.append_assoc, List.cons_append, cstr_append_zero, cstr_append_zero,
      stripNewline_of_not_mem (newline_not_mem_cstr ha)]
  · rw [cstr_append hzero, cstr_of_zero_not_mem hzero]
    exact stripNewline_append line

/-- A line of the file, if it is not empty, is an entry. -/
theorem entry_of_file (file : Text)
    (hne : stripNewline (cstr (fgets (maxInputLen - 1) file).1) ≠ []) :
    HistoryEntry (stripNewline (cstr (fgets (maxInputLen - 1) file).1)) := by
  obtain ⟨line, hline, hlen, hread⟩ := fgets_spec (maxInputLen - 1) file
  have hstrip : stripNewline (cstr (fgets (maxInputLen - 1) file).1) = cstr line := by
    rcases hread with hread | hread
    · rw [hread, stripNewline_of_not_mem (newline_not_mem_cstr hline)]
    · rw [hread, stripNewline_cstr hline]
  rw [hstrip] at hne ⊢
  have hfits := length_cstr_le line
  have hmax : maxInputLen = 8192 := rfl
  exact ⟨hne, zero_not_mem_cstr line, newline_not_mem_cstr hline, by omega⟩

/-! ## Reading the file -/

theorem historyLoadFrom_total {fuel : Nat} {file : Text} (hfuel : file.length ≤ fuel)
    {h : History} {recent : List Text} (hh : h.Holds recent) :
    ∃ h' recent', historyLoadFrom fuel file h = .ok h' ∧ h'.Holds recent' := by
  induction fuel generalizing file h recent with
  | zero =>
    rw [historyLoadFrom, if_pos (List.eq_nil_of_length_eq_zero (Nat.le_zero.1 hfuel))]
    exact ⟨h, recent, rfl, hh⟩
  | succ fuel ih =>
    rw [historyLoadFrom]
    by_cases hfile : file = []
    · rw [if_pos hfile]
      exact ⟨h, recent, rfl, hh⟩
    · rw [if_neg hfile]
      have hshorter := fgets_length_lt (maxInputLen - 2) hfile
      have hrest : (fgets (maxInputLen - 1) file).2.length ≤ fuel :=
        Nat.le_of_lt_succ (Nat.lt_of_lt_of_le hshorter hfuel)
      by_cases hcount : h.count ≥ historyCapacity
      · simp only [if_pos hcount]
        exact ⟨h, recent, rfl, hh⟩
      · simp only [if_neg hcount]
        by_cases hline : stripNewline (cstr (fgets (maxInputLen - 1) file).1) = []
        · rw [if_pos hline]
          exact ih hrest hh
        · have hentry := entry_of_file file hline
          obtain ⟨slots, hwrite, hpush⟩ := hh.push hentry
          rw [if_pos (Nat.not_le.1 hcount)] at hpush
          rw [if_neg hline, strcpyText_eq hentry.fits, Checked.ok_bind, hwrite,
            Checked.ok_bind]
          exact ih hrest hpush

/-- A program starts with a history, whatever is in the file. -/
theorem historyLoad_total (historyFile : Option Text) :
    ∃ h recent, historyLoad historyFile = .ok h ∧ h.Holds recent := by
  cases historyFile with
  | none => exact ⟨_, _, rfl, holds_empty⟩
  | some file => exact historyLoadFrom_total (Nat.le_refl _) holds_empty

theorem cstr_entry {line : Text} (hline : HistoryEntry line) (rest : Text) :
    cstr (line ++ rest) = line ++ cstr rest := cstr_append hline.nonzero rest

/-- A round that reads an entry, given what is left of the file. -/
theorem historyLoadFrom_entry (fuel : Nat) {h : History} {recent : List Text}
    (hh : h.Holds recent) (hroom : recent.length < historyCapacity) {line chunk rest file : Text}
    (hline : HistoryEntry line) (hne : file ≠ [])
    (hfgets : fgets (maxInputLen - 1) file = (chunk, rest))
    (hchunk : stripNewline (cstr chunk) = line) :
    ∃ h', historyLoadFrom (fuel + 1) file h = historyLoadFrom fuel rest h' ∧
      h'.Holds (line :: recent) := by
  obtain ⟨slots, hwrite, hpush⟩ := hh.push hline
  have hcount : h.count < historyCapacity := hh.ring.count_eq ▸ hroom
  rw [if_pos hcount, List.take_of_length_le (by rw [List.length_cons]; omega)] at hpush
  refine ⟨_, ?_, hpush⟩
  rw [historyLoadFrom, if_neg hne, hfgets]
  simp only [if_neg (Nat.not_le.2 hcount), hchunk]
  rw [if_neg hline.nonempty, strcpyText_eq hline.fits, Checked.ok_bind, hwrite, Checked.ok_bind]

/-- A newline of its own is read over. -/
theorem historyLoadFrom_newline {fuel : Nat} {h : History} {recent : List Text}
    (hh : h.Holds recent) (hroom : recent.length < historyCapacity) (file : Text) :
    historyLoadFrom (fuel + 1) (newline :: file) h = historyLoadFrom fuel file h := by
  have hcount : h.count < historyCapacity := hh.ring.count_eq ▸ hroom
  rw [historyLoadFrom, if_neg (List.cons_ne_nil _ _)]
  simp only [if_neg (Nat.not_le.2 hcount)]
  rfl

/-- The same at the end of the file, when the history may be full. -/
theorem historyLoadFrom_lastNewline (fuel : Nat) (h : History) :
    historyLoadFrom (fuel + 1) [newline] h = .ok h := by
  rw [historyLoadFrom, if_neg (List.cons_ne_nil _ _)]
  by_cases hcount : h.count ≥ historyCapacity
  · simp only [if_pos hcount]
    rfl
  · simp only [if_neg hcount]
    cases fuel <;> rfl

/-- The entries of a file come behind those that are there. -/
theorem historyLoadFrom_lines {lines : List Text} (hlines : ∀ line ∈ lines, HistoryEntry line)
    {fuel : Nat} {h : History} {recent : List Text} (hh : h.Holds recent)
    (hroom : recent.length + lines.length ≤ historyCapacity)
    (hfuel : (lines.map (· ++ [newline])).flatten.length ≤ fuel) :
    ∃ h', historyLoadFrom fuel (lines.map (· ++ [newline])).flatten h = .ok h' ∧
      h'.Holds (lines.reverse ++ recent) := by
  induction lines generalizing fuel h recent with
  | nil =>
    refine ⟨h, ?_, hh⟩
    cases fuel <;> rfl
  | cons line lines ih =>
    obtain ⟨hline, hlines⟩ := List.forall_mem_cons.1 hlines
    have hfile : ((line :: lines).map (· ++ [newline])).flatten
        = line ++ newline :: (lines.map (· ++ [newline])).flatten := by
      rw [List.map_cons, List.flatten_cons, List.append_assoc]
      rfl
    rw [hfile] at hfuel ⊢
    rw [List.length_append, List.length_cons] at hfuel
    rw [List.length_cons] at hroom
    have hpos := List.length_pos_of_ne_nil hline.nonempty
    have hfits := hline.fits
    obtain ⟨fuel, rfl⟩ := Nat.exists_eq_succ_of_ne_zero (show fuel ≠ 0 by omega)
    rw [List.reverse_cons, List.append_assoc, List.singleton_append]
    have hne : line ++ newline :: (lines.map (· ++ [newline])).flatten ≠ [] :=
      List.append_ne_nil_of_right_ne_nil _ (List.cons_ne_nil _ _)
    have hstrip := cstr_entry hline
    by_cases hshort : line.length < maxInputLen - 1
    · obtain ⟨h', hrun, hh'⟩ := historyLoadFrom_entry fuel hh (by omega) hline hne
        (fgets_line hline.oneLine hshort _)
        (by rw [hstrip]; exact stripNewline_append line)
      rw [hrun]
      exact ih hlines hh' (by rw [List.length_cons]; omega) (by omega)
    · -- the line fills the buffer, and the next round reads its newline
      have hfull : line.length = maxInputLen - 1 := by omega
      have hread := fgets_full hline.oneLine (newline :: (lines.map (· ++ [newline])).flatten)
      rw [hfull] at hread
      have hwhole := hstrip []
      rw [List.append_nil] at hwhole
      obtain ⟨h', hrun, hh'⟩ := historyLoadFrom_entry fuel hh (by omega) hline hne hread
        (by rw [hwhole]; exact (congrArg _ (List.append_nil line)).trans
              (stripNewline_of_not_mem hline.oneLine))
      rw [hrun]
      obtain ⟨fuel, rfl⟩ := Nat.exists_eq_succ_of_ne_zero (show fuel ≠ 0 by omega)
      by_cases hlast : lines = []
      · subst hlast
        exact ⟨h', historyLoadFrom_lastNewline fuel h', hh'⟩
      · have hmore := List.length_pos_of_ne_nil hlast
        rw [historyLoadFrom_newline hh' (by rw [List.length_cons]; omega)]
        exact ih hlines hh' (by rw [List.length_cons]; omega) (by omega)

/-- What `history_save` has written is what `history_load` reads. -/
theorem historyLoad_historyText {h : History} {recent : List Text} (hh : h.Holds recent) :
    ∃ h', historyLoad (some (historyText recent)) = .ok h' ∧ h'.Holds recent := by
  have hlines : ∀ line ∈ recent.reverse, HistoryEntry line := fun line hline =>
    hh.entries line (List.mem_reverse.1 hline)
  obtain ⟨h', hrun, hh'⟩ := historyLoadFrom_lines hlines holds_empty
    (by rw [List.length_reverse, List.length_nil, Nat.zero_add]; exact hh.ring.length_le)
    (Nat.le_refl _)
  rw [List.reverse_reverse, List.append_nil] at hh'
  exact ⟨h', hrun, hh'⟩

end Maxql
