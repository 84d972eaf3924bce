import Maxql.Lib.Bytes

/-!
# Text files read by lines

`fgets` on the rest of a file: at most one line, with its newline if there is
room for it.
-/

namespace Bytes

def newline : UInt8 := 10

/-- The characters that `fgets` takes when it has room for `n`, and the rest of the file. -/
def fgets : (n : Nat) → List UInt8 → List UInt8 × List UInt8
  | 0, file => ([], file)
  | _, [] => ([], [])
  | n + 1, c :: file =>
    if c = newline then ([c], file)
    else (c :: (fgets n file).1, (fgets n file).2)

theorem fgets_cons (n : Nat) (c : UInt8) (file : List UInt8) : fgets (n + 1) (c :: file) =
    if c = newline then ([c], file) else (c :: (fgets n file).1, (fgets n file).2) := rfl

theorem fgets_line {line : List UInt8} (hnewline : newline ∉ line) {n : Nat}
    (hn : line.length < n) (file : List UInt8) :
    fgets n (line ++ newline :: file) = (line ++ [newline], file) := by
  induction line generalizing n with
  | nil =>
    cases n with
    | zero => exact absurd hn (Nat.not_lt_zero _)
    | succ n => rfl
  | cons c line ih =>
    cases n with
    | zero => exact absurd hn (Nat.not_lt_zero _)
    | succ n =>
      rw [List.mem_cons, not_or] at hnewline
      rw [List.cons_append, fgets_cons, if_neg (Ne.symm hnewline.1),
        ih hnewline.2 (Nat.lt_of_succ_lt_succ hn)]
      rfl

theorem fgets_last {line : List UInt8} (hnewline : newline ∉ line) {n : Nat}
    (hn : line.length ≤ n) : fgets n line = (line, []) := by
  induction line generalizing n with
  | nil => cases n <;> rfl
  | cons c line ih =>
    cases n with
    | zero => exact absurd hn (Nat.not_succ_le_zero _)
    | succ n =>
      rw [List.mem_cons, not_or] at hnewline
      rw [fgets_cons, if_neg (Ne.symm hnewline.1), ih hnewline.2 (Nat.le_of_succ_le_succ hn)]

/-- A line that takes all the room leaves its newline behind. -/
theorem fgets_full {line : List UInt8} (hnewline : newline ∉ line) (file : List UInt8) :
    fgets line.length (line ++ file) = (line, file) := by
  induction line with
  | nil => rfl
  | cons c line ih =>
    rw [List.mem_cons, not_or] at hnewline
    rw [List.length_cons, List.cons_append, fgets_cons, if_neg (Ne.symm hnewline.1), ih hnewline.2]

/-- What is read is at most one line, with or without its newline. -/
theorem fgets_spec (n : Nat) (file : List UInt8) : ∃ line, newline ∉ line ∧ line.length ≤ n ∧
    ((fgets n file).1 = line ∨ (fgets n file).1 = line ++ [newline]) := by
  induction n generalizing file with
  | zero => exact ⟨[], List.not_mem_nil, Nat.le_refl _, .inl rfl⟩
  | succ n ih =>
    cases file with
    | nil => exact ⟨[], List.not_mem_nil, Nat.zero_le _, .inl rfl⟩
    | cons c file =>
      rw [fgets_cons]
      by_cases hc : c = newline
      · rw [if_pos hc, hc]
        exact ⟨[], List.not_mem_nil, Nat.zero_le _, .inr rfl⟩
      · obtain ⟨line, hline, hlen, hread⟩ := ih file
        rw [if_neg hc]
        refine ⟨c :: line, ?_, Nat.succ_le_succ hlen, ?_⟩
        · rw [List.mem_cons, not_or]
          exact ⟨Ne.symm hc, hline⟩
        · rcases hread with hread | hread
          · exact .inl (congrArg (c :: ·) hread)
          · exact .inr (congrArg (c :: ·) hread)

theorem fgets_length_le (n : Nat) (file : List UInt8) : (fgets n file).2.length ≤ file.length := by
  induction n generalizing file with
  | zero => exact Nat.le_refl _
  | succ n ih =>
    cases file with
    | nil => exact Nat.le_refl _
    | cons c file =>
      rw [fgets_cons]
      split
      · exact Nat.le_succ _
      · exact Nat.le_succ_of_le (ih file)

theorem fgets_length_lt (n : Nat) {file : List UInt8} (hfile : file ≠ []) :
    (fgets (n + 1) file).2.length < file.length := by
  cases file with
  | nil => exact absurd rfl hfile
  | cons c file =>
    rw [fgets_cons]
    split
    · exact Nat.lt_succ_self _
    · exact Nat.lt_succ_of_le (fgets_length_le n file)

end Bytes
