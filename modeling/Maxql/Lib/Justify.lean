import Mathlib.Data.List.Basic
import Mathlib.Data.List.Infix

/-!
# Text in columns

Text over an alphabet in which some symbols start a character and the others
continue one.  `display` is the number of characters, and `justify` fills a text
up to a width with blanks, on one side.

* `display_justify`: the characters of a filled text;
* `append_inj_of_display`: a text can be cut out of what it is followed by, from
  its number of characters alone;
* `justify_inj`: a text without blanks on the filled side can be read back.
-/

namespace Justify

variable {α : Type} {lead : α → Bool} {blank : α}

/-- The number of characters. -/
def display (lead : α → Bool) (s : List α) : Nat := s.countP lead

/-- `s` with blanks up to the width. -/
def justify (lead : α → Bool) (blank : α) (right : Bool) (width : Nat) (s : List α) : List α :=
  if right then List.replicate (width - display lead s) blank ++ s
  else s ++ List.replicate (width - display lead s) blank

/-- There is no blank on the side that is filled. -/
def Trimmed (blank : α) (right : Bool) (s : List α) : Prop :=
  if right then s.head? ≠ some blank else s.getLast? ≠ some blank

instance [DecidableEq α] (blank : α) (right : Bool) (s : List α) :
    Decidable (Trimmed blank right s) :=
  inferInstanceAs (Decidable (if right then s.head? ≠ some blank else s.getLast? ≠ some blank))

@[simp] theorem display_append (s t : List α) :
    display lead (s ++ t) = display lead s + display lead t := List.countP_append

theorem display_le_length (s : List α) : display lead s ≤ s.length := List.countP_le_length

/-- All symbols start characters. -/
theorem display_eq_length {s : List α} (h : ∀ a ∈ s, lead a = true) :
    display lead s = s.length := List.countP_eq_length.2 h

theorem display_replicate (h : lead blank = true) (n : Nat) :
    display lead (List.replicate n blank) = n := by
  rw [display_eq_length, List.length_replicate]
  intro a ha
  rw [List.eq_of_mem_replicate ha]
  exact h

theorem display_justify (h : lead blank = true) (right : Bool) (width : Nat) (s : List α) :
    display lead (justify lead blank right width s) = max width (display lead s) := by
  unfold justify
  split
  · rw [display_append, display_replicate h]
    omega
  · rw [display_append, display_replicate h]
    omega

/-- The texts have as many characters and what follows them starts one. -/
theorem append_inj_of_display {s t rest rest' : List α} {b b' : α}
    (hdisplay : display lead s = display lead t) (hb : lead b = true) (hb' : lead b' = true)
    (h : s ++ b :: rest = t ++ b' :: rest') : s = t ∧ b :: rest = b' :: rest' := by
  induction s generalizing t with
  | nil =>
    cases t with
    | nil => exact ⟨rfl, h⟩
    | cons c t =>
      obtain ⟨rfl, -⟩ := List.cons.inj h
      rw [display, display, List.countP_cons_of_pos hb, List.countP_nil] at hdisplay
      exact absurd hdisplay.symm (Nat.succ_ne_zero _)
  | cons c s ih =>
    cases t with
    | nil =>
      obtain ⟨rfl, -⟩ := List.cons.inj h
      rw [display, display, List.countP_cons_of_pos hb', List.countP_nil] at hdisplay
      exact absurd hdisplay (Nat.succ_ne_zero _)
    | cons d t =>
      obtain ⟨rfl, hrest⟩ := List.cons.inj h
      have htail : display lead s = display lead t := by
        unfold display at hdisplay ⊢
        rw [List.countP_cons, List.countP_cons] at hdisplay
        omega
      obtain ⟨rfl, hsame⟩ := ih htail hrest
      exact ⟨rfl, hsame⟩

theorem getLast?_append_replicate {n : Nat} (s : List α) :
    (s ++ List.replicate (n + 1) blank).getLast? = some blank := by
  rw [List.replicate_succ', ← List.append_assoc, List.getLast?_append]
  rfl

/-- Texts that do not end with a blank, behind which there are blanks. -/
theorem append_replicate_inj {s t : List α} {m n : Nat} (hs : s.getLast? ≠ some blank)
    (ht : t.getLast? ≠ some blank)
    (h : s ++ List.replicate m blank = t ++ List.replicate n blank) : s = t := by
  induction m generalizing n with
  | zero =>
    cases n with
    | zero => rwa [List.replicate_zero, List.append_nil, List.append_nil] at h
    | succ n =>
      rw [List.replicate_zero, List.append_nil] at h
      rw [h] at hs
      exact absurd (getLast?_append_replicate t) hs
  | succ m ih =>
    cases n with
    | zero =>
      rw [List.replicate_zero, List.append_nil] at h
      rw [← h] at ht
      exact absurd (getLast?_append_replicate s) ht
    | succ n =>
      rw [List.replicate_succ', List.replicate_succ', ← List.append_assoc,
        ← List.append_assoc] at h
      exact ih (List.append_cancel_right h)

/-- A run of one symbol, cut out of what it is followed by. -/
theorem replicate_append_inj {a b : α} (hne : a ≠ b) {m n : Nat} {rest rest' : List α}
    (h : List.replicate m a ++ b :: rest = List.replicate n a ++ b :: rest') :
    m = n ∧ rest = rest' := by
  induction m generalizing n with
  | zero =>
    cases n with
    | zero => exact ⟨rfl, (List.cons.inj h).2⟩
    | succ n => exact absurd (List.cons.inj h).1 hne.symm
  | succ m ih =>
    cases n with
    | zero => exact absurd (List.cons.inj h).1 hne
    | succ n =>
      obtain ⟨hcount, hrest⟩ := ih (List.cons.inj h).2
      exact ⟨congrArg (· + 1) hcount, hrest⟩

theorem justify_inj {right : Bool} {width width' : Nat} {s t : List α}
    (hs : Trimmed blank right s) (ht : Trimmed blank right t)
    (h : justify lead blank right width s = justify lead blank right width' t) : s = t := by
  unfold justify Trimmed at *
  cases right with
  | false => exact append_replicate_inj hs ht h
  | true =>
    have hreverse := congrArg List.reverse h
    rw [if_pos rfl, if_pos rfl, List.reverse_append, List.reverse_append, List.reverse_replicate,
      List.reverse_replicate] at hreverse
    rw [if_pos rfl, ← List.getLast?_reverse] at hs ht
    exact List.reverse_injective (append_replicate_inj hs ht hreverse)

end Justify
