import Mathlib.Data.List.TakeWhile

/-!
# Longest match

A lexicon says which words spell which tokens.  A text is cut into tokens by
taking, behind the blanks, the longest word that spells one.  At most one list
of tokens comes out of a text.  Tokens that are written one after the other
with blanks between them come out again, provided that a word ends where its
blank stands.
-/

namespace Program

/-- The words of a language over `α`, each with the token it spells. -/
structure Lexicon (α τ : Type) where
  blank : α → Bool
  Spells : τ → List α → Prop
  spells_head : ∀ {t w}, Spells t w → ∃ c cs, w = c :: cs ∧ blank c = false
  spells_unique : ∀ {t t' w}, Spells t w → Spells t' w → t = t'

namespace Lexicon

variable {α τ : Type} {L : Lexicon α τ}

/-- `word` spells `token`, and no longer word stands at the front of the text. -/
structure Longest (L : Lexicon α τ) (token : τ) (word rest : List α) : Prop where
  spells : L.Spells token word
  max : ∀ {token' word'}, L.Spells token' word' → word' <+: word ++ rest →
    word'.length ≤ word.length

/-- The text is cut into the tokens. -/
inductive Scans (L : Lexicon α τ) : List α → List τ → Prop where
  | done {gap} (hgap : ∀ c ∈ gap, L.blank c = true) : Scans L gap []
  | next {gap token word rest tokens} (hgap : ∀ c ∈ gap, L.blank c = true)
      (hword : L.Longest token word rest) (hrest : Scans L rest tokens) :
      Scans L (gap ++ (word ++ rest)) (token :: tokens)

/-- The tokens written down in their order, with blanks between any two. -/
inductive Spaced (L : Lexicon α τ) : List τ → List α → Prop where
  | done {gap} (hgap : ∀ c ∈ gap, L.blank c = true) : Spaced L [] gap
  | next {gap token word rest tokens} (hgap : ∀ c ∈ gap, L.blank c = true)
      (hword : L.Spells token word) (hrest : Spaced L tokens rest)
      (hblank : ∀ c ∈ rest.head?, L.blank c = true) :
      Spaced L (token :: tokens) (gap ++ (word ++ rest))

/-- The longest word is determined by the text. -/
theorem Longest.unique {t t' : τ} {w w' rest rest' : List α} (h : L.Longest t w rest)
    (h' : L.Longest t' w' rest') (heq : w ++ rest = w' ++ rest') :
    t = t' ∧ w = w' ∧ rest = rest' := by
  have hle : w'.length ≤ w.length := h.max h'.spells ⟨rest', heq.symm⟩
  have hge : w.length ≤ w'.length := h'.max h.spells ⟨rest, heq⟩
  obtain ⟨rfl, rfl⟩ := List.append_inj heq (by omega)
  exact ⟨L.spells_unique h.spells h'.spells, rfl, rfl⟩

/-- What is left behind the blanks in front of a word. -/
theorem dropWhile_gap {gap : List α} (hgap : ∀ c ∈ gap, L.blank c = true) {t : τ}
    {word : List α} (hword : L.Spells t word) (rest : List α) :
    (gap ++ (word ++ rest)).dropWhile L.blank = word ++ rest := by
  obtain ⟨c, cs, rfl, hc⟩ := L.spells_head hword
  rw [List.dropWhile_append_of_pos hgap, List.cons_append, List.dropWhile_cons_of_neg]
  simp [hc]

theorem dropWhile_blanks {gap : List α} (hgap : ∀ c ∈ gap, L.blank c = true) :
    gap.dropWhile L.blank = [] :=
  List.dropWhile_eq_nil_iff.2 hgap

/-- At most one list of tokens comes out of a text. -/
theorem Scans.unique {text : List α} {ts ts' : List τ} (h : L.Scans text ts)
    (h' : L.Scans text ts') : ts = ts' := by
  induction h generalizing ts' with
  | @done gap hgap =>
    generalize htext : gap = text' at h'
    cases h' with
    | done => rfl
    | @next gap' token' word' rest' tokens' hgap' hword' =>
      have hdrop := dropWhile_gap hgap' hword'.spells rest'
      rw [← htext, dropWhile_blanks hgap] at hdrop
      obtain ⟨c, cs, rfl, -⟩ := L.spells_head hword'.spells
      cases hdrop
  | @next gap token word rest tokens hgap hword hrest ih =>
    have hdrop := dropWhile_gap hgap hword.spells rest
    generalize htext : gap ++ (word ++ rest) = text' at h' hdrop
    cases h' with
    | done hgap' =>
      rw [dropWhile_blanks hgap'] at hdrop
      obtain ⟨c, cs, rfl, -⟩ := L.spells_head hword.spells
      cases hdrop
    | @next gap' token' word' rest' tokens' hgap' hword' hrest' =>
      rw [dropWhile_gap hgap' hword'.spells rest'] at hdrop
      obtain ⟨rfl, -, rfl⟩ := hword'.unique hword hdrop
      rw [ih hrest']

/-- A word is the longest one where it ends before a blank, provided that no word goes on
behind a blank there. -/
theorem Spaced.scans {ts : List τ} {text : List α} (h : L.Spaced ts text)
    (hends : ∀ t ∈ ts, ∀ {w}, L.Spells t w → ∀ {t' c more}, L.blank c = true →
      ¬L.Spells t' (w ++ c :: more)) : L.Scans text ts := by
  induction h with
  | done hgap => exact .done hgap
  | @next gap token word rest tokens hgap hword hrest hblank ih =>
    refine .next hgap ⟨hword, fun {token' word'} hspells hfront => ?_⟩
      (ih fun t ht => hends t (List.mem_cons_of_mem _ ht))
    by_contra hlonger
    obtain ⟨more, rfl⟩ : word <+: word' :=
      List.prefix_of_prefix_length_le (List.prefix_append word rest) hfront (by omega)
    cases more with
    | nil => simp at hlonger
    | cons c more =>
      have hrest : c :: more <+: rest := (List.prefix_append_right_inj word).1 hfront
      have hc : rest.head? = some c := by
        obtain ⟨tail, rfl⟩ := hrest
        rfl
      exact hends token List.mem_cons_self hword (hblank c hc) hspells

end Lexicon

end Program
