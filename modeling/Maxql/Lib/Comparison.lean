import Maxql.Lib.Bytes

/-!
# Comparisons in sequence

A three-way comparison that may give 0 for different values, and what stays of
a total order when such comparisons are made one after the other.  `strncmp`
is one of them: it does not look behind the first NUL.

* `PreCmp.next`: the second comparison decides where the first gives 0;
* `PreCmp.on`: a comparison of what a function gives;
* `strncmp_eq`, `preCmp_strncmp`: `strncmp` by `memcmp`.
-/

namespace Program

open SortedEntries

variable {K L : Type}

/-- `cmp` is a three-way comparison of ranks, which different values may share. -/
structure PreCmp (cmp : K → K → Int) : Prop where
  neg_iff : ∀ {a b : K}, cmp a b < 0 ↔ 0 < cmp b a
  trans : ∀ {a b c : K}, cmp a b ≤ 0 → cmp b c ≤ 0 → cmp a c ≤ 0

theorem PreCmp.of_total {cmp : K → K → Int} (h : TotalCmp cmp) : PreCmp cmp where
  neg_iff := h.neg_iff
  trans := by
    intro a b c hab hbc
    rcases Int.lt_or_eq_of_le hab with hab | hab
    · rcases Int.lt_or_eq_of_le hbc with hbc | hbc
      · exact Int.le_of_lt (h.trans hab hbc)
      · rw [← h.eq_zero.1 hbc]
        exact Int.le_of_lt hab
    · rw [h.eq_zero.1 hab]
      exact hbc

namespace PreCmp

variable {cmp : K → K → Int} (h : PreCmp cmp)

include h

theorem self (a : K) : cmp a a = 0 := by
  have hneg := h.neg_iff (a := a) (b := a)
  omega

theorem pos_iff {a b : K} : 0 < cmp a b ↔ cmp b a < 0 := h.neg_iff.symm

theorem zero_symm {a b : K} (hab : cmp a b = 0) : cmp b a = 0 := by
  have hneg := h.neg_iff (a := a) (b := b)
  have hpos := h.pos_iff (a := a) (b := b)
  omega

theorem lt_of_lt_of_le {a b c : K} (hab : cmp a b < 0) (hbc : cmp b c ≤ 0) : cmp a c < 0 := by
  by_contra hac
  have hca : cmp c a ≤ 0 := by
    have hneg := h.neg_iff (a := a) (b := c)
    omega
  have hba := h.trans hbc hca
  have hpos := h.neg_iff.1 hab
  omega

theorem lt_of_le_of_lt {a b c : K} (hab : cmp a b ≤ 0) (hbc : cmp b c < 0) : cmp a c < 0 := by
  by_contra hac
  have hca : cmp c a ≤ 0 := by
    have hneg := h.neg_iff (a := a) (b := c)
    omega
  have hcb := h.trans hca hab
  have hpos := h.neg_iff.1 hbc
  omega

theorem on (f : L → K) : PreCmp fun a b => cmp (f a) (f b) where
  neg_iff := h.neg_iff
  trans := h.trans

/-- The second comparison decides where the first one gives 0. -/
theorem next {cmp' : K → K → Int} (h' : PreCmp cmp') :
    PreCmp fun a b => if cmp a b ≠ 0 then cmp a b else cmp' a b where
  neg_iff := by
    intro a b
    by_cases hab : cmp a b = 0
    · rw [if_neg (not_not.2 hab), if_neg (not_not.2 (h.zero_symm hab))]
      exact h'.neg_iff
    · have hba : cmp b a ≠ 0 := fun hba => hab (h.zero_symm hba)
      rw [if_pos hab, if_pos hba]
      exact h.neg_iff
  trans := by
    intro a b c hab hbc
    by_cases hzero : cmp a b = 0
    · rw [if_neg (not_not.2 hzero)] at hab
      by_cases hzero' : cmp b c = 0
      · have hac : cmp a c = 0 := by
          have hle := h.trans (Int.le_of_eq hzero) (Int.le_of_eq hzero')
          have hge := h.trans (Int.le_of_eq (h.zero_symm hzero'))
            (Int.le_of_eq (h.zero_symm hzero))
          have hneg := h.neg_iff (a := a) (b := c)
          omega
        rw [if_neg (not_not.2 hzero')] at hbc
        rw [if_neg (not_not.2 hac)]
        exact h'.trans hab hbc
      · rw [if_pos hzero'] at hbc
        have hac := h.lt_of_le_of_lt (Int.le_of_eq hzero)
          (show cmp b c < 0 by omega)
        rw [if_pos (by omega)]
        exact Int.le_of_lt hac
    · rw [if_pos hzero] at hab
      have hbc' : cmp b c ≤ 0 := by
        by_cases hzero' : cmp b c = 0
        · exact Int.le_of_eq hzero'
        · rwa [if_pos hzero'] at hbc
      have hac := h.lt_of_lt_of_le (show cmp a b < 0 by omega) hbc'
      rw [if_pos (by omega)]
      exact Int.le_of_lt hac

/-- A comparison that gives 0 for equal values only. -/
theorem total (heq : ∀ {a b : K}, cmp a b = 0 → a = b) : TotalCmp cmp where
  eq_zero := by
    intro a b
    refine ⟨heq, ?_⟩
    rintro rfl
    exact h.self a
  neg_iff := h.neg_iff
  trans := fun hab hbc => h.lt_of_lt_of_le hab (Int.le_of_lt hbc)

end PreCmp

end Program

namespace Bytes

open Program

/-- `strncmp` on as many bytes as both lists have. -/
def strncmp : List UInt8 → List UInt8 → Int
  | a :: as, b :: bs =>
    if a < b then -1 else if b < a then 1 else if a = 0 then 0 else strncmp as bs
  | _, _ => 0

/-- The bytes with zeros from the first NUL on. -/
def clearNul (bs : List UInt8) : List UInt8 := padTo (cstr bs) bs.length

theorem length_clearNul (bs : List UInt8) : (clearNul bs).length = bs.length :=
  length_padTo (length_cstr_le bs)

theorem clearNul_zero (bs : List UInt8) :
    clearNul (0 :: bs) = 0 :: List.replicate bs.length 0 := rfl

theorem clearNul_cons {b : UInt8} (hb : b ≠ 0) (bs : List UInt8) :
    clearNul (b :: bs) = b :: clearNul bs := by
  have hcstr : cstr (b :: bs) = b :: cstr bs :=
    List.takeWhile_cons_of_pos (decide_eq_true hb)
  rw [clearNul, hcstr, padTo, clearNul, padTo, List.length_cons, List.length_cons,
    Nat.add_sub_add_right, List.cons_append]

/-- A text that is filled up with zeros has none of its own. -/
theorem clearNul_padTo {bs : List UInt8} (h : 0 ∉ bs) {n : Nat} (hn : bs.length ≤ n) :
    clearNul (padTo bs n) = padTo bs n := by
  have hlen : (padTo bs n).length = n := length_padTo hn
  have hcstr : cstr (padTo bs n) = bs := by
    rw [padTo, cstr_append h]
    cases n - bs.length with
    | zero => exact List.append_nil bs
    | succ k => exact List.append_nil bs
  rw [clearNul, hlen, hcstr]

theorem strncmp_eq : ∀ {as bs : List UInt8}, as.length = bs.length →
    strncmp as bs = memcmp (clearNul as) (clearNul bs)
  | [], [], _ => rfl
  | a :: as, b :: bs, h => by
    have hlen : as.length = bs.length := Nat.succ.inj h
    by_cases ha : a = 0
    · subst ha
      by_cases hb : b = 0
      · subst hb
        rw [clearNul_zero, clearNul_zero, hlen, (memcmp_eq_zero rfl).2 rfl]
        rfl
      · have hlt : 0 < b := UInt8.pos_iff_ne_zero.2 hb
        rw [clearNul_zero, clearNul_cons hb, strncmp, memcmp, if_pos hlt, if_pos hlt]
    · by_cases hb : b = 0
      · subst hb
        have hlt : 0 < a := UInt8.pos_iff_ne_zero.2 ha
        have hnot : ¬a < 0 := UInt8.lt_asymm hlt
        rw [clearNul_zero, clearNul_cons ha, strncmp, memcmp, if_neg hnot, if_pos hlt,
          if_neg hnot, if_pos hlt]
      · rw [clearNul_cons ha, clearNul_cons hb, strncmp, memcmp, if_neg ha, strncmp_eq hlen]

theorem preCmp_memcmp (n : Nat) : PreCmp fun a b : Fixed n => memcmp a.1 b.1 :=
  .of_total (totalCmp_memcmp n)

theorem preCmp_strncmp (n : Nat) : PreCmp fun a b : Fixed n => strncmp a.1 b.1 := by
  have hclear : ∀ a : Fixed n, (clearNul a.1).length = n := fun a =>
    (length_clearNul a.1).trans a.2
  have hmem := (preCmp_memcmp n).on fun a : Fixed n => (⟨clearNul a.1, hclear a⟩ : Fixed n)
  have heq : (fun a b : Fixed n => strncmp a.1 b.1)
      = fun a b : Fixed n => memcmp (clearNul a.1) (clearNul b.1) := by
    funext a b
    exact strncmp_eq (a.2.trans b.2.symm)
  rw [heq]
  exact hmem

end Bytes
