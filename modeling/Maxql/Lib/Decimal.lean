import Mathlib.Algebra.Order.Ring.Nat
import Mathlib.Data.List.Basic
import Mathlib.Tactic.Ring

/-!
# Decimal numbers

The digits of a number as bytes, and the number that digits stand for.
-/

namespace Decimal

/-- The byte of a digit. -/
def digit (d : Nat) : UInt8 := UInt8.ofNat (48 + d)

def isDigit (b : UInt8) : Bool := 48 ≤ b && b ≤ 57

def digitsFrom : (fuel n : Nat) → List UInt8 → List UInt8
  | 0, _, acc => acc
  | fuel + 1, n, acc =>
    if n < 10 then digit n :: acc else digitsFrom fuel (n / 10) (digit (n % 10) :: acc)

/-- The digits of `n`, the highest first. -/
def print (n : Nat) : List UInt8 := digitsFrom (n + 1) n []

/-- The number that the digits `bs` extend `acc` to. -/
def valueFrom (acc : Nat) : List UInt8 → Nat
  | [] => acc
  | b :: bs => valueFrom (acc * 10 + (b.toNat - 48)) bs

/-- The number that digits stand for. -/
def value (bs : List UInt8) : Nat := valueFrom 0 bs

theorem valueFrom_cons (acc : Nat) (b : UInt8) (bs : List UInt8) :
    valueFrom acc (b :: bs) = valueFrom (acc * 10 + (b.toNat - 48)) bs := by
  exact Eq.refl (valueFrom (acc * 10 + (b.toNat - 48)) bs)

theorem valueFrom_eq (acc : Nat) (bs : List UInt8) :
    valueFrom acc bs = acc * 10 ^ bs.length + value bs := by
  induction bs generalizing acc with
  | nil => exact (Nat.mul_one acc).symm
  | cons b bs ih =>
    have hacc := ih (acc * 10 + (b.toNat - 48))
    have hzero := ih (0 * 10 + (b.toNat - 48))
    rw [value, valueFrom_cons, valueFrom_cons, hacc, hzero, List.length_cons, pow_succ]
    ring

/-- The digits in front count as often as there are places behind them. -/
theorem value_append (xs ys : List UInt8) :
    value (xs ++ ys) = value xs * 10 ^ ys.length + value ys := by
  have happend : ∀ acc, valueFrom acc (xs ++ ys) = valueFrom (valueFrom acc xs) ys := by
    intro acc
    induction xs generalizing acc with
    | nil => rfl
    | cons x xs ih => exact ih _
  rw [value, happend, valueFrom_eq]
  rfl

theorem toNat_digit {d : Nat} (h : d < 10) : (digit d).toNat = 48 + d :=
  UInt8.toNat_ofNat_of_lt (by omega : 48 + d < 256)

theorem isDigit_digit {d : Nat} (h : d < 10) : isDigit (digit d) = true := by
  have hd := toNat_digit h
  simp only [isDigit, Bool.and_eq_true, decide_eq_true_eq, UInt8.le_iff_toNat_le, hd]
  exact ⟨by simp, by simp; omega⟩

theorem valueFrom_digit {d : Nat} (h : d < 10) (acc : Nat) (bs : List UInt8) :
    valueFrom acc (digit d :: bs) = valueFrom (acc * 10 + d) bs := by
  have hd : (digit d).toNat - 48 = d := by
    rw [toNat_digit h]
    omega
  show valueFrom (acc * 10 + ((digit d).toNat - 48)) bs = _
  rw [hd]

theorem valueFrom_digitsFrom (fuel : Nat) : ∀ (n : Nat) (acc : List UInt8), n < fuel →
    valueFrom 0 (digitsFrom fuel n acc) = valueFrom n acc := by
  induction fuel with
  | zero => exact fun n _ h => absurd h (Nat.not_lt_zero n)
  | succ fuel ih =>
    intro n acc hn
    rw [digitsFrom]
    split
    · next hlt => rw [valueFrom_digit hlt, Nat.zero_mul, Nat.zero_add]
    · next hge =>
      rw [ih _ _ (by omega), valueFrom_digit (Nat.mod_lt n (by omega)), Nat.div_add_mod']

theorem value_print (n : Nat) : value (print n) = n :=
  valueFrom_digitsFrom (n + 1) n [] (Nat.lt_succ_self n)

theorem isDigit_of_mem_digitsFrom (fuel : Nat) : ∀ (n : Nat) (acc : List UInt8),
    (∀ b ∈ acc, isDigit b = true) → ∀ b ∈ digitsFrom fuel n acc, isDigit b = true := by
  induction fuel with
  | zero => exact fun _ _ h => h
  | succ fuel ih =>
    intro n acc h
    rw [digitsFrom]
    split
    · next hlt =>
      intro b hb
      rcases List.mem_cons.1 hb with rfl | hb
      · exact isDigit_digit hlt
      · exact h b hb
    · refine ih _ _ fun b hb => ?_
      rcases List.mem_cons.1 hb with rfl | hb
      · exact isDigit_digit (Nat.mod_lt n (by omega))
      · exact h b hb

theorem isDigit_of_mem_print {n : Nat} {b : UInt8} (h : b ∈ print n) : isDigit b = true :=
  isDigit_of_mem_digitsFrom (n + 1) n [] (fun _ hb => absurd hb List.not_mem_nil) b h

theorem length_digitsFrom_le (k : Nat) : ∀ (fuel n : Nat) (acc : List UInt8),
    n < 10 ^ (k + 1) → (digitsFrom fuel n acc).length ≤ acc.length + (k + 1) := by
  induction k with
  | zero =>
    intro fuel n acc hn
    cases fuel with
    | zero => simp [digitsFrom]
    | succ fuel => simp [digitsFrom, show n < 10 by omega]
  | succ k ih =>
    intro fuel n acc hn
    cases fuel with
    | zero => simp [digitsFrom]
    | succ fuel =>
      rw [digitsFrom]
      split
      · simp
      · have hdiv : n / 10 < 10 ^ (k + 1) := by
          rw [Nat.div_lt_iff_lt_mul (by omega)]
          rwa [Nat.pow_succ] at hn
        have := ih fuel (n / 10) (digit (n % 10) :: acc) hdiv
        rw [List.length_cons] at this
        omega

/-- A number below `10 ^ (k + 1)` has at most `k + 1` digits. -/
theorem length_print_le {n : Nat} (k : Nat) (h : n < 10 ^ (k + 1)) :
    (print n).length ≤ k + 1 := by
  have := length_digitsFrom_le k (n + 1) n [] h
  rwa [List.length_nil, Nat.zero_add] at this

theorem print_ne_nil (n : Nat) : print n ≠ [] := by
  have hne : ∀ (fuel m : Nat) (acc : List UInt8), acc ≠ [] → digitsFrom fuel m acc ≠ [] := by
    intro fuel
    induction fuel with
    | zero => exact fun _ _ h => h
    | succ fuel ih =>
      intro m acc h
      rw [digitsFrom]
      split
      · exact List.cons_ne_nil _ _
      · exact ih _ _ (List.cons_ne_nil _ _)
  rw [print, digitsFrom]
  split
  · exact List.cons_ne_nil _ _
  · exact hne _ _ _ (List.cons_ne_nil _ _)

end Decimal
