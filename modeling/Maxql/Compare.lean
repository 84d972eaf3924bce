import Maxql.Types

/-!
# Comparison of values

`compare_value` always gives a number, and on two values of one type it is zero
on equal values only, but for two `float` values that differ in their bits.
-/

namespace Maxql

open Bytes

theorem threeWay_eq_zero {a b : Int} : threeWay a b = 0 ↔ a = b := by
  unfold threeWay
  split <;> split <;> omega

theorem threeWay_self (a : Int) : threeWay a a = 0 := threeWay_eq_zero.2 rfl

theorem compareFloat_self (bits : UInt32) : compareFloat bits bits = 0 := by
  unfold compareFloat
  split
  · rfl
  · exact threeWay_self _

theorem compareBinary_eq_zero {a b : List UInt8} :
    compareBinary a.length a b.length b = 0 ↔ a = b := by
  unfold compareBinary
  by_cases hlen : a.length = b.length
  · have hzero : threeWay a.length b.length = 0 := threeWay_eq_zero.2 (by rw [hlen])
    simp only [hzero, ne_eq, not_true_eq_false, if_false]
    exact memcmp_eq_zero hlen
  · have hne : threeWay a.length b.length ≠ 0 := fun h => hlen (by
      exact_mod_cast threeWay_eq_zero.1 h)
    simp only [if_pos hne]
    exact ⟨fun h => absurd h hne, fun h => absurd (congrArg List.length h) hlen⟩

/-- Two `float` values that are equal have the same bits. -/
def ExactFloats (v w : DataValue) : Prop :=
  ∀ a b, v = .float a → w = .float b → compareFloat a b = 0 → a = b

variable [UnionMemory]

/-- Two values that `compare_value` cannot tell apart. -/
def Equals (v w : DataValue) : Prop := compareValue v w = .ok 0

/-- A value is compared with every other. -/
theorem exists_compareValue {v : DataValue} (hnull : v.type ≠ .null) (w : DataValue) :
    ∃ n, compareValue v w = .ok n := by
  cases v with
  | null => exact absurd rfl hnull
  | _ => exact ⟨_, rfl⟩

theorem equals_self {v : DataValue} (hnull : v.type ≠ .null) : Equals v v := by
  cases v with
  | null => exact absurd rfl hnull
  | int n => exact congrArg Except.ok (threeWay_self _)
  | string s => exact congrArg Except.ok (strcmp_eq_zero.2 rfl)
  | binary b => exact congrArg Except.ok (compareBinary_eq_zero.2 rfl)
  | float bits => exact congrArg Except.ok (compareFloat_self bits)

theorem Equals.eq {v w : DataValue} (h : Equals v w) (htype : v.type = w.type)
    (hfloat : ExactFloats v w) : v = w := by
  unfold Equals at h
  cases v <;> cases w <;> simp only [DataValue.type, reduceCtorEq] at htype <;>
    simp only [compareValue, Except.ok.injEq, reduceCtorEq, DataValue.int32_int,
      DataValue.chars_string, DataValue.binLen_binary, DataValue.binBytes_binary,
      DataValue.float32_float] at h
  case int.int a b => exact congrArg DataValue.int (Int32.toInt_inj.1 (threeWay_eq_zero.1 h))
  case string.string s t =>
    obtain ⟨as, ha, hs⟩ := s
    obtain ⟨bs, hb, ht⟩ := t
    obtain rfl : as = bs := strcmp_eq_zero.1 h
    rfl
  case binary.binary a b =>
    obtain ⟨as, ha⟩ := a
    obtain ⟨bs, hb⟩ := b
    obtain rfl : as = bs := compareBinary_eq_zero.1 h
    rfl
  case float.float a b => exact congrArg DataValue.float (hfloat a b rfl rfl h)

end Maxql
