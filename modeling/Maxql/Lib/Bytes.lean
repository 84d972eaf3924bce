import Maxql.Lib.Program
import Maxql.Lib.SortedEntries
import Mathlib.Algebra.Order.Ring.Nat
import Mathlib.Data.List.TakeWhile

/-!
# Byte strings

`memcmp` as a three-way comparison, which is a total order on strings of one
length, numbers in little-endian order, the pieces of a string, and the reads
and writes of a file.
-/

namespace Bytes

open Program SortedEntries

/-! ## Comparison -/

/-- `memcmp` on the common part of two byte strings. -/
def memcmp : List UInt8 → List UInt8 → Int
  | a :: as, b :: bs => if a < b then -1 else if b < a then 1 else memcmp as bs
  | _, _ => 0

@[simp] theorem memcmp_nil (bs : List UInt8) : memcmp [] bs = 0 := by
  cases bs <;> rfl

theorem memcmp_eq_zero : ∀ {as bs : List UInt8}, as.length = bs.length →
    (memcmp as bs = 0 ↔ as = bs)
  | [], [], _ => by simp
  | a :: as, b :: bs, h => by
    have ih : memcmp as bs = 0 ↔ as = bs := memcmp_eq_zero (by simpa using h)
    rw [memcmp]
    split
    · next hlt => simpa using fun heq : a = b => absurd (heq ▸ hlt) (UInt8.lt_irrefl b)
    · split
      · next hlt => simpa using fun heq : a = b => absurd (heq ▸ hlt) (UInt8.lt_irrefl b)
      · next hab hba =>
        have heq : a = b := UInt8.le_antisymm (UInt8.not_lt.1 hba) (UInt8.not_lt.1 hab)
        simp [heq, ih]

theorem memcmp_cons_neg {a b : UInt8} {as bs : List UInt8} (hab : a < b) :
    memcmp (a :: as) (b :: bs) < 0 := by
  simp [memcmp, hab]

theorem memcmp_neg_iff : ∀ {as bs : List UInt8}, memcmp as bs < 0 ↔ 0 < memcmp bs as
  | [], bs => by cases bs <;> simp [memcmp]
  | a :: as, [] => by simp [memcmp]
  | a :: as, b :: bs => by
    have ih : memcmp as bs < 0 ↔ 0 < memcmp bs as := memcmp_neg_iff
    rw [memcmp, memcmp]
    by_cases hab : a < b
    · have hba : ¬b < a := UInt8.lt_asymm hab
      simp [hab, hba]
    · by_cases hba : b < a
      · simp [hab, hba]
      · simp [hab, hba, ih]

theorem memcmp_trans : ∀ {as bs cs : List UInt8}, memcmp as bs < 0 → memcmp bs cs < 0 →
    memcmp as cs < 0
  | [], bs, cs, h, _ => by simp at h
  | a :: as, [], cs, h, _ => by simp [memcmp] at h
  | a :: as, b :: bs, [], _, h => by simp [memcmp] at h
  | a :: as, b :: bs, c :: cs, h₁, h₂ => by
    have ih : memcmp as bs < 0 → memcmp bs cs < 0 → memcmp as cs < 0 := memcmp_trans
    simp only [memcmp] at h₁ h₂ ⊢
    by_cases hab : a < b
    · have hac : a < c := by
        by_cases hbc : b < c
        · exact UInt8.lt_trans hab hbc
        · have hcb : ¬c < b := fun hcb => by simp [hbc, hcb] at h₂
          exact UInt8.lt_of_lt_of_le hab (UInt8.not_lt.1 hcb)
      simp [hac]
    · have hba : ¬b < a := fun hba => by simp [hab, hba] at h₁
      have heq : a = b := UInt8.le_antisymm (UInt8.not_lt.1 hba) (UInt8.not_lt.1 hab)
      subst heq
      rw [if_neg hab, if_neg hab] at h₁
      by_cases hac : a < c
      · simp [hac]
      · have hca : ¬c < a := fun hca => by simp [hac, hca] at h₂
        rw [if_neg hac, if_neg hca] at h₂ ⊢
        exact ih h₁ h₂

/-- `strcmp` on the contents of two C strings. -/
def strcmp : List UInt8 → List UInt8 → Int
  | [], [] => 0
  | [], _ :: _ => -1
  | _ :: _, [] => 1
  | a :: as, b :: bs => if a < b then -1 else if b < a then 1 else strcmp as bs

theorem strcmp_eq_zero : ∀ {as bs : List UInt8}, strcmp as bs = 0 ↔ as = bs
  | [], [] => by simp [strcmp]
  | [], _ :: _ => by simp [strcmp]
  | _ :: _, [] => by simp [strcmp]
  | a :: as, b :: bs => by
    have ih : strcmp as bs = 0 ↔ as = bs := strcmp_eq_zero
    rw [strcmp]
    split
    · next hlt => simpa using fun heq : a = b => absurd (heq ▸ hlt) (UInt8.lt_irrefl b)
    · split
      · next hlt => simpa using fun heq : a = b => absurd (heq ▸ hlt) (UInt8.lt_irrefl b)
      · next hab hba =>
        have heq : a = b := UInt8.le_antisymm (UInt8.not_lt.1 hba) (UInt8.not_lt.1 hab)
        simp [heq, ih]

/-- What a C string made of these bytes holds: the bytes before the first zero. -/
def cstr (bs : List UInt8) : List UInt8 := bs.takeWhile (· ≠ 0)

theorem zero_not_mem_cstr (bs : List UInt8) : 0 ∉ cstr bs := by
  intro h
  have := List.mem_takeWhile_imp h
  simp at this

theorem cstr_of_zero_not_mem {bs : List UInt8} (h : 0 ∉ bs) : cstr bs = bs := by
  refine List.takeWhile_eq_self_iff.2 fun b hb => ?_
  have hne : b ≠ 0 := fun heq => h (heq ▸ hb)
  simpa using hne

theorem cstr_append {bs : List UInt8} (h : 0 ∉ bs) (rest : List UInt8) :
    cstr (bs ++ rest) = bs ++ cstr rest := by
  apply List.takeWhile_append_of_pos
  intro b hb
  rw [decide_eq_true_eq]
  exact fun heq => h (heq ▸ hb)

/-- What stands behind the first NUL does not count. -/
theorem cstr_append_zero (bs rest : List UInt8) : cstr (bs ++ 0 :: rest) = cstr bs := by
  induction bs with
  | nil => rfl
  | cons b bs ih =>
    by_cases hb : b = 0
    · subst hb
      rfl
    · have hb : decide (b ≠ 0) = true := decide_eq_true hb
      simp only [cstr, List.cons_append, List.takeWhile_cons, hb] at ih ⊢
      exact congrArg (b :: ·) ih

theorem length_cstr_le (bs : List UInt8) : (cstr bs).length ≤ bs.length :=
  (List.takeWhile_sublist _).length_le

/-- Byte strings of one length. -/
abbrev Fixed (n : Nat) := { bytes : List UInt8 // bytes.length = n }

/-- The string that `calloc` hands out. -/
instance (n : Nat) : Inhabited (Fixed n) := ⟨⟨List.replicate n 0, List.length_replicate⟩⟩

theorem totalCmp_memcmp (n : Nat) :
    TotalCmp fun a b : Fixed n => memcmp a.1 b.1 where
  eq_zero {a b} := by
    rw [memcmp_eq_zero (a.2.trans b.2.symm)]
    exact Subtype.ext_iff.symm
  neg_iff := memcmp_neg_iff
  trans := memcmp_trans

/-! ## Numbers -/

/-- The `n` low bytes of `v`, the lowest first. -/
def le : (n : Nat) → (v : Nat) → List UInt8
  | 0, _ => []
  | n + 1, v => UInt8.ofNat (v % 256) :: le n (v / 256)

/-- The number that the bytes stand for, the lowest first. -/
def ofLe : List UInt8 → Nat
  | [] => 0
  | b :: bs => b.toNat + 256 * ofLe bs

@[simp] theorem length_le (n v : Nat) : (le n v).length = n := by
  induction n generalizing v with
  | zero => rfl
  | succ n ih => simp [le, ih]

theorem ofLe_le (n v : Nat) : ofLe (le n v) = v % 256 ^ n := by
  induction n generalizing v with
  | zero => simp [le, ofLe, Nat.mod_one]
  | succ n ih =>
    have hbyte : (UInt8.ofNat (v % 256)).toNat = v % 256 :=
      UInt8.toNat_ofNat_of_lt (Nat.mod_lt v (by omega))
    rw [le, ofLe, hbyte, ih, Nat.pow_succ', Nat.mod_mul]

theorem ofLe_le_of_lt {n v : Nat} (h : v < 256 ^ n) : ofLe (le n v) = v := by
  rw [ofLe_le, Nat.mod_eq_of_lt h]

theorem ofLe_lt : ∀ bs : List UInt8, ofLe bs < 256 ^ bs.length
  | [] => Nat.one_pos
  | b :: bs => by
    have ih := ofLe_lt bs
    have hb := b.toNat_lt
    rw [ofLe, List.length_cons, Nat.pow_succ']
    omega

theorem ofLe_inj : ∀ {as bs : List UInt8}, as.length = bs.length → ofLe as = ofLe bs → as = bs
  | [], [], _, _ => rfl
  | a :: as, b :: bs, hlen, h => by
    have ha := a.toNat_lt
    have hb := b.toNat_lt
    rw [ofLe, ofLe] at h
    have hhead : a = b := UInt8.toNat_inj.1 (by omega)
    have htail : as = bs := ofLe_inj (Nat.succ.inj hlen) (by omega)
    rw [hhead, htail]

/-! ## Pieces -/

/-- `count` pieces of `size` elements. -/
def chunks {α : Type} (size : Nat) : (count : Nat) → List α → List (List α)
  | 0, _ => []
  | n + 1, xs => xs.take size :: chunks size n (xs.drop size)

theorem length_chunks {α : Type} {size : Nat} (count : Nat) :
    ∀ xs : List α, (chunks size count xs).length = count := by
  induction count with
  | zero => exact fun _ => rfl
  | succ n ih => exact fun xs => by rw [chunks, List.length_cons, ih]

theorem chunks_flatten {α : Type} {size : Nat} {ls : List (List α)}
    (h : ∀ l ∈ ls, l.length = size) : chunks size ls.length ls.flatten = ls := by
  induction ls with
  | nil => rfl
  | cons l ls ih =>
    have hl := h l (by simp)
    rw [List.length_cons, List.flatten_cons, chunks, List.take_left' hl, List.drop_left' hl,
      ih fun l' hl' => h l' (List.mem_cons_of_mem _ hl')]

theorem length_flatten_of {α : Type} {size : Nat} {ls : List (List α)}
    (h : ∀ l ∈ ls, l.length = size) : ls.flatten.length = ls.length * size := by
  induction ls with
  | nil => simp
  | cons l ls ih =>
    rw [List.flatten_cons, List.length_append, h l (by simp),
      ih fun l' hl' => h l' (List.mem_cons_of_mem _ hl'), List.length_cons, Nat.succ_mul,
      Nat.add_comm]

theorem length_flatten_map {α β : Type} {size : Nat} {f : β → List α}
    (h : ∀ b, (f b).length = size) (bs : List β) :
    (bs.map f).flatten.length = bs.length * size := by
  have hall : ∀ l ∈ bs.map f, l.length = size := by
    intro l hl
    obtain ⟨b, _, rfl⟩ := List.mem_map.1 hl
    exact h b
  rw [length_flatten_of hall, List.length_map]

theorem chunks_flatten_map {α β : Type} {size : Nat} {f : β → List α}
    (h : ∀ b, (f b).length = size) (bs : List β) :
    chunks size bs.length (bs.map f).flatten = bs.map f := by
  have hall : ∀ l ∈ bs.map f, l.length = size := by
    intro l hl
    obtain ⟨b, _, rfl⟩ := List.mem_map.1 hl
    exact h b
  have hchunks := chunks_flatten hall
  rwa [List.length_map] at hchunks

/-- The first `n` bytes, as a string of that length. -/
def Fixed.ofBytes (n : Nat) (bs : List UInt8) : Fixed n :=
  ⟨(bs ++ List.replicate n 0).take n, by
    rw [List.length_take, List.length_append, List.length_replicate]; omega⟩

theorem Fixed.ofBytes_val {n : Nat} (a : Fixed n) : Fixed.ofBytes n a.1 = a :=
  Subtype.ext (List.take_left' a.2)

/-- `n` bytes from position `pos` on, all of which must be there. -/
def slice (bs : List UInt8) (pos n : Nat) : Checked (List UInt8) :=
  if pos + n ≤ bs.length then .ok ((bs.drop pos).take n) else .error .outOfBounds

theorem slice_parts (pre mid post : List UInt8) :
    slice (pre ++ (mid ++ post)) pre.length mid.length = .ok mid := by
  rw [slice, if_pos (by simp)]
  simp

theorem slice_at {pre mid post : List UInt8} {pos n : Nat} (hpos : pre.length = pos)
    (hn : mid.length = n) : slice (pre ++ (mid ++ post)) pos n = .ok mid := by
  rw [← hpos, ← hn, slice_parts]

theorem slice_front {mid post : List UInt8} {n : Nat} (hn : mid.length = n) :
    slice (mid ++ post) 0 n = .ok mid := by
  have h : slice ([] ++ (mid ++ post)) 0 n = .ok mid := slice_at rfl hn
  rwa [List.nil_append] at h

/-- A piece of a piece. -/
theorem slice_inner {bs A m B : List UInt8} {pos n : Nat}
    (h : slice bs pos n = .ok (A ++ (m ++ B))) :
    slice bs (pos + A.length) m.length = .ok m := by
  unfold slice at h
  split at h
  · next hle =>
    have hcut : (bs.drop pos).take n = A ++ (m ++ B) := by simpa using h
    have hbs : bs = bs.take pos ++ A ++ (m ++ (B ++ (bs.drop pos).drop n)) := by
      have hall : bs.take pos ++ ((bs.drop pos).take n ++ (bs.drop pos).drop n) = bs := by
        rw [List.take_append_drop, List.take_append_drop]
      rw [hcut] at hall
      exact hall.symm.trans (by simp only [List.append_assoc])
    rw [hbs]
    refine slice_at ?_ rfl
    rw [List.length_append, List.length_take]
    omega
  · cases h

/-! ## Files -/

/-- `fwrite` of `data` at position `pos`; a gap before it reads as zeros. -/
def fwriteAt (file : List UInt8) (pos : Nat) (data : List UInt8) : List UInt8 :=
  (file ++ List.replicate (pos - file.length) 0).take pos ++ data
    ++ file.drop (pos + data.length)

/-- `fread` of at most `n` bytes at position `pos` into `buf`, whose other bytes
stay. -/
def freadAt (file : List UInt8) (pos n : Nat) (buf : List UInt8) : List UInt8 :=
  (file.drop pos).take n ++ buf.drop ((file.drop pos).take n).length

/-- The file, filled up with zeros to `n` bytes. -/
def padTo (file : List UInt8) (n : Nat) : List UInt8 :=
  file ++ List.replicate (n - file.length) 0

theorem length_padTo {file : List UInt8} {n : Nat} (h : file.length ≤ n) :
    (padTo file n).length = n := by
  rw [padTo, List.length_append, List.length_replicate]
  omega

theorem padTo_of_length {file : List UInt8} {n : Nat} (h : file.length = n) :
    padTo file n = file := by
  simp [padTo, h]

/-- A copy to the front of the zeros that are left. -/
theorem copySlots_padTo_take {done src : List UInt8} {d n size : Nat} (hd : done.length = d)
    (hn : n ≤ src.length) (hroom : d + n ≤ size) :
    copySlots (padTo done size) d src 0 n = .ok (padTo (done ++ src.take n) size) := by
  have hlen : (src.take n).length = n := by rw [List.length_take, Nat.min_eq_left hn]
  have hcut : size - done.length = n + (size - (d + n)) := by omega
  have hcopy := copySlots_parts done (List.replicate n 0) (List.replicate (size - (d + n)) 0)
    [] (src.take n) (src.drop n) (by rw [List.length_replicate, hlen])
  have hrest : size - (done ++ src.take n).length = size - (d + n) := by
    rw [List.length_append, hd, hlen]
  rw [padTo, padTo, hcut, List.replicate_add, hrest, ← List.append_assoc]
  rw [hd, hlen, List.nil_append, List.take_append_drop] at hcopy
  exact hcopy

theorem copySlots_padTo {done new : List UInt8} {d n size : Nat} (hd : done.length = d)
    (hn : new.length = n) (hroom : d + n ≤ size) :
    copySlots (padTo done size) d new 0 n = .ok (padTo (done ++ new) size) := by
  rw [copySlots_padTo_take hd (Nat.le_of_eq hn.symm) hroom, List.take_of_length_le
    (Nat.le_of_eq hn)]

/-- Zeros in the room that a piece leaves are zeros of the padding. -/
theorem padTo_append_padTo {done piece : List UInt8} {n size : Nat} (hn : piece.length ≤ n)
    (hroom : done.length + n ≤ size) :
    padTo (done ++ padTo piece n) size = padTo (done ++ piece) size := by
  have hlen := length_padTo hn
  have hcut : size - (done ++ piece).length
      = (n - piece.length) + (size - (done ++ padTo piece n).length) := by
    rw [List.length_append, List.length_append, hlen]
    omega
  show done ++ padTo piece n ++ List.replicate (size - (done ++ padTo piece n).length) 0
    = done ++ piece ++ List.replicate (size - (done ++ piece).length) 0
  rw [hcut, List.replicate_add, padTo]
  simp only [List.append_assoc]

/-- A read of a piece that is there in full. -/
theorem freadAt_parts {pre mid post buf : List UInt8} {pos n : Nat} (hpos : pre.length = pos)
    (hn : mid.length = n) (hbuf : buf.length = n) :
    freadAt (pre ++ (mid ++ post)) pos n buf = mid := by
  have htake : ((pre ++ (mid ++ post)).drop pos).take n = mid := by
    rw [List.drop_left' hpos, List.take_left' hn]
  rw [freadAt, htake, List.drop_eq_nil_of_le (by omega), List.append_nil]

/-- A write at or behind the end. -/
theorem fwriteAt_end {file data : List UInt8} {pos : Nat} (h : file.length ≤ pos) :
    fwriteAt file pos data = padTo file pos ++ data := by
  have hlen : (file ++ List.replicate (pos - file.length) 0).length = pos := length_padTo h
  have hdrop : file.drop (pos + data.length) = [] := List.drop_eq_nil_of_le (by omega)
  rw [fwriteAt, hdrop, List.append_nil, List.take_of_length_le (Nat.le_of_eq hlen), padTo]

/-- A write into a gap that an earlier write left. -/
theorem fwriteAt_gap {file data rest : List UInt8} {pos : Nat} (h : file.length ≤ pos) :
    fwriteAt (padTo file (pos + data.length) ++ rest) pos data
      = padTo file pos ++ data ++ rest := by
  have hlen := length_padTo (n := pos + data.length) (Nat.le_add_right_of_le h)
  have hge : pos - (padTo file (pos + data.length) ++ rest).length = 0 := by
    rw [List.length_append, hlen]; omega
  have htake : (padTo file (pos + data.length) ++ rest).take pos = padTo file pos := by
    rw [List.take_append_of_le_length (by rw [hlen]; omega), padTo, padTo, List.take_append,
      List.take_of_length_le h, List.take_replicate]
    congr 2
    omega
  rw [fwriteAt, hge, List.replicate_zero, List.append_nil, htake, List.drop_left' hlen]

end Bytes
