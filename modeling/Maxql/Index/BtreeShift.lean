import Maxql.Index.BtreeRebalance

/-!
# Making room in a child

What `ensure_min_keys` does to a tree in which there is room to shift.
`RoomToShift` reads off the tree which of its branches does its work:
`shifted` is the child it leaves, and `exists_prepared` says that it leaves
that child, in a tree with the same pairs, with an entry to spare.  The other
branches are dealt with where they matter.
-/

namespace Maxql.Index

open Program SortedEntries Multiway

/-! ## The child it leaves -/

section Shift

variable {ι K V : Type}

/-- `c` with an entry, and the child beside it, from its left neighbour `l`. -/
def borrowLeft {h : Nat} (s : K × V) (l c : Tree ι (K × V) h) : Tree ι (K × V) h :=
  ⟨c.label, s :: c.entries, l.children.drop l.entries.length ++ c.children⟩

/-- `c` with an entry, and the child beside it, from its right neighbour `r`. -/
def borrowRight {h : Nat} (s : K × V) (c r : Tree ι (K × V) h) : Tree ι (K × V) h :=
  ⟨c.label, c.entries ++ [s], c.children ++ r.children.take 1⟩

/-- The child, or its left neighbour, has an entry to spare; or its right neighbour has and is
not full; or neither has and they are leaves. -/
def RoomToShift {ι α : Type} (min max h : Nat) (cs₁ : List (Tree ι α h)) (c : Tree ι α h)
    (cs₂ : List (Tree ι α h)) : Prop :=
  min < c.entries.length ∨ spare min cs₁.getLast? = true ∨
    (∃ r ∈ cs₂.head?, min < r.entries.length ∧ r.entries.length < max) ∨
    (spare min cs₂.head? = false ∧ h = 0)

instance {ι α : Type} (min max h : Nat) (cs₁ : List (Tree ι α h)) (c : Tree ι α h)
    (cs₂ : List (Tree ι α h)) : Decidable (RoomToShift min max h cs₁ c cs₂) :=
  inferInstanceAs (Decidable (min < c.entries.length ∨ spare min cs₁.getLast? = true ∨
    (∃ r ∈ cs₂.head?, min < r.entries.length ∧ r.entries.length < max) ∨
    (spare min cs₂.head? = false ∧ h = 0)))

/-- Two neighbours and the entry between them as one node. -/
def joined {h : Nat} (l : Tree ι (K × V) h) (s : K × V) (r : Tree ι (K × V) h) :
    Tree ι (K × V) h :=
  ⟨l.label, l.entries ++ s :: r.entries, l.children ++ r.children⟩

/-- What becomes of the child `c` where there is room to shift: the entries and children
left of it and those right of it decide. -/
def shifted {h : Nat} (min : Nat) (es₁ es₂ : List (K × V)) (cs₁ : List (Tree ι (K × V) h))
    (c : Tree ι (K × V) h) (cs₂ : List (Tree ι (K × V) h)) : Tree ι (K × V) h :=
  if spare min (some c) then c
  else if spare min cs₁.getLast? then
    match es₁.getLast?, cs₁.getLast? with
    | some s, some l => borrowLeft s l c
    | _, _ => c
  else if spare min cs₂.head? then
    match es₂.head?, cs₂.head? with
    | some s, some r => borrowRight s c r
    | _, _ => c
  else
    match es₁.getLast?, cs₁.getLast?, es₂.head?, cs₂.head? with
    | some s, some l, _, _ => joined l s c
    | _, _, some s, some r => joined c s r
    | _, _, _, _ => c

end Shift

/-! ## Making room in a child -/

/-- `ensure_min_keys` has run for the child that the key belongs to: the child
between `as₁` and `as₂` now has an entry to spare. -/
structure Prepared {K : Type} (tree : Btree K) (H H' : Heap (BtreeNode K)) (h : Nat)
    (par : Option Addr) (lo : Nat) (t : AddrTree K (h + 1)) (as₁ as₂ : List (Entry K))
    (ds₁ : List (AddrTree K h)) (d : AddrTree K h) (ds₂ : List (AddrTree K h)) (k : K) :
    Prop where
  subtree : Subtree tree H' (h + 1) par (lo - 1) ⟨t.label, as₁ ++ as₂, ds₁ ++ d :: ds₂⟩
  toList_eq : toList (h + 1) ⟨t.label, as₁ ++ as₂, ds₁ ++ d :: ds₂⟩ = toList (h + 1) t
  shrunk : Shrunk H H' (labels (h + 1) t)
    (labels (h + 1) ⟨t.label, as₁ ++ as₂, ds₁ ++ d :: ds₂⟩)
  left_len : ds₁.length = as₁.length
  right_len : ds₂.length = as₂.length
  below : Below tree.compare as₁ k
  spare : tree.layout.minKeys < d.entries.length

/-- The children of some neighbouring nodes, from left to right. -/
def grandchildren {K : Type} {h : Nat} (cs : List (AddrTree K h)) :
    List (Kid Addr (Entry K) h) :=
  cs.flatMap Node.children

/-- The neighbours `cs` became `ds` with the same children in the same order, and `d` holds
all that `c` held. -/
structure Kept {K : Type} {h : Nat} (cs ds : List (AddrTree K h)) (c d : AddrTree K h) :
    Prop where
  order : (ds.map Node.label).Sublist (cs.map Node.label)
  kids : grandchildren ds = grandchildren cs
  covers : (toList h c).Sublist (toList h d)

section Prepare

variable {K : Type} {tree : Btree K} (hL : tree.layout.Sound) (hc : TotalCmp tree.compare)
  {H : Heap (BtreeNode K)} {h : Nat} {par : Option Addr} {lo : Nat} {a : Addr}
  {es₁ es₂ : List (Entry K)} {cs₁ cs₂ : List (AddrTree K h)} {c : AddrTree K h} {k : K}

/-- The child has an entry to spare as it is. -/
theorem Prepared.of_spare
    (ht : Subtree tree H (h + 1) par lo ⟨a, es₁ ++ es₂, cs₁ ++ c :: cs₂⟩)
    (hcs₁ : cs₁.length = es₁.length) (hcs₂ : cs₂.length = es₂.length)
    (hk₁ : Below tree.compare es₁ k) (hspare : tree.layout.minKeys < c.entries.length) :
    Runs (ensureMinKeys tree a es₁.length) H () H ∧
      Prepared tree H H h par lo ⟨a, es₁ ++ es₂, cs₁ ++ c :: cs₂⟩ es₁ es₂ cs₁ c cs₂ k := by
  refine ⟨hcs₁ ▸ ht.ensure_spare hspare, ⟨ht.rep, ht.nodup, ht.fits.of_le ?_, ht.asc⟩, rfl,
    Shrunk.refl H _, hcs₁, hcs₂, hk₁, hspare⟩
  exact Nat.le_trans (Nat.sub_le lo 1) ht.fits.lo_le

include hL hc

/-- A child without a spare entry gets one from a left neighbour that has. -/
theorem Prepared.of_left {l : AddrTree K h} {s : Entry K} {cs₁ : List (AddrTree K h)}
    (ht : Subtree tree H (h + 1) par lo
      ⟨a, es₁ ++ [s] ++ es₂, cs₁ ++ [l] ++ c :: cs₂⟩)
    (hcs₁ : cs₁.length = es₁.length) (hcs₂ : cs₂.length = es₂.length)
    (hk₁ : Below tree.compare (es₁ ++ [s]) k)
    (hnot : ¬tree.layout.minKeys < c.entries.length)
    (hl : tree.layout.minKeys < l.entries.length) :
    ∃ H' x l', Runs (ensureMinKeys tree a (es₁.length + 1)) H () H' ∧
      Prepared tree H H' h par lo ⟨a, es₁ ++ [s] ++ es₂, cs₁ ++ [l] ++ c :: cs₂⟩
        (es₁ ++ [x]) es₂ (cs₁ ++ [l']) (borrowLeft s l c) cs₂ k ∧
      Kept (cs₁ ++ [l] ++ c :: cs₂) (cs₁ ++ [l'] ++ borrowLeft s l c :: cs₂) c
        (borrowLeft s l c) := by
  have hmin := hL.minKeys_eq
  have hthree := hL.three_le
  have hmem : l ∈ cs₁ ++ [l] ++ c :: cs₂ := by simp
  have hcmem : c ∈ cs₁ ++ [l] ++ c :: cs₂ := by simp
  have hlfit := (fits_iff.1 (ht.fits.child hmem)).2.2
  have hcmin := (ht.fits.child hcmem).lo_le
  have hclen := (childrenFit_iff.1 (fits_iff.1 (ht.fits.child hcmem)).2.2).1
  have hne : l.entries ≠ [] := List.length_pos_iff.1 (by omega)
  obtain ⟨le, x, lc, m, heq, hlc, hm⟩ := exists_last hlfit hne
  have hdrop : borrowLeft s l c = ⟨c.label, s :: c.entries, m ++ c.children⟩ := by
    rw [heq]
    have hcut : lc.length = kidCount h (le ++ [x]).length := by simpa using hlc
    unfold borrowLeft
    cases h with
    | zero =>
      have hlc0 : lc = [] := List.eq_nil_of_length_eq_zero hlc
      have hm0 : m = [] := List.eq_nil_of_length_eq_zero hm
      simp [hlc0, hm0]
    | succ h =>
      have hdrop : (lc ++ m).drop (le ++ [x]).length = m := List.drop_left' hcut
      simp only [hdrop]
  have htwo : cs₁ ++ [l] ++ c :: cs₂ = cs₁ ++ [l, c] ++ cs₂ := by simp
  have hent : es₁ ++ [s] ++ es₂ = es₁ ++ s :: es₂ := by simp
  have hllen : l.entries.length = le.length + 1 := by rw [heq]; simp
  have ht' := ht
  rw [htwo, hent, heq] at ht'
  obtain ⟨H', hrun, hsub, hread, hshrunk⟩ := ht'.stealLeft (d := c.label) hL hcs₁ (by omega)
    (by omega) hlc hm
  refine ⟨H', x, ⟨l.label, le, lc⟩, ?_, ?_, ?_, ?_, ?_⟩
  · have hrun' : Runs (btreeStealLeft a ((cs₁ ++ [l]).length - 1) c.label l.label) H () H' := by
      simpa [hcs₁] using hrun
    have hens : Runs (ensureMinKeys tree a (cs₁ ++ [l]).length) H () H' :=
      (ht.run_ensure_left (l := l) hnot (by simp) (by simpa [Index.spare] using hl)).trans hrun'
    simpa [hcs₁] using hens
  · rw [hdrop]
    have htarget : cs₁ ++ [⟨l.label, le, lc⟩] ++ ⟨c.label, s :: c.entries, m ++ c.children⟩ :: cs₂
        = cs₁ ++ [⟨l.label, le, lc⟩, ⟨c.label, s :: c.entries, m ++ c.children⟩] ++ cs₂ := by
      simp
    have hents : es₁ ++ [x] ++ es₂ = es₁ ++ x :: es₂ := by simp
    refine ⟨?_, ?_, ?_, by simpa using hcs₁, hcs₂, ?_, by simp; omega⟩
    · rw [htarget, hents]
      exact ⟨hsub.rep, hsub.nodup,
        hsub.fits.of_le (Nat.le_trans (Nat.sub_le lo 1) hsub.fits.lo_le), hsub.asc⟩
    · rw [htarget, hents, hread, htwo, hent, ← heq]
    · rw [htarget, hents, htwo, hent, heq]
      exact hshrunk
    · have hasc := ht'.asc
      have hlist : cs₁ ++ [⟨l.label, le ++ [x], lc ++ m⟩, c] ++ cs₂
          = cs₁ ++ ⟨l.label, le ++ [x], lc ++ m⟩ :: c :: cs₂ := by simp
      rw [hlist] at hasc
      obtain ⟨hbelow, _⟩ := neighbour_bounds hcs₁.symm hasc
      have hxs : tree.compare x.1 s.1 < 0 := by
        refine hbelow x ((entries_sublist_toList (heq ▸ hlfit)).subset ?_)
        simp
      obtain ⟨hes₁, hsk⟩ := below_append.1 hk₁
      exact below_append.2 ⟨hes₁, below_cons.2 ⟨hc.trans hxs (below_cons.1 hsk).1, below_nil⟩⟩
  · rw [hdrop]
    simp
  · rw [hdrop]
    unfold grandchildren
    rw [heq]
    simp
  · rw [hdrop]
    exact toList_sublist_cons c.label s hm hclen

/-- A child without a spare entry gets one from a right neighbour that has, if that
neighbour is not full. -/
theorem Prepared.of_right {r : AddrTree K h} {s : Entry K}
    (ht : Subtree tree H (h + 1) par lo ⟨a, es₁ ++ s :: es₂, cs₁ ++ c :: r :: cs₂⟩)
    (hcs₁ : cs₁.length = es₁.length) (hcs₂ : cs₂.length = es₂.length)
    (hk₁ : Below tree.compare es₁ k) (hk₂ : tree.compare k s.1 ≤ 0)
    (hnot : ¬tree.layout.minKeys < c.entries.length)
    (hleft : Index.spare tree.layout.minKeys cs₁.getLast? = false)
    (hr : tree.layout.minKeys < r.entries.length)
    (hfree : r.entries.length < tree.layout.maxKeys) :
    ∃ H' x r', Runs (ensureMinKeys tree a es₁.length) H () H' ∧
      Prepared tree H H' h par lo ⟨a, es₁ ++ s :: es₂, cs₁ ++ c :: r :: cs₂⟩
        es₁ (x :: es₂) cs₁ (borrowRight s c r) (r' :: cs₂) k ∧
      tree.compare k x.1 < 0 ∧
      Kept (cs₁ ++ c :: r :: cs₂) (cs₁ ++ borrowRight s c r :: r' :: cs₂) c
        (borrowRight s c r) := by
  have hmin := hL.minKeys_eq
  have hthree := hL.three_le
  have hmem : r ∈ cs₁ ++ c :: r :: cs₂ := by simp
  have hcmem : c ∈ cs₁ ++ c :: r :: cs₂ := by simp
  have hrfit := (fits_iff.1 (ht.fits.child hmem)).2.2
  have hcmin := (ht.fits.child hcmem).lo_le
  have hclen := (childrenFit_iff.1 (fits_iff.1 (ht.fits.child hcmem)).2.2).1
  have hne : r.entries ≠ [] := List.length_pos_iff.1 (by omega)
  obtain ⟨x, re, m, rc, heq, hm, hrc⟩ := exists_first hrfit hne
  have htake : borrowRight s c r = ⟨c.label, c.entries ++ [s], c.children ++ m⟩ := by
    rw [heq]
    unfold borrowRight
    cases h with
    | zero =>
      have hm0 : m = [] := List.eq_nil_of_length_eq_zero hm
      have hrc0 : rc = [] := List.eq_nil_of_length_eq_zero hrc
      simp [hm0, hrc0]
    | succ h =>
      have htake : (m ++ rc).take 1 = m := List.take_left' hm
      simp only [htake]
  have hrlen : r.entries.length = re.length + 1 := by rw [heq]; simp
  have htwo : cs₁ ++ c :: r :: cs₂ = cs₁ ++ [c, r] ++ cs₂ := by simp
  have ht' := ht
  rw [htwo, heq] at ht'
  obtain ⟨H', hrun, hsub, hread, hshrunk⟩ := ht'.stealRight (b := c.label) hL hcs₁ (by omega)
    (by omega) (by rw [List.length_cons]; omega) hm hrc
  have hsx : tree.compare s.1 x.1 < 0 := by
    refine (neighbour_bounds hcs₁.symm ht.asc).2 x ((entries_sublist_toList hrfit).subset ?_)
    rw [heq]
    simp
  have hkx : tree.compare k x.1 < 0 := by
    by_cases hks : tree.compare k s.1 = 0
    · exact hc.eq_zero.1 hks ▸ hsx
    · exact hc.trans (by omega) hsx
  refine ⟨H', x, ⟨r.label, re, rc⟩, ?_, ?_, hkx, ?_, ?_, ?_⟩
  · rw [← hcs₁] at hrun ⊢
    exact (ht.run_ensure_right (r := r) hnot hleft (by simp)
      (by simpa [Index.spare] using hr)).trans hrun
  · rw [htake]
    have htarget : cs₁ ++ ⟨c.label, c.entries ++ [s], c.children ++ m⟩ :: ⟨r.label, re, rc⟩ :: cs₂
        = cs₁ ++ [⟨c.label, c.entries ++ [s], c.children ++ m⟩, ⟨r.label, re, rc⟩] ++ cs₂ := by
      simp
    refine ⟨?_, ?_, ?_, hcs₁, by simp [hcs₂], hk₁, by simp; omega⟩
    · rw [htarget]
      exact ⟨hsub.rep, hsub.nodup,
        hsub.fits.of_le (Nat.le_trans (Nat.sub_le lo 1) hsub.fits.lo_le), hsub.asc⟩
    · rw [htarget, hread, htwo, ← heq]
    · rw [htarget, htwo, heq]
      exact hshrunk
  · rw [htake]
    simp
  · rw [htake]
    unfold grandchildren
    rw [heq]
    simp
  · rw [htake]
    exact toList_sublist_concat c.label s hclen hm

omit hL hc in
theorem kids_leaf : ∀ kids : List (Kid Addr (Entry K) 0), kids = []
  | [] => rfl
  | kid :: _ => kid.elim

omit hL hc in
theorem grandchildren_leaves (cs ds : List (AddrTree K 0)) :
    grandchildren ds = grandchildren cs :=
  (kids_leaf _).trans (kids_leaf _).symm

omit hL hc in
theorem joined_leaf (l : AddrTree K 0) (s : Entry K) (r : AddrTree K 0) :
    joined l s r = ⟨l.label, l.entries ++ s :: r.entries, l.children⟩ := by
  unfold joined
  rw [kids_leaf r.children, List.append_nil]

omit hc in
/-- A leaf without a spare entry goes into its left neighbour. -/
theorem Prepared.of_mergeLeft {cs₁ cs₂ : List (AddrTree K 0)} {l c : AddrTree K 0} {s : Entry K}
    (ht : Subtree tree H 1 par lo ⟨a, es₁ ++ [s] ++ es₂, cs₁ ++ [l] ++ c :: cs₂⟩)
    (hcs₁ : cs₁.length = es₁.length) (hcs₂ : cs₂.length = es₂.length)
    (hk₁ : Below tree.compare (es₁ ++ [s]) k)
    (hnot : ¬tree.layout.minKeys < c.entries.length)
    (hleft : ¬tree.layout.minKeys < l.entries.length)
    (hright : Index.spare tree.layout.minKeys cs₂.head? = false) :
    ∃ H', Runs (ensureMinKeys tree a (es₁.length + 1)) H () H' ∧
      Prepared tree H H' 0 par lo ⟨a, es₁ ++ [s] ++ es₂, cs₁ ++ [l] ++ c :: cs₂⟩
        es₁ es₂ cs₁ (joined l s c) cs₂ k ∧
      Kept (cs₁ ++ [l] ++ c :: cs₂) (cs₁ ++ joined l s c :: cs₂) c (joined l s c) := by
  rw [joined_leaf]
  have hmin := hL.minKeys_eq
  have hthree := hL.three_le
  have hlmin := (ht.fits.child (c := l) (by simp)).lo_le
  have hcmin := (ht.fits.child (c := c) (by simp)).lo_le
  have htwo : cs₁ ++ [l] ++ c :: cs₂ = cs₁ ++ [l, c] ++ cs₂ := by simp
  have hent : es₁ ++ [s] ++ es₂ = es₁ ++ s :: es₂ := by simp
  have ht' := ht
  rw [htwo, hent] at ht'
  obtain ⟨H', hrun, hsub, hread, hshrunk⟩ := ht'.mergeLeaves (b := l.label) (d := c.label)
    hL hcs₁ hcs₂ (by omega)
  refine ⟨H', ?_, ?_, ?_,
    grandchildren_leaves _ _, (List.sublist_cons_self _ _).trans (List.sublist_append_right _ _)⟩
  · have hindex : (if (cs₁ ++ [l]).length > 0 then (cs₁ ++ [l]).length - 1
        else (cs₁ ++ [l]).length) = es₁.length := by simp [hcs₁]
    have hmerge := ht.run_ensure_merge hnot (by simpa [Index.spare] using hleft) hright
    rw [hindex] at hmerge
    have hens : Runs (ensureMinKeys tree a (cs₁ ++ [l]).length) H () H' := hmerge.trans hrun
    simpa [hcs₁] using hens
  · have htarget : cs₁ ++ (⟨l.label, l.entries ++ s :: c.entries, l.children⟩ : AddrTree K 0) :: cs₂
        = cs₁ ++ [⟨l.label, l.entries ++ s :: c.entries, l.children⟩] ++ cs₂ := by simp
    refine ⟨?_, ?_, ?_, hcs₁, hcs₂, (below_append.1 hk₁).1, ?_⟩
    · rw [htarget]
      exact hsub
    · rw [htarget, hread, htwo, hent]
    · rw [htarget, htwo, hent]
      exact hshrunk
    · simp only [List.length_append, List.length_cons]
      omega
  · simp only [List.map_append, List.map_cons, List.map_nil, List.append_assoc]
    exact ((List.sublist_cons_self _ _).cons_cons _).append_left _

omit hc in
/-- The first leaf, without a spare entry, takes in its right neighbour. -/
theorem Prepared.of_mergeRight {cs₂ : List (AddrTree K 0)} {c r : AddrTree K 0} {s : Entry K}
    (ht : Subtree tree H 1 par lo ⟨a, s :: es₂, c :: r :: cs₂⟩)
    (hcs₂ : cs₂.length = es₂.length) (hnot : ¬tree.layout.minKeys < c.entries.length)
    (hright : ¬tree.layout.minKeys < r.entries.length) :
    ∃ H', Runs (ensureMinKeys tree a 0) H () H' ∧
      Prepared tree H H' 0 par lo ⟨a, s :: es₂, c :: r :: cs₂⟩ [] es₂ [] (joined c s r) cs₂ k ∧
      Kept (c :: r :: cs₂) (joined c s r :: cs₂) c (joined c s r) := by
  rw [joined_leaf]
  have hmin := hL.minKeys_eq
  have hthree := hL.three_le
  have hcmin := (ht.fits.child (c := c) (by simp)).lo_le
  have hrmin := (ht.fits.child (c := r) (by simp)).lo_le
  have ht' : Subtree tree H 1 par lo
      ⟨a, [] ++ s :: es₂, [] ++ [⟨c.label, c.entries, c.children⟩,
        ⟨r.label, r.entries, r.children⟩] ++ cs₂⟩ := by simpa using ht
  obtain ⟨H', hrun, hsub, hread, hshrunk⟩ := ht'.mergeLeaves hL rfl hcs₂ (by omega)
  refine ⟨H', ?_,
    ⟨by simpa using hsub, by simpa using hread, by simpa using hshrunk, rfl, hcs₂, below_nil, ?_⟩,
    ?_, grandchildren_leaves _ _, List.sublist_append_left _ _⟩
  · have hfirst : Subtree tree H 1 par lo ⟨a, s :: es₂, [] ++ c :: r :: cs₂⟩ := ht
    exact (hfirst.run_ensure_merge hnot rfl (by simpa [Index.spare] using hright)).trans hrun
  · simp only [List.length_append, List.length_cons]
    omega
  · simp only [List.map_cons]
    exact (List.sublist_cons_self _ _).cons_cons _

/-- With room to shift, the child that the key belongs to gets an entry to spare.  What is
right of it then was there before, or is greater than the key. -/
theorem exists_prepared
    (ht : Subtree tree H (h + 1) par lo ⟨a, es₁ ++ es₂, cs₁ ++ c :: cs₂⟩)
    (hpos : 0 < (es₁ ++ es₂).length) (hcs₁ : cs₁.length = es₁.length)
    (hcs₂ : cs₂.length = es₂.length) (hk₁ : Below tree.compare es₁ k)
    (hk₂ : ∀ e ∈ es₂, tree.compare k e.1 ≤ 0)
    (hroom : RoomToShift tree.layout.minKeys tree.layout.maxKeys h cs₁ c cs₂) :
    ∃ H' as₁ as₂ ds₁ ds₂, Runs (ensureMinKeys tree a es₁.length) H () H' ∧
      Prepared tree H H' h par lo ⟨a, es₁ ++ es₂, cs₁ ++ c :: cs₂⟩ as₁ as₂ ds₁
        (shifted tree.layout.minKeys es₁ es₂ cs₁ c cs₂) ds₂ k ∧
      Kept (cs₁ ++ c :: cs₂) (ds₁ ++ shifted tree.layout.minKeys es₁ es₂ cs₁ c cs₂ :: ds₂) c
        (shifted tree.layout.minKeys es₁ es₂ cs₁ c cs₂) ∧
      as₁.length ≤ es₁.length ∧ ∀ e ∈ as₂, e ∈ es₂ ∨ tree.compare k e.1 < 0 := by
  have hold : ∀ e ∈ es₂, e ∈ es₂ ∨ tree.compare k e.1 < 0 := fun e he => Or.inl he
  by_cases hspare : tree.layout.minKeys < c.entries.length
  · have hc' : Index.spare tree.layout.minKeys (some c) = true := by
      simpa [Index.spare] using hspare
    obtain ⟨hrun, hprep⟩ := Prepared.of_spare ht hcs₁ hcs₂ hk₁ hspare
    unfold shifted
    rw [if_pos hc']
    exact ⟨H, es₁, es₂, cs₁, cs₂, hrun, hprep, ⟨List.Sublist.refl _, rfl, List.Sublist.refl _⟩,
      Nat.le_refl _, hold⟩
  have hc' : ¬Index.spare tree.layout.minKeys (some c) = true := by simpa [Index.spare] using hspare
  unfold shifted
  rw [if_neg hc']
  by_cases hleft : Index.spare tree.layout.minKeys cs₁.getLast? = true
  · -- the left neighbour gives an entry
    rw [if_pos hleft]
    rcases List.eq_nil_or_concat cs₁ with rfl | ⟨cs, l, rfl⟩
    · simp [Index.spare] at hleft
    rcases List.eq_nil_or_concat es₁ with rfl | ⟨es, s, rfl⟩
    · simp at hcs₁
    simp only [List.concat_eq_append] at *
    simp only [List.getLast?_append, List.getLast?_singleton, Option.some_or] at hleft ⊢
    obtain ⟨H', x, l', hrun, hprep, hkept⟩ := Prepared.of_left hL hc ht (by simpa using hcs₁) hcs₂
      hk₁ hspare (by simpa [Index.spare] using hleft)
    exact ⟨H', _, _, _, _, by simpa using hrun, hprep, hkept, by simp, hold⟩
  rw [if_neg hleft]
  have hleft' : Index.spare tree.layout.minKeys cs₁.getLast? = false := by simpa using hleft
  rcases hroom with hroom | hroom | ⟨r, hr, hrspare, hfree⟩ | ⟨hright, rfl⟩
  · exact absurd hroom hspare
  · exact absurd hroom hleft
  · -- the right neighbour gives an entry
    cases cs₂ with
    | nil => cases hr
    | cons r' cs₂ =>
      cases es₂ with
      | nil => simp at hcs₂
      | cons s es₂ =>
        obtain rfl : r' = r := by simpa using hr
        rw [if_pos (by simpa [Index.spare] using hrspare)]
        obtain ⟨H', x, r'', hrun, hprep, hkx, hkept⟩ := Prepared.of_right hL hc ht hcs₁
          (by simpa using hcs₂) hk₁ (hk₂ s List.mem_cons_self) hspare hleft' hrspare hfree
        refine ⟨H', _, _, _, _, hrun, hprep, hkept, Nat.le_refl _, fun e he => ?_⟩
        rcases List.mem_cons.1 he with rfl | he
        · exact Or.inr hkx
        · exact Or.inl (List.mem_cons_of_mem _ he)
  · -- two leaves become one
    rw [if_neg (by simp [hright])]
    rcases List.eq_nil_or_concat cs₁ with rfl | ⟨cs, l, rfl⟩
    · have hes₁ : es₁ = [] := List.eq_nil_of_length_eq_zero (by simpa using hcs₁.symm)
      subst hes₁
      cases es₂ with
      | nil => simp at hpos
      | cons s es₂ =>
        cases cs₂ with
        | nil => simp at hcs₂
        | cons r cs₂ =>
          obtain ⟨H', hrun, hprep, hkept⟩ := Prepared.of_mergeRight (k := k) hL ht
            (by simpa using hcs₂) hspare (by simpa [Index.spare] using hright)
          exact ⟨H', _, _, _, _, hrun, hprep, hkept, Nat.le_refl _,
            fun e he => Or.inl (List.mem_cons_of_mem _ he)⟩
    · rcases List.eq_nil_or_concat es₁ with rfl | ⟨es, s, rfl⟩
      · simp at hcs₁
      simp only [List.concat_eq_append] at *
      simp only [List.getLast?_append, List.getLast?_singleton, Option.some_or] at hleft' ⊢
      obtain ⟨H', hrun, hprep, hkept⟩ := Prepared.of_mergeLeft hL ht (by simpa using hcs₁) hcs₂
        hk₁ hspare (by simpa [Index.spare] using hleft') hright
      exact ⟨H', _, _, _, _, by simpa using hrun, hprep, hkept, by simp, hold⟩

end Prepare

end Maxql.Index
