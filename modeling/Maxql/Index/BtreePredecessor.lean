import Maxql.Index.BtreeDeleteTree
import Maxql.Index.BtreeEnsure

/-!
# The key that replaces a deleted one

A key of an inner node gives way to its predecessor, the greatest key below the
child to its left.  `delete_recursive` takes the last entry of that child, which
is its greatest one only when it is a leaf: `TakesGreatest` holds just above the
leaves and nowhere else.
-/

namespace Maxql.Index

open Program SortedEntries Multiway Bytes

variable {K : Type}

/-! ## The greatest entry below a node -/

section Greatest

variable {cmp : K → K → Int} {h min max lo : Nat}

/-- In an inner node, it is not the last one of the node itself. -/
theorem last_entry_lt_greatest {c : AddrTree K (h + 1)} {de : List (Entry K)} {x y : Entry K}
    (hfit : Fits min max (h + 1) lo c) (hmin : 0 < min)
    (hasc : Ascending cmp (toList (h + 1) c)) (hx : c.entries = de ++ [x])
    (hy : (toList (h + 1) c).getLast? = some y) : cmp x.1 y.1 < 0 := by
  obtain ⟨b, es, cs⟩ := c
  obtain rfl : es = de ++ [x] := hx
  have hlen : cs.length = (de ++ [x]).length + 1 := hfit.children_length
  have hne : cs ≠ [] := List.length_pos_iff.1 (by omega)
  obtain ⟨cs, m, rfl⟩ : ∃ ds m, cs = ds ++ [m] := ⟨_, _, (List.dropLast_append_getLast hne).symm⟩
  have hsplit : toList (h + 1) ⟨b, de ++ [x], cs ++ [m]⟩
      = toList (h + 1) ⟨b, de, cs⟩ ++ x :: toList (h + 1) ⟨b, [], [m]⟩ :=
    toList_split b b de [] cs [m] x (by simpa using hlen) rfl
  have hlast : toList (h + 1) (⟨b, [], [m]⟩ : AddrTree K (h + 1)) = toList h m := by
    simp [toList, weave]
  rw [hsplit, hlast] at hasc hy
  -- the last child holds an entry
  have hmfit := hfit.child (c := m) (by simp)
  have hpos : 0 < m.entries.length := Nat.lt_of_lt_of_le hmin hmfit.lo_le
  obtain ⟨e, _, hes⟩ := List.exists_cons_of_length_pos hpos
  have he : e ∈ toList h m := by
    refine (entries_sublist_toList (fits_iff.1 hmfit).2.2).subset ?_
    simp [hes]
  have hm : toList h m ≠ [] := List.ne_nil_of_mem he
  rw [List.getLast?_append_of_ne_nil _ (by simp), List.getLast?_cons_of_ne_nil hm] at hy
  exact hasc.split.2 y (List.mem_of_getLast? hy)

end Greatest

/-! ## The replacement -/

/-- The deletion of `k`, which stands right of the child `c` in the node `a`, puts the greatest
pair below `c` in its place and takes that pair out of `c`. -/
def TakesGreatest (tree : Btree K) (H : Heap (BtreeNode K)) (h : Nat) (par : Option Addr)
    (a : Addr) (es₁ es₂ : List (Entry K)) (cs₁ : List (AddrTree K h)) (c : AddrTree K h)
    (cs₂ : List (AddrTree K h)) (k : K) (steps : Nat) : Prop :=
  ∃ y H₁ H' c', (toList h c).getLast? = some y ∧
    Runs (replaceKey tree a k es₁.length) H (c.label, y.1) H₁ ∧
    RootRep tree.layout H₁ (h + 1) par ⟨a, es₁ ++ y :: es₂, cs₁ ++ c :: cs₂⟩ ∧
    Runs (deleteRecursive tree steps c.label y.1) H₁ () H' ∧
    Runs (deleteRecursive tree (steps + 1) a k) H () H' ∧
    Rep tree.layout H' (h + 1) par ⟨a, es₁ ++ y :: es₂, cs₁ ++ c' :: cs₂⟩ ∧
    toList h c' = (toList h c).dropLast ∧ Below tree.compare (toList h c') y.1

/-- With an entry to spare in the child, this happens exactly above leaves. -/
theorem takesGreatest_iff {nodeSize keySize : Nat} {tree : Btree K}
    (hmax : 3 ≤ (btreeLayoutCreate nodeSize keySize).maxKeys)
    (hlayout : tree.layout = btreeLayoutCreate nodeSize keySize) (hc : TotalCmp tree.compare)
    {H : Heap (BtreeNode K)} {h : Nat} {par : Option Addr} {lo : Nat} {a : Addr} {k : K}
    {v : FileOffset} {es₁ es₂ : List (Entry K)} {cs₁ cs₂ : List (AddrTree K h)}
    {c : AddrTree K h}
    (ht : Subtree tree H (h + 1) par lo ⟨a, es₁ ++ (k, v) :: es₂, cs₁ ++ c :: cs₂⟩)
    (hcs₁ : cs₁.length = es₁.length) (hspare : tree.layout.minKeys < c.entries.length)
    {steps : Nat} (hsteps : h < steps) :
    TakesGreatest tree H h par a es₁ es₂ cs₁ c cs₂ k steps ↔ h = 0 := by
  have hL : tree.layout.Sound := hlayout ▸ sound_btreeLayoutCreate hmax
  have hmin := hL.minKeys_eq
  have hthree := hL.three_le
  have hens : Runs (ensureMinKeys tree a es₁.length) H () H := hcs₁ ▸ ht.ensure_spare hspare
  have hfit := (fits_iff.1 ht.fits).2.2
  have hk₁ := (ht.asc.sublist (entries_sublist_toList hfit)).split.1
  have hcs₂ : cs₂.length = ((k, v) :: es₂).length := by
    have hlen := ht.fits.children_length
    simp only [List.length_append, List.length_cons] at hlen ⊢
    omega
  have hcasc : Ascending tree.compare (toList h c) := by
    have hasc := ht.asc
    rw [toList_focus a c hcs₁.symm] at hasc
    exact (ascending_append.1 (ascending_append.1 hasc).1).2.1
  constructor
  · rintro ⟨y, H₁, H', c', hy, hrun, _⟩
    cases h with
    | zero => rfl
    | succ h =>
      have hne : c.entries ≠ [] := List.length_pos_iff.1 (Nat.zero_lt_of_lt hspare)
      obtain ⟨de, x, hx⟩ : ∃ de x, c.entries = de ++ [x] :=
        ⟨_, _, (List.dropLast_append_getLast hne).symm⟩
      obtain ⟨n, hrun', _⟩ := runs_replaceKey hL hc hens ht hcs₁ hk₁ hx
      have hxy := (hrun'.unique hrun).1
      rw [Prod.mk.injEq] at hxy
      have hlt := last_entry_lt_greatest (ht.fits.child (c := c) (by simp)) (by omega) hcasc hx hy
      exact absurd hxy.2 (hc.ne_of_lt hlt)
  · rintro rfl
    obtain ⟨y, H₁, H₂, d', hlist, hrun₁, hroot, hrun₂, hsub, _⟩ := runs_replace_leaf hL hc hens
      ht hcs₁ hcs₂ hk₁ hspare hsteps
    obtain ⟨n, hget, hn⟩ := ht.rep.root
    have hpos := runs_nodeKeyPosition_hit hc hget hn hk₁
    refine ⟨y, H₁, H₂, d', ?_, hrun₁, hroot, hrun₂, ?_, hsub.rep, ?_, ?_⟩
    · rw [hlist, List.getLast?_append_of_ne_nil _ (by simp)]
      rfl
    · exact (deleteRecursive_hit hpos hget hn.leaf_eq).2 ⟨_, _, hrun₁, hrun₂⟩
    · rw [hlist, List.dropLast_concat]
    · rw [hlist] at hcasc
      exact hcasc.split.1

/-! ## Ten keys on three levels -/

def tenKeysHeap : Heap (BtreeNode (Fixed 1000)) :=
  let node := filledNode shortKeyTree.layout
  ⟨[some (node none 0 [shortEntry 7] [1, 2]),
    some (node (some 0) 0 [shortEntry 3, shortEntry 5] [3, 4, 5]),
    some (node (some 0) 0 [shortEntry 9] [6, 7]),
    some (node (some 1) btreeNodeLeaf [shortEntry 1, shortEntry 2] []),
    some (node (some 1) btreeNodeLeaf [shortEntry 4] []),
    some (node (some 1) btreeNodeLeaf [shortEntry 6] []),
    some (node (some 2) btreeNodeLeaf [shortEntry 8] []),
    some (node (some 2) btreeNodeLeaf [shortEntry 10] [])]⟩

/-- What lies left of the key 7. -/
def belowSeven : AddrTree (Fixed 1000) 1 :=
  ⟨1, [] ++ shortEntry 3 :: [shortEntry 5],
    [] ++ ⟨3, [shortEntry 1, shortEntry 2], []⟩ ::
      [⟨4, [shortEntry 4], []⟩, ⟨5, [shortEntry 6], []⟩]⟩

def aboveSeven : AddrTree (Fixed 1000) 1 :=
  ⟨2, [shortEntry 9], [⟨6, [shortEntry 8], []⟩, ⟨7, [shortEntry 10], []⟩]⟩

theorem tenKeys_rep : Rep shortKeyTree.layout tenKeysHeap 2 none
    ⟨0, [] ++ shortEntry 7 :: [], [] ++ belowSeven :: [aboveSeven]⟩ := by
  refine ⟨⟨_, rfl, shortNode_rep _ _ (by simp) (by simp)⟩, ?_⟩
  simp only [List.nil_append, List.forall_mem_cons, List.not_mem_nil, false_imp_iff, implies_true,
    and_true]
  refine ⟨⟨⟨_, rfl, shortNode_rep _ _ (by simp) (by simp)⟩, ?_⟩,
    ⟨⟨_, rfl, shortNode_rep _ _ (by simp) (by simp)⟩, ?_⟩⟩
  · simp only [belowSeven, List.nil_append, List.forall_mem_cons, List.not_mem_nil, false_imp_iff,
      implies_true, and_true]
    exact ⟨shortLeaf_rep (by simp) rfl, shortLeaf_rep (by simp) rfl, shortLeaf_rep (by simp) rfl⟩
  · simp only [aboveSeven, List.forall_mem_cons, List.not_mem_nil, false_imp_iff, implies_true,
      and_true]
    exact ⟨shortLeaf_rep (by simp) rfl, shortLeaf_rep (by simp) rfl⟩

theorem tenKeys_subtree : Subtree shortKeyTree tenKeysHeap 2 none 1
    ⟨0, [] ++ shortEntry 7 :: [], [] ++ belowSeven :: [aboveSeven]⟩ := by
  obtain ⟨hmax, _, hmin⟩ := shortKey_layout
  refine ⟨tenKeys_rep, by decide, ?_, ?_⟩
  · rw [hmax, hmin]
    simp [Fits, belowSeven, aboveSeven]
  · have hlist : toList 2 ⟨0, [] ++ shortEntry 7 :: [], [] ++ belowSeven :: [aboveSeven]⟩
        = [1, 2, 3, 4, 5, 6, 7, 8, 9, 10].map shortEntry := rfl
    rw [hlist]
    exact ascending_shortEntries (by decide)

/-- The key 3 stands just above the leaves and gives way to the key 2. -/
theorem takesGreatest_iff_three :
    TakesGreatest shortKeyTree tenKeysHeap 0 (some 0) 1 [] [shortEntry 5] []
      ⟨3, [shortEntry 1, shortEntry 2], []⟩ [⟨4, [shortEntry 4], []⟩, ⟨5, [shortEntry 6], []⟩]
      (shortKey 3) 7 := by
  have hasc : Ascending shortKeyTree.compare (toList 1 belowSeven) := by
    refine tenKeys_subtree.asc.sublist ?_
    exact List.sublist_append_left ([1, 2, 3, 4, 5, 6].map shortEntry)
      ([7, 8, 9, 10].map shortEntry)
  have ht : Subtree shortKeyTree tenKeysHeap 1 (some 0) 1 belowSeven := tenKeys_subtree.child hasc
  have hmax : 3 ≤ (btreeLayoutCreate 4096 1000).maxKeys := by decide
  have hlayout : shortKeyTree.layout = btreeLayoutCreate 4096 1000 := rfl
  have hc : TotalCmp shortKeyTree.compare := totalCmp_memcmp 1000
  exact (takesGreatest_iff hmax hlayout hc ht rfl (by decide) (by decide)).2 rfl

/-- The key 7 stands in the root and gives way to the key 5, which is smaller than the key 6
below it. -/
theorem tenKeys_notGreatest :
    Subtree shortKeyTree tenKeysHeap 2 none 1
      ⟨0, [] ++ shortEntry 7 :: [], [] ++ belowSeven :: [aboveSeven]⟩ ∧
    (toList 1 belowSeven).getLast? = some (shortEntry 6) ∧
    ((replaceKey shortKeyTree 0 (shortKey 7) 0).run tenKeysHeap).toOption.map Prod.fst
      = some (1, shortKey 5) ∧
    ¬TakesGreatest shortKeyTree tenKeysHeap 1 none 0 [] [] [] belowSeven [aboveSeven]
      (shortKey 7) 7 := by
  have hrun : ((replaceKey shortKeyTree 0 (shortKey 7) 0).run tenKeysHeap).toOption.map Prod.fst
      = some (1, shortKey 5) := by decide +kernel
  refine ⟨tenKeys_subtree, rfl, hrun, ?_⟩
  rintro ⟨y, H₁, H', c', hy, hrun', _⟩
  have hrun'' : (replaceKey shortKeyTree 0 (shortKey 7) 0).run tenKeysHeap
      = .ok ((belowSeven.label, y.1), H₁) := hrun'
  have hgreatest : (toList 1 belowSeven).getLast? = some (shortEntry 6) := rfl
  rw [hgreatest, Option.some.injEq] at hy
  rw [hrun'', ← hy] at hrun
  have hkeys : shortKey 6 = shortKey 5 := by
    have hpair := Option.some.inj hrun
    exact congrArg Prod.snd hpair
  revert hkeys
  decide

end Maxql.Index
