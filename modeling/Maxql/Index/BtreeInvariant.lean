import Maxql.Index.BtreeMap

/-!
# The invariant of the B-tree after insertions

`SubtreeOk` is the invariant as one reads it off the nodes in memory: the keys of
a node ascend between the bounds that its ancestors set, every node but the
root is as full as `min_keys` asks, an inner node has a child more than it has
keys, all leaves are on one level, and every parent pointer is right.  It holds
after every run of insertions of different keys.

The groups are the invariant, what a represented tree says about it, and the
runs.
-/

namespace Maxql.Index

open Program SortedEntries Multiway Bytes

variable {K : Type}

/-! ## The invariant -/

/-- The key is strictly between the bounds, where there are any. -/
def Within (compare : K → K → Int) (lo hi : Option K) (k : K) : Prop :=
  (∀ b ∈ lo, compare b k < 0) ∧ ∀ b ∈ hi, compare k b < 0

/-- The node at `a`, all but its children. -/
structure NodeOk (tree : Btree K) (H : Heap (BtreeNode K)) (leaf : Bool) (parent : Option Addr)
    (lo hi : Option K) (a : Addr) (n : BtreeNode K) : Prop where
  live : H.get a = some n
  parent_eq : n.parent = parent
  leaf_eq : btreeNodeIsLeaf n = leaf
  count_le : n.keyCount ≤ tree.layout.maxKeys
  le_count : parent ≠ none → tree.layout.minKeys ≤ n.keyCount
  slots : n.keys.length = tree.layout.maxKeys
  ascending : (n.keys.take n.keyCount).Pairwise fun x y => tree.compare x y < 0
  within : ∀ k ∈ n.keys.take n.keyCount, Within tree.compare lo hi k

/-- The nodes from `a` down to the leaves `h` levels below.  The keys below child `i` are
between the separators `i - 1` and `i`. -/
def SubtreeOk (tree : Btree K) (H : Heap (BtreeNode K)) :
    (h : Nat) → (parent : Option Addr) → (lo hi : Option K) → Addr → Prop
  | 0, parent, lo, hi, a => ∃ n, NodeOk tree H true parent lo hi a n
  | h + 1, parent, lo, hi, a => ∃ n, NodeOk tree H false parent lo hi a n ∧
      ∃ cs : List Addr, cs.length = n.keyCount + 1 ∧
        n.children.take (n.keyCount + 1) = cs.map some ∧
        ∀ i c, cs[i]? = some c → SubtreeOk tree H h (some a)
          (if i = 0 then lo else n.keys[i - 1]?) (if i < n.keyCount then n.keys[i]? else hi) c

/-- The whole tree, whose root has no parent. -/
def BtreeOk (tree : Btree K) (H : Heap (BtreeNode K)) : Prop :=
  match tree.root with
  | none => True
  | some root => ∃ h, SubtreeOk tree H h none none none root

/-- The entries in order, as they are read off the nodes. -/
def inOrder (tree : Btree K) (H : Heap (BtreeNode K)) : Option (List (Entry K)) :=
  match tree.root with
  | none => some []
  | some root => do
    let h ← heightAt H H.size root
    let t ← treeAt H h root
    some (toList h t)

/-! ## Represented trees -/

section Represented

variable {tree : Btree K} {H : Heap (BtreeNode K)} {h : Nat} {par : Option Addr} {lo hi : Option K}

theorem NodeRep.take_keys {L : BtreeLayout} {n : BtreeNode K} {leaf : Bool}
    {es : List (Entry K)} {cs : List Addr} (hn : NodeRep L n leaf par es cs) :
    n.keys.take n.keyCount = es.map Prod.fst := by
  obtain ⟨junk, hkeys⟩ := hn.keys_eq
  rw [hkeys, hn.count_eq, List.take_left' (by simp)]

theorem NodeRep.getElem?_keys {L : BtreeLayout} {n : BtreeNode K} {leaf : Bool}
    {es : List (Entry K)} {cs : List Addr} (hn : NodeRep L n leaf par es cs) {i : Nat}
    (hi : i < es.length) : n.keys[i]? = some es[i].1 := by
  obtain ⟨junk, hkeys⟩ := hn.keys_eq
  rw [hkeys, List.getElem?_append_left (by simpa using hi), List.getElem?_map,
    List.getElem?_eq_getElem hi]
  rfl

theorem nodeOk_of_rep {t : AddrTree K h} {m : Nat} (ht : RootRep tree.layout H h par t)
    (hfit : Fits tree.layout.minKeys tree.layout.maxKeys h m t)
    (hm : par ≠ none → tree.layout.minKeys ≤ m) (hasc : Ascending tree.compare (toList h t))
    (hwithin : ∀ e ∈ toList h t, Within tree.compare lo hi e.1) :
    ∃ n, NodeOk tree H (h == 0) par lo hi t.label n ∧
      NodeRep tree.layout n (h == 0) par t.entries (childAddrs h t) := by
  obtain ⟨n, hget, hn⟩ := ht
  have hsub := entries_sublist_toList (fits_iff.1 hfit).2.2
  refine ⟨n, ⟨hget, hn.parent_eq, hn.leaf_eq, ?_, ?_, hn.keys_len, ?_, ?_⟩, hn⟩
  · rw [hn.count_eq]
    exact hfit.le_max
  · intro hpar
    rw [hn.count_eq]
    exact Nat.le_trans (hm hpar) hfit.lo_le
  · rw [hn.take_keys, List.pairwise_map]
    exact hasc.sublist hsub
  · intro k hk
    rw [hn.take_keys] at hk
    obtain ⟨e, he, rfl⟩ := List.mem_map.1 hk
    exact hwithin e (hsub.subset he)

/-- The entries around a child in an ascending reading. -/
theorem mem_weaveLeft {α : Type} {es : List α} {ls : List (List α)}
    (hlen : es.length = ls.length) {e : α} (he : e ∈ es) : e ∈ weaveLeft es ls :=
  (sublist_weaveLeft hlen).subset he

theorem mem_weaveRight {α : Type} {es : List α} {ls : List (List α)}
    (hlen : es.length = ls.length) {e : α} (he : e ∈ es) : e ∈ weaveRight es ls :=
  (sublist_weaveRight hlen).subset he

/-- A tree that the nodes represent satisfies the invariant.  The induction is on the height:
the bounds of a child are the separators next to it. -/
theorem subtreeOk_of_rep : ∀ {h : Nat} {par : Option Addr} {lo hi : Option K} {m : Nat}
    {t : AddrTree K h}, Rep tree.layout H h par t →
    Fits tree.layout.minKeys tree.layout.maxKeys h m t →
    (par ≠ none → tree.layout.minKeys ≤ m) → Ascending tree.compare (toList h t) →
    (∀ e ∈ toList h t, Within tree.compare lo hi e.1) →
    SubtreeOk tree H h par lo hi t.label := by
  intro h
  induction h with
  | zero =>
    intro par lo hi m t ht hfit hm hasc hwithin
    obtain ⟨n, hok, _⟩ := nodeOk_of_rep ht hfit hm hasc hwithin
    exact ⟨n, hok⟩
  | succ h ih =>
    intro par lo hi m t ht hfit hm hasc hwithin
    obtain ⟨n, hok, hn⟩ := nodeOk_of_rep ht.root hfit hm hasc hwithin
    obtain ⟨a, es, cs⟩ := t
    have hlen : cs.length = es.length + 1 := hfit.children_length
    obtain ⟨junk, hchildren⟩ := hn.children_eq
    have hcount : n.keyCount = es.length := hn.count_eq
    refine ⟨n, hok, cs.map Node.label, by rw [List.length_map, hlen, hcount], ?_, ?_⟩
    · rw [hchildren, hcount, List.take_left' (by simp [childAddrs, hlen])]
      rfl
    · intro i c hc
      rw [List.getElem?_map, Option.map_eq_some_iff] at hc
      obtain ⟨c, hc, rfl⟩ := hc
      obtain ⟨hi', hget⟩ := List.getElem?_eq_some_iff.1 hc
      have hmem : c ∈ cs := List.mem_of_getElem? hc
      -- the reading with child `i` in focus
      have hcut : cs = cs.take i ++ c :: cs.drop (i + 1) := by
        rw [← hget, List.getElem_cons_drop, List.take_append_drop]
      have htake : (es.take i).length = (cs.take i).length := by
        rw [List.length_take, List.length_take]
        omega
      have hfocus : toList (h + 1) ⟨a, es.take i ++ es.drop i, cs.take i ++ c :: cs.drop (i + 1)⟩
          = _ := toList_focus a c htake
      rw [List.take_append_drop, ← hcut] at hfocus
      have hleft : (es.take i).length = ((cs.take i).map (toList h)).length := by
        rw [List.length_map, List.length_take, List.length_take]
        omega
      have hright : (es.drop i).length = ((cs.drop (i + 1)).map (toList h)).length := by
        rw [List.length_map, List.length_drop, List.length_drop]
        omega
      have hasc' := hasc
      rw [hfocus, ascending_append, ascending_append] at hasc'
      obtain ⟨⟨_, hascc, hbefore⟩, _, hbehind⟩ := hasc'
      refine ih (ht.child hmem) (hfit.child hmem) (fun _ => Nat.le_refl _) hascc ?_
      intro e he
      have hold : Within tree.compare lo hi e.1 := by
        apply hwithin
        rw [hfocus]
        exact List.mem_append_left _ (List.mem_append_right _ he)
      constructor
      · intro b hb
        split at hb
        · exact hold.1 b hb
        · have hprev : i - 1 < es.length := by omega
          rw [hn.getElem?_keys hprev, Option.mem_some_iff] at hb
          subst hb
          refine hbefore _ (mem_weaveLeft hleft ?_) e he
          rw [List.mem_take_iff_getElem]
          exact ⟨i - 1, by omega, rfl⟩
      · intro b hb
        split at hb
        · next hlt =>
          rw [hcount] at hlt
          rw [hn.getElem?_keys hlt, Option.mem_some_iff] at hb
          subst hb
          refine hbehind e (List.mem_append_right _ he) _ (mem_weaveRight hright ?_)
          rw [List.mem_drop_iff_getElem]
          exact ⟨0, by omega, by simp⟩
        · exact hold.2 b hb

theorem Holds.btreeOk {entries : List (Entry K)} (hH : Holds tree H entries) : BtreeOk tree H := by
  unfold Holds at hH
  unfold BtreeOk
  cases hroot : tree.root with
  | none => trivial
  | some root =>
    rw [hroot] at hH
    obtain ⟨h, t, rfl, ht, _⟩ := hH
    refine ⟨h, subtreeOk_of_rep ht.rep ht.fits (fun hpar => absurd rfl hpar) ht.asc ?_⟩
    intro e _
    exact ⟨fun b hb => (by cases hb), fun b hb => (by cases hb)⟩

theorem Holds.inOrder_eq {entries : List (Entry K)} (hH : Holds tree H entries) :
    inOrder tree H = some entries := by
  unfold Holds at hH
  unfold inOrder
  cases hroot : tree.root with
  | none =>
    rw [hroot] at hH
    rw [hH]
  | some root =>
    rw [hroot] at hH
    obtain ⟨h, t, rfl, ht, rfl⟩ := hH
    have hheight := ht.rep.height_lt_size ht.fits ht.nodup
    simp only [ht.rep.heightAt ht.fits H.size hheight, ht.rep.treeAt ht.fits,
      Option.bind_eq_bind, Option.bind_some]

end Represented

/-! ## Runs -/

section Runs

variable [Inhabited K]

/-- The trees that insertions of different keys make from an empty one. -/
inductive InsertRun (nodeSize keySize : Nat) (compare : K → K → Int) :
    List (Entry K) → Btree K → Heap (BtreeNode K) → Prop
  | create : InsertRun nodeSize keySize compare [] (btreeCreate nodeSize keySize compare)
      Heap.empty
  | insert {inserted : List (Entry K)} {tree tree' : Btree K} {H H' : Heap (BtreeNode K)} {k : K}
      {v : FileOffset} (h : InsertRun nodeSize keySize compare inserted tree H)
      (hnew : k ∉ inserted.map Prod.fst) (hrun : Runs (btreeInsert tree k v) H tree' H') :
      InsertRun nodeSize keySize compare (inserted ++ [(k, v)]) tree' H'

variable {nodeSize keySize : Nat} {compare : K → K → Int} {inserted : List (Entry K)}
  {tree : Btree K} {H : Heap (BtreeNode K)}

theorem InsertRun.holds (hmax : 3 ≤ (btreeLayoutCreate nodeSize keySize).maxKeys)
    (hc : TotalCmp compare) (h : InsertRun nodeSize keySize compare inserted tree H) :
    tree.layout = btreeLayoutCreate nodeSize keySize ∧ tree.compare = compare ∧
      ∃ entries, Holds tree H entries ∧ entries.Perm inserted := by
  have hL := sound_btreeLayoutCreate hmax
  induction h with
  | create => exact ⟨rfl, rfl, [], rfl, .nil⟩
  | @insert inserted tree tree' H H' k v _ hnew hrun ih =>
    obtain ⟨hlayout, rfl, entries, hH, hperm⟩ := ih
    have hk : k ∉ entries.map Prod.fst := by
      intro hmem
      exact hnew ((hperm.map Prod.fst).subset hmem)
    obtain ⟨hlayout', hcompare', hH'⟩ := hH.inserted (hlayout ▸ hL) hc hk hrun
    refine ⟨hlayout'.trans hlayout, hcompare', _, hH', ?_⟩
    have hinsert : (insertEntry tree.compare (k, v) entries).Perm ((k, v) :: entries) :=
      List.perm_orderedInsert _ _ _
    exact hinsert.trans ((hperm.cons _).trans (List.perm_append_singleton _ _).symm)

/-- After every run of insertions the invariant holds, the entries in order are those that
were inserted, sorted by their keys, and the next insertion goes through. -/
theorem btreeInsert_keeps_invariant (hmax : 3 ≤ (btreeLayoutCreate nodeSize keySize).maxKeys)
    (hc : TotalCmp compare) (h : InsertRun nodeSize keySize compare inserted tree H) :
    BtreeOk tree H ∧
    (∃ entries, inOrder tree H = some entries ∧ Ascending compare entries ∧
      entries.Perm inserted) ∧
    ∀ k v, k ∉ inserted.map Prod.fst → ∃ tree' H', Runs (btreeInsert tree k v) H tree' H' := by
  have hL := sound_btreeLayoutCreate hmax
  obtain ⟨hlayout, hcompare, entries, hH, hperm⟩ := h.holds hmax hc
  refine ⟨hH.btreeOk, ⟨entries, hH.inOrder_eq, hcompare ▸ hH.ascending, hperm⟩, ?_⟩
  intro k v hnew
  have hk : k ∉ entries.map Prod.fst := by
    intro hmem
    exact hnew ((hperm.map Prod.fst).subset hmem)
  obtain ⟨root, H', hrun, _⟩ := runs_btreeInsert (v := v) (hlayout ▸ hL) (hcompare ▸ hc) hH hk
  exact ⟨_, H', hrun⟩

end Runs

/-- The entries of the keys `1` to `n`. -/
def keysEntries : Nat → List (Entry (Fixed 1020))
  | 0 => []
  | n + 1 => keysEntries n ++ [(longKey (n + 1).toUInt8, (10 * (n + 1)).toUInt64)]

theorem keysEntries_next {n : Nat} (hn : n < 4) :
    longKey (n + 1).toUInt8 ∉ (keysEntries n).map Prod.fst := by
  have hcases : n = 0 ∨ n = 1 ∨ n = 2 ∨ n = 3 := by omega
  rcases hcases with rfl | rfl | rfl | rfl <;> simp [keysEntries, longKey_inj]

theorem insertKeys_insertRun {n : Nat} (hn : n ≤ 4) {tree : Btree (Fixed 1020)}
    {H : Heap (BtreeNode (Fixed 1020))} (h : Runs (insertKeys n) Heap.empty tree H) :
    InsertRun 4096 1020 (fun a b => memcmp a.1 b.1) (keysEntries n) tree H := by
  induction n generalizing tree H with
  | zero =>
    cases h
    exact .create
  | succ n ih =>
    obtain ⟨tree₀, H₀, hkeys, hrun⟩ := h.exists_of_bind
    exact .insert (ih (Nat.le_of_succ_le hn) hkeys) (keysEntries_next hn) hrun

/-- A tree that has split, and a smaller key that comes last. -/
theorem btreeInsert_keeps_invariant_fourKeys : ∃ tree H tree' H',
    Runs (insertKeys 4) Heap.empty tree H ∧ tree.root.bind (heightAt H H.size) = some 1 ∧
      BtreeOk tree H ∧ Runs (btreeInsert tree (longKey 0) 5) H tree' H' ∧ BtreeOk tree' H' ∧
      inOrder tree' H' = some ((longKey 0, 5) :: keysEntries 4) := by
  have hmax : 3 ≤ (btreeLayoutCreate 4096 1020).maxKeys := by decide
  obtain ⟨tree, H, hkeys, -⟩ := insertKeys_reached (Nat.le_refl 4)
  have hfour := insertKeys_insertRun (Nat.le_refl 4) hkeys
  obtain ⟨hok, -, hnext⟩ := btreeInsert_keeps_invariant hmax (totalCmp_memcmp 1020) hfour
  have hnew : longKey 0 ∉ (keysEntries 4).map Prod.fst := by
    simp [keysEntries, longKey_inj]
  obtain ⟨tree', H', hrun⟩ := hnext (longKey 0) 5 hnew
  obtain ⟨hok', ⟨entries, horder, hasc, hperm⟩, -⟩ :=
    btreeInsert_keeps_invariant hmax (totalCmp_memcmp 1020) (InsertRun.insert hfour hnew hrun)
  have hsorted : Ascending (fun a b : Fixed 1020 => memcmp a.1 b.1)
      ((longKey 0, 5) :: keysEntries 4) := by
    apply ascending_longKeys
    · show _ = [0, 1, 2, 3, 4].map longKey
      rfl
    · decide
  have heq : entries = (longKey 0, 5) :: keysEntries 4 := by
    refine List.Perm.eq_of_pairwise (fun a b _ _ hab hba => ?_) hasc hsorted
      (hperm.trans (List.perm_append_singleton _ _))
    have hless : 0 < memcmp b.1.1 a.1.1 := (totalCmp_memcmp 1020).neg_iff.1 hab
    have hmore : memcmp b.1.1 a.1.1 < 0 := hba
    omega
  exact ⟨tree, H, tree', H', hkeys, (insertKeys_height hkeys).1, hok, hrun, hok', heq ▸ horder⟩

end Maxql.Index
