import Maxql.Index.BtreeRep

/-!
# Insertion into the B-tree

The entry goes into the leaf that `find_leaf` reaches; a full node is split in
two, and the entry in the middle goes to the parent, up to a new root.  The
source walks up the parent pointers.  `insertAtLeaf_spec` is an induction on
the height instead: run from the leaf below a subtree, the program either ends
inside the subtree, or it arrives at the root of the subtree with the two
halves of a split and the separator still to be placed.

The groups are the arrays of one node, the nodes that a split or an insertion
writes, and the induction.
-/

namespace Maxql.Index

open Program SortedEntries Multiway

variable {K : Type}

/-! ## One node -/

section Arrays

variable {tree : Btree K} (hc : TotalCmp tree.compare) {k : K} {v : FileOffset}
  {es₁ es₂ : List (Entry K)}

include hc

/-- `insert_value` puts the entry between the smaller and the greater ones and
uses up one free slot of each array. -/
theorem insertValue_eq (jk : K) (jo : FileOffset) (junkK : List K)
    (junkO : List FileOffset) (h₁ : Below tree.compare es₁ k)
    (h₂ : Above tree.compare es₂ k) :
    insertValue tree ((es₁ ++ es₂).map Prod.fst ++ jk :: junkK)
        ((es₁ ++ es₂).map Prod.snd ++ jo :: junkO) (es₁ ++ es₂).length k v
      = .ok ((es₁ ++ (k, v) :: es₂).map Prod.fst ++ junkK,
          (es₁ ++ (k, v) :: es₂).map Prod.snd ++ junkO, es₁.length) := by
  have hbound := lowerBound_eq hc (jk :: junkK) h₁ h₂
  have hlen : (es₁ ++ es₂).length - es₁.length = es₂.length := by simp
  obtain ⟨ks, hks, hks'⟩ := Checked.bind_eq_ok.1
    (shiftUp_insert (es₁.map Prod.fst) (es₂.map Prod.fst) k jk junkK)
  obtain ⟨os, hos, hos'⟩ := Checked.bind_eq_ok.1
    (shiftUp_insert (es₁.map Prod.snd) (es₂.map Prod.snd) v jo junkO)
  simp only [List.length_map] at hks hks' hos hos'
  have hk : (es₁ ++ es₂).map Prod.fst ++ jk :: junkK
      = es₁.map Prod.fst ++ (es₂.map Prod.fst ++ jk :: junkK) := by simp
  have ho : (es₁ ++ es₂).map Prod.snd ++ jo :: junkO
      = es₁.map Prod.snd ++ (es₂.map Prod.snd ++ jo :: junkO) := by simp
  rw [insertValue, hbound, Checked.ok_bind, hlen, hk, ho, hks, Checked.ok_bind, hos,
    Checked.ok_bind, hks', Checked.ok_bind, hos', Checked.ok_bind]
  simp

end Arrays

section Nodes

variable {L : BtreeLayout} {n : BtreeNode K} {leaf : Bool} {par : Option Addr}
  {es : List (Entry K)} {cs : List Addr}

/-- A node that is not full has a free slot in both arrays. -/
theorem NodeRep.free_slot (hn : NodeRep L n leaf par es cs)
    (hroom : es.length < L.maxKeys) :
    (∃ j junk, n.keys = es.map Prod.fst ++ j :: junk) ∧
      ∃ j junk, n.offsets = es.map Prod.snd ++ j :: junk := by
  obtain ⟨jk, hkeys⟩ := hn.keys_eq
  obtain ⟨jo, hoffsets⟩ := hn.offsets_eq
  have hklen := hn.keys_len
  have holen := hn.offsets_len
  rw [hkeys] at hklen
  rw [hoffsets] at holen
  simp only [List.length_append, List.length_map] at hklen holen
  obtain ⟨j, junk, hjk⟩ := List.exists_cons_of_length_pos (l := jk) (by omega)
  obtain ⟨j', junk', hjo⟩ := List.exists_cons_of_length_pos (l := jo) (by omega)
  exact ⟨⟨j, junk, hkeys.trans (by rw [hjk])⟩, j', junk', hoffsets.trans (by rw [hjo])⟩

/-- The used slots of a full node are all its slots. -/
theorem NodeRep.full (hn : NodeRep L n leaf par es cs) (hfull : es.length = L.maxKeys) :
    n.keys = es.map Prod.fst ∧ n.offsets = es.map Prod.snd := by
  obtain ⟨jk, hkeys⟩ := hn.keys_eq
  obtain ⟨jo, hoffsets⟩ := hn.offsets_eq
  have hklen := hn.keys_len
  have holen := hn.offsets_len
  rw [hkeys] at hklen
  rw [hoffsets] at holen
  simp only [List.length_append, List.length_map] at hklen holen
  have hjk : jk = [] := List.eq_nil_of_length_eq_zero (by omega)
  have hjo : jo = [] := List.eq_nil_of_length_eq_zero (by omega)
  exact ⟨by simpa [hjk] using hkeys, by simpa [hjo] using hoffsets⟩

variable {tree : Btree K} (hL : tree.layout.Sound) (hc : TotalCmp tree.compare) {k : K}
  {v : FileOffset} {es₁ es₂ : List (Entry K)} {H : Heap (BtreeNode K)} {a : Addr}

include hL hc

/-- Insertion into a leaf with a free slot. -/
theorem runs_insertIntoLeaf (hget : H.get a = some n)
    (hn : NodeRep tree.layout n true par (es₁ ++ es₂) [])
    (h₁ : Below tree.compare es₁ k) (h₂ : Above tree.compare es₂ k)
    (hroom : (es₁ ++ es₂).length < tree.layout.maxKeys) :
    ∃ n', Runs (insertIntoLeaf tree a k v) H true (H.put a (some n')) ∧
      NodeRep tree.layout n' true par (es₁ ++ (k, v) :: es₂) [] := by
  obtain ⟨⟨jk, junkK, hkeys⟩, jo, junkO, hoffsets⟩ := hn.free_slot hroom
  have hval := insertValue_eq (v := v) hc jk jo junkK junkO h₁ h₂
  have hcount := hn.count_eq
  have hmax := hL.maxKeys_le
  have hklen := hn.keys_len
  have holen := hn.offsets_len
  rw [hkeys] at hklen
  rw [hoffsets] at holen
  rw [← hkeys, ← hoffsets, ← hcount] at hval
  refine ⟨{ n with
      keys := (es₁ ++ (k, v) :: es₂).map Prod.fst ++ junkK
      offsets := (es₁ ++ (k, v) :: es₂).map Prod.snd ++ junkO
      keyCount := inc16 n.keyCount }, ?_, ?_⟩
  · refine Runs.bind (Runs.load hget) (Runs.ite_neg (by omega) ?_)
    exact Runs.bind (Runs.lift hval H) (Runs.bind (Runs.store hget _) (Runs.pure _ _))
  · refine ⟨hn.parent_eq, hn.leaf_eq, ?_, ⟨junkK, rfl⟩, ⟨junkO, rfl⟩, hn.children_eq, ?_, ?_,
      hn.children_len⟩
    · rw [inc16_eq (by omega), hcount]
      simp only [List.length_append, List.length_cons]
      omega
    · simp only [List.length_append, List.length_map, List.length_cons] at hklen ⊢
      omega
    · simp only [List.length_append, List.length_map, List.length_cons] at holen ⊢
      omega

omit hL hc in
/-- A full leaf is left alone. -/
theorem runs_insertIntoLeaf_full (hget : H.get a = some n)
    (hn : NodeRep tree.layout n true par es [])
    (hfull : es.length = tree.layout.maxKeys) :
    Runs (insertIntoLeaf tree a k v) H false H := by
  have hcount := hn.count_eq
  refine Runs.bind (Runs.load hget) (Runs.ite_pos (by omega) (Runs.pure _ _))

omit hL hc in
/-- A full inner node is left alone. -/
theorem runs_insertIntoNode_full (hget : H.get a = some n)
    (hn : NodeRep tree.layout n false par es cs)
    (hfull : es.length = tree.layout.maxKeys) (q : Addr) :
    Runs (insertIntoNode tree a q k v) H false H := by
  have hcount := hn.count_eq
  exact Runs.bind (Runs.load hget) (Runs.ite_pos (by omega) (Runs.pure _ _))

/-- Insertion of a separator and the child right of it into an inner node with
a free slot. -/
theorem runs_insertIntoNode {cs₁ cs₂ : List Addr} {q : Addr} {m : BtreeNode K}
    (hget : H.get a = some n) (hn : NodeRep tree.layout n false par (es₁ ++ es₂) (cs₁ ++ cs₂))
    (h₁ : Below tree.compare es₁ k) (h₂ : Above tree.compare es₂ k)
    (hcs₁ : cs₁.length = es₁.length + 1) (hcs₂ : cs₂.length = es₂.length)
    (hroom : (es₁ ++ es₂).length < tree.layout.maxKeys) (hne : q ≠ a)
    (hq : H.get q = some m) :
    ∃ H' n', Runs (insertIntoNode tree a q k v) H true H' ∧ H'.size = H.size ∧
      H'.get a = some n' ∧
      NodeRep tree.layout n' false par (es₁ ++ (k, v) :: es₂) (cs₁ ++ q :: cs₂) ∧
      H'.get q = some { m with parent := some a } ∧
      ∀ b, b ≠ a → b ≠ q → H'.get b = H.get b := by
  obtain ⟨⟨jk, junkK, hkeys⟩, jo, junkO, hoffsets⟩ := hn.free_slot hroom
  obtain ⟨jc, hchildren⟩ := hn.children_eq
  have hval := insertValue_eq (v := v) hc jk jo junkK junkO h₁ h₂
  have hcount := hn.count_eq
  have hmax := hL.maxKeys_le
  have hklen := hn.keys_len
  have holen := hn.offsets_len
  have hclen := hn.children_len
  rw [hkeys] at hklen
  rw [hoffsets] at holen
  rw [hchildren, hL.childCount_eq] at hclen
  rw [← hkeys, ← hoffsets, ← hcount] at hval
  simp only [List.length_append, List.length_map, List.length_cons]
    at hcount hroom hklen holen hclen
  obtain ⟨c, junkC, rfl⟩ := List.exists_cons_of_length_pos (l := jc) (by omega)
  rw [List.length_cons] at hclen
  have hinc : inc16 n.keyCount = n.keyCount + 1 := inc16_eq (by omega)
  -- the shift of the children moves the ones right of the new child
  obtain ⟨shifted, hshift, hwrite⟩ := Checked.bind_eq_ok.1
    (shiftUp_insert (cs₁.map some) (cs₂.map some) (some q) c junkC)
  simp only [List.length_map] at hshift hwrite
  have hgap : inc16 n.keyCount - (es₁.length + 1) = cs₂.length := by omega
  have hchildren' : n.children = cs₁.map some ++ (cs₂.map some ++ c :: junkC) := by
    rw [hchildren]; simp
  rw [← hchildren', hcs₁] at hshift
  rw [hcs₁] at hwrite
  have ha := Heap.lt_size_of_get hget
  have hq' : ∀ x, (H.put a x).get q = some m := fun x => by
    rw [Heap.get_put_ne hne]; exact hq
  let n' : BtreeNode K := { n with
    keys := (es₁ ++ (k, v) :: es₂).map Prod.fst ++ junkK
    offsets := (es₁ ++ (k, v) :: es₂).map Prod.snd ++ junkO
    keyCount := inc16 n.keyCount
    children := cs₁.map some ++ some q :: (cs₂.map some ++ junkC) }
  obtain ⟨H', hrun, hsize, hset, hsame⟩ := runs_setParent (hq' (some n')) (some a)
  refine ⟨H', n', ?_, by simpa using hsize, ?_, ?_, ?_, ?_⟩
  · refine Runs.bind (Runs.load hget) (Runs.ite_neg (by omega) ?_)
    refine Runs.bind (Runs.lift hval H) ?_
    refine Runs.bind (Runs.lift (a := shifted) ?_ H) ?_
    · show shiftUp n.children (es₁.length + 1) (inc16 n.keyCount - (es₁.length + 1)) = _
      rw [hgap]
      exact hshift
    · refine Runs.bind (Runs.lift hwrite H) ?_
      exact Runs.bind (Runs.store hget n') (Runs.bind hrun (Runs.pure _ _))
  · rw [hsame a (by simpa using Ne.symm hne), Heap.get_put_self ha]
  · refine ⟨hn.parent_eq, hn.leaf_eq, ?_, ⟨junkK, rfl⟩, ⟨junkO, rfl⟩, ⟨junkC, ?_⟩, ?_, ?_, ?_⟩
    · show inc16 n.keyCount = _
      rw [hinc, hcount]
      simp only [List.length_append, List.length_cons]
      omega
    · show cs₁.map some ++ some q :: (cs₂.map some ++ junkC) = _
      simp
    · show (List.map Prod.fst (es₁ ++ (k, v) :: es₂) ++ junkK).length = _
      simp only [List.length_append, List.length_map, List.length_cons]
      omega
    · show (List.map Prod.snd (es₁ ++ (k, v) :: es₂) ++ junkO).length = _
      simp only [List.length_append, List.length_map, List.length_cons]
      omega
    · show (cs₁.map some ++ some q :: (cs₂.map some ++ junkC)).length = _
      rw [hL.childCount_eq]
      simp only [List.length_append, List.length_map, List.length_cons]
      omega
  · rw [hset q (by simp), hq']
    rfl
  · intro b hba hbq
    rw [hsame b (by simpa using hbq), Heap.get_put_ne hba]

end Nodes

/-! ## Splits -/

section Splits

variable {tree : Btree K} (hL : tree.layout.Sound) (hc : TotalCmp tree.compare) {k : K}
  {v : FileOffset} {leaf : Bool} {par : Option Addr} {es₁ es₂ : List (Entry K)}
  {cs : List Addr} {H : Heap (BtreeNode K)} {node right : Addr} {n r : BtreeNode K}

/-- A whole array goes to the front of one with a slot more. -/
theorem copySlots_whole {α : Type} {xs ys : List α} (h : ys.length = xs.length + 1) :
    ∃ last, copySlots ys 0 xs 0 xs.length = .ok (xs ++ [last]) := by
  have hdrop : (ys.drop xs.length).length = 1 := by
    rw [List.length_drop]; omega
  obtain ⟨last, hlast⟩ := List.length_eq_one_iff.1 hdrop
  refine ⟨last, ?_⟩
  rw [copySlots_front (by omega) (by omega), hlast]
  simp

include hL hc

/-- The first half of `split_node`: with the new entry in its place, the entries
left of the middle stay and the ones right of it go to the fresh node. -/
theorem runs_splitEntries (hne : right ≠ node) (hget : H.get node = some n)
    (hn : NodeRep tree.layout n leaf par (es₁ ++ es₂) cs)
    (hfull : (es₁ ++ es₂).length = tree.layout.maxKeys) (hr : H.get right = some r)
    (hrk : r.keys.length = tree.layout.maxKeys)
    (hro : r.offsets.length = tree.layout.maxKeys)
    (hrc : r.children.length = tree.layout.childCount)
    {tmpKeys : List K} {tmpOffsets : List FileOffset}
    (htk : tmpKeys.length = tree.layout.maxKeys + 1)
    (hto : tmpOffsets.length = tree.layout.maxKeys + 1)
    (h₁ : Below tree.compare es₁ k) (h₂ : Above tree.compare es₂ k) :
    ∃ n' r', Runs (splitEntries tree node right k v tmpKeys tmpOffsets) H
        ((es₁ ++ (k, v) :: es₂).map Prod.fst, (es₁ ++ (k, v) :: es₂).map Prod.snd,
          es₁.length)
        ((H.put node (some n')).put right (some r')) ∧
      NodeRep tree.layout n' leaf par
        ((es₁ ++ (k, v) :: es₂).take tree.layout.mid) cs ∧
      NodeRep tree.layout r' leaf par
        ((es₁ ++ (k, v) :: es₂).drop (tree.layout.mid + 1)) [] := by
  obtain ⟨hnk, hno⟩ := hn.full hfull
  have hthree := hL.three_le
  have hmid := hL.mid_eq
  have hleft := hL.leftCount_eq
  have hright := hL.rightCount_eq
  have hstart := hL.rightStart_eq
  have hklen := hn.keys_len
  have holen := hn.offsets_len
  obtain ⟨lk, hck⟩ := copySlots_whole (htk.trans (by rw [hklen]))
  obtain ⟨lo, hco⟩ := copySlots_whole (hto.trans (by rw [holen]))
  rw [hklen] at hck
  rw [holen] at hco
  have hval := insertValue_eq (v := v) hc lk lo [] [] h₁ h₂
  rw [← hnk, ← hno, hfull, List.append_nil, List.append_nil] at hval
  generalize hes : es₁ ++ (k, v) :: es₂ = es at hval ⊢
  have heslen : es.length = tree.layout.maxKeys + 1 := by
    rw [← hes, ← hfull]
    simp only [List.length_append, List.length_cons]
    omega
  have hall : (es.drop (tree.layout.mid + 1)).length = tree.layout.rightCount := by
    rw [List.length_drop]; omega
  -- the four copies from the temporary arrays
  have hlk : copySlots n.keys 0 (es.map Prod.fst) 0 tree.layout.leftCount
      = .ok ((es.take tree.layout.mid).map Prod.fst ++ n.keys.drop tree.layout.mid) := by
    rw [copySlots_front (by simp; omega) (by omega), hleft, List.map_take]
    rfl
  have hlo : copySlots n.offsets 0 (es.map Prod.snd) 0 tree.layout.leftCount
      = .ok ((es.take tree.layout.mid).map Prod.snd ++ n.offsets.drop tree.layout.mid) := by
    rw [copySlots_front (by simp; omega) (by omega), hleft, List.map_take]
    rfl
  have hrk' : copySlots r.keys 0 (es.map Prod.fst) tree.layout.rightStart
      tree.layout.rightCount = .ok ((es.drop (tree.layout.mid + 1)).map Prod.fst
        ++ r.keys.drop tree.layout.rightCount) := by
    rw [copySlots_front (by simp; omega) (by omega), hstart, ← List.map_drop,
      List.take_of_length_le (by rw [List.length_map, hall])]
  have hro' : copySlots r.offsets 0 (es.map Prod.snd) tree.layout.rightStart
      tree.layout.rightCount = .ok ((es.drop (tree.layout.mid + 1)).map Prod.snd
        ++ r.offsets.drop tree.layout.rightCount) := by
    rw [copySlots_front (by simp; omega) (by omega), hstart, ← List.map_drop,
      List.take_of_length_le (by rw [List.length_map, hall])]
  let n' : BtreeNode K := { n with
    keyCount := tree.layout.leftCount
    keys := (es.take tree.layout.mid).map Prod.fst ++ n.keys.drop tree.layout.mid
    offsets := (es.take tree.layout.mid).map Prod.snd ++ n.offsets.drop tree.layout.mid }
  let r' : BtreeNode K := { r with
    parent := n.parent
    keyCount := tree.layout.rightCount
    flags := n.flags
    keys := (es.drop (tree.layout.mid + 1)).map Prod.fst
      ++ r.keys.drop tree.layout.rightCount
    offsets := (es.drop (tree.layout.mid + 1)).map Prod.snd
      ++ r.offsets.drop tree.layout.rightCount }
  have hr' : (H.put node (some n')).get right = some r := by
    rw [Heap.get_put_ne hne]; exact hr
  refine ⟨n', r', ?_, ?_, ?_⟩
  · refine Runs.bind (Runs.load hget) (Runs.bind (Runs.lift hck H) ?_)
    refine Runs.bind (Runs.lift hco H) (Runs.bind (Runs.lift hval H) ?_)
    refine Runs.bind (Runs.lift hlk H) (Runs.bind (Runs.lift hlo H) ?_)
    refine Runs.bind (Runs.store hget n') (Runs.bind (Runs.load hr') ?_)
    refine Runs.bind (Runs.lift hrk' _) (Runs.bind (Runs.lift hro' _) ?_)
    exact Runs.bind (Runs.store hr' r') (Runs.pure _ _)
  · refine ⟨hn.parent_eq, hn.leaf_eq, ?_, ⟨_, rfl⟩, ⟨_, rfl⟩, hn.children_eq, ?_, ?_,
      hn.children_len⟩
    · show tree.layout.leftCount = _
      rw [List.length_take]; omega
    · show (List.map _ _ ++ _).length = _
      simp; omega
    · show (List.map _ _ ++ _).length = _
      simp; omega
  · refine ⟨hn.parent_eq, hn.leaf_eq, hall.symm, ⟨_, rfl⟩, ⟨_, rfl⟩, ⟨_, rfl⟩, ?_, ?_, hrc⟩
    · show (List.map _ _ ++ _).length = _
      rw [List.length_append, List.length_map, hall, List.length_drop]
      omega
    · show (List.map _ _ ++ _).length = _
      rw [List.length_append, List.length_map, hall, List.length_drop]
      omega

omit hL hc in
/-- A leaf has no children to split. -/
theorem runs_splitChildren_leaf (hr : H.get right = some r)
    (hleaf : btreeNodeIsLeaf r = true) (idx : Nat) (q : Option Addr) :
    Runs (splitChildren tree node right idx q) H () H :=
  Runs.bind (Runs.load hr) (Runs.ite_pos hleaf (Runs.pure _ _))

omit hc in
/-- `insert_child` on a full child array. -/
theorem insertChild_eq {cs₁ cs₂ : List Addr}
    (hlen : (cs₁ ++ cs₂).length = tree.layout.maxKeys + 1) (q : Addr) :
    insertChild tree.layout ((cs₁ ++ cs₂).map some)
        (List.replicate (tree.layout.childCount + 1) none) cs₁.length (some q)
      = .ok ((cs₁ ++ q :: cs₂).map some) := by
  have hchild := hL.childCount_eq
  have hmap : ((cs₁ ++ cs₂).map some).length = tree.layout.childCount := by
    rw [List.length_map, hlen, hchild]
  have htmp : (List.replicate (tree.layout.childCount + 1) (none : Option Addr)).length
      = ((cs₁ ++ cs₂).map some).length + 1 := by
    rw [List.length_replicate, hmap]
  obtain ⟨last, hcopy⟩ := copySlots_whole htmp
  obtain ⟨shifted, hshift, hwrite⟩ := Checked.bind_eq_ok.1
    (shiftUp_insert (cs₁.map some) (cs₂.map some) (some q) last [])
  have hgap : tree.layout.childCount - cs₁.length = (cs₂.map some).length := by
    rw [List.length_append] at hlen
    rw [List.length_map]
    omega
  rw [hmap] at hcopy
  have hsplit : (cs₁ ++ cs₂).map some ++ [last]
      = cs₁.map some ++ (cs₂.map some ++ [last]) := by simp
  have hpre : (cs₁.map some).length = cs₁.length := List.length_map _
  rw [hpre] at hshift hwrite
  rw [insertChild, hcopy, Checked.ok_bind, hgap, hsplit, hshift, Checked.ok_bind, hwrite]
  simp

omit hc in
/-- The second half of `split_node`: the children right of the middle follow
the entries and get the fresh node as their parent. -/
theorem runs_splitChildren (cs₁ cs₂ : List Addr) (q : Addr) (idx : Nat) {esr : List (Entry K)}
    (hne : right ≠ node) (hget : H.get node = some n)
    (hn : NodeRep tree.layout n false par es₁ (cs₁ ++ cs₂))
    (hlen : (cs₁ ++ cs₂).length = tree.layout.maxKeys + 1)
    (hidx : cs₁.length = idx + 1) (hr : H.get right = some r)
    (hrep : NodeRep tree.layout r false par esr [])
    (hnode : node ∉ (cs₁ ++ q :: cs₂).drop (tree.layout.mid + 1))
    (hright : right ∉ (cs₁ ++ q :: cs₂).drop (tree.layout.mid + 1))
    (hnodup : ((cs₁ ++ q :: cs₂).drop (tree.layout.mid + 1)).Nodup)
    (hlive : ∀ c ∈ (cs₁ ++ q :: cs₂).drop (tree.layout.mid + 1), (H.get c).isSome) :
    ∃ H' n' r', Runs (splitChildren tree node right idx (some q)) H () H' ∧
      H'.size = H.size ∧ H'.get node = some n' ∧
      NodeRep tree.layout n' false par es₁
        ((cs₁ ++ q :: cs₂).take (tree.layout.mid + 1)) ∧
      H'.get right = some r' ∧
      NodeRep tree.layout r' false par esr
        ((cs₁ ++ q :: cs₂).drop (tree.layout.mid + 1)) ∧
      (∀ a ∈ (cs₁ ++ q :: cs₂).drop (tree.layout.mid + 1),
        H'.get a = (H.get a).map fun m => { m with parent := some right }) ∧
      ∀ a, a ∉ (cs₁ ++ q :: cs₂).drop (tree.layout.mid + 1) → a ≠ node → a ≠ right →
        H'.get a = H.get a := by
  have hthree := hL.three_le
  have hmid := hL.mid_eq
  have hleft := hL.leftCount_eq
  have hrightc := hL.rightCount_eq
  have hstart := hL.rightStart_eq
  have hchild := hL.childCount_eq
  have hclen := hn.children_len
  have hrclen := hrep.children_len
  have hchildren : n.children = (cs₁ ++ cs₂).map some := by
    obtain ⟨junk, hch⟩ := hn.children_eq
    rw [hch, hchild] at hclen
    rw [List.length_append, List.length_map] at hclen
    have hjunk : junk = [] := List.eq_nil_of_length_eq_zero (by omega)
    simpa [hjunk] using hch
  have hins := insertChild_eq hL hlen q
  rw [hidx, ← hchildren] at hins
  have hcslen : (cs₁ ++ q :: cs₂).length = tree.layout.maxKeys + 2 := by
    rw [List.length_append, List.length_cons]
    rw [List.length_append] at hlen
    omega
  generalize cs₁ ++ q :: cs₂ = cs at hins hcslen hnode hright hnodup hlive ⊢
  have hall : (cs.drop (tree.layout.mid + 1)).length = tree.layout.rightCount + 1 := by
    rw [List.length_drop]; omega
  have hlc : copySlots n.children 0 (cs.map some) 0 (tree.layout.leftCount + 1)
      = .ok ((cs.take (tree.layout.mid + 1)).map some
        ++ n.children.drop (tree.layout.mid + 1)) := by
    rw [copySlots_front (by simp; omega) (by omega), hleft, List.map_take]
    rfl
  have hrc : copySlots r.children 0 (cs.map some) tree.layout.rightStart
      (tree.layout.rightCount + 1) = .ok ((cs.drop (tree.layout.mid + 1)).map some
        ++ r.children.drop (tree.layout.rightCount + 1)) := by
    rw [copySlots_front (by simp; omega) (by omega), hstart, ← List.map_drop,
      List.take_of_length_le (by rw [List.length_map, hall])]
  let n' : BtreeNode K := { n with
    children := (cs.take (tree.layout.mid + 1)).map some
      ++ n.children.drop (tree.layout.mid + 1) }
  let r' : BtreeNode K := { r with
    children := (cs.drop (tree.layout.mid + 1)).map some
      ++ r.children.drop (tree.layout.rightCount + 1) }
  have hnsize := Heap.lt_size_of_get hget
  have hrsize := Heap.lt_size_of_get hr
  have hr₁ : (H.put node (some n')).get right = some r := by
    rw [Heap.get_put_ne hne]; exact hr
  have hr₂ : ((H.put node (some n')).put right (some r')).get right = some r' :=
    Heap.get_put_self (by simpa using hrsize) _
  have hsame₂ : ∀ a, a ≠ node → a ≠ right →
      ((H.put node (some n')).put right (some r')).get a = H.get a := by
    intro a hna hra
    rw [Heap.get_put_ne hra, Heap.get_put_ne hna]
  obtain ⟨H', hrun, hsize, hset, hsame⟩ := runs_adoptChildren
    (cs.drop (tree.layout.mid + 1)) 0 hr₂
    (fun i hi => by
      show (List.map some _ ++ _)[0 + i]? = _
      rw [Nat.zero_add, List.getElem?_append_left (by simpa using hi), List.getElem?_map])
    hright hnodup
    (fun c hcs => by
      rw [hsame₂ c (fun heq => hnode (heq ▸ hcs)) (fun heq => hright (heq ▸ hcs))]
      exact hlive c hcs)
  rw [hall] at hrun
  refine ⟨H', n', r', ?_, by simpa using hsize, ?_, ?_, ?_, ?_, ?_, ?_⟩
  · refine Runs.bind (Runs.load hr) (Runs.ite_neg (by simp [hrep.leaf_eq]) ?_)
    refine Runs.bind (Runs.load hget) (Runs.bind (Runs.lift hins H) ?_)
    refine Runs.bind (Runs.lift hlc H) (Runs.bind (Runs.store hget n') ?_)
    refine Runs.bind (Runs.lift hrc _) (Runs.bind (Runs.store hr₁ r') ?_)
    exact hrun
  · rw [hsame node hnode, Heap.get_put_ne (Ne.symm hne), Heap.get_put_self hnsize]
  · refine ⟨hn.parent_eq, hn.leaf_eq, hn.count_eq, hn.keys_eq, hn.offsets_eq, ⟨_, rfl⟩,
      hn.keys_len, hn.offsets_len, ?_⟩
    show (List.map _ _ ++ _).length = _
    rw [List.length_append, List.length_map, List.length_take, List.length_drop]
    omega
  · rw [hsame right hright]
    exact hr₂
  · refine ⟨hrep.parent_eq, hrep.leaf_eq, hrep.count_eq, hrep.keys_eq, hrep.offsets_eq,
      ⟨_, rfl⟩, hrep.keys_len, hrep.offsets_len, ?_⟩
    show (List.map _ _ ++ _).length = _
    rw [List.length_append, List.length_map, hall, List.length_drop]
    omega
  · intro a ha
    rw [hset a ha, hsame₂ a (fun heq => hnode (heq ▸ ha)) (fun heq => hright (heq ▸ ha))]
  · intro a ha hna hra
    rw [hsame a ha, hsame₂ a hna hra]

end Splits

/-! ## Fresh nodes -/

theorem flagIsLeaf_zero : flagIsLeaf 0 = false := by decide

theorem flagIsLeaf_leaf : flagIsLeaf btreeNodeLeaf = true := by decide

section Fresh

variable [Inhabited K] {L : BtreeLayout} (hL : L.Sound) {H : Heap (BtreeNode K)}
  {k : K} {v : FileOffset}

include hL

/-- The first entry of a tree makes a leaf of its own. -/
theorem runs_createLeaf (H : Heap (BtreeNode K)) (k : K) (v : FileOffset) :
    ∃ H' n', Runs (createLeaf L k v) H H.size H' ∧ H'.size = H.size + 1 ∧
      H'.get H.size = some n' ∧ NodeRep L n' true none [(k, v)] [] ∧
      ∀ a, a ≠ H.size → H'.get a = H.get a := by
  have hthree := hL.three_le
  obtain ⟨m, hm⟩ : ∃ m, L.maxKeys = m + 1 := ⟨L.maxKeys - 1, by omega⟩
  have hnew := Heap.get_push_self H (zeroNode (K := K) L)
  have hk : writeAt (zeroNode (K := K) L).keys 0 k = .ok (k :: List.replicate m default) := by
    simp [zeroNode, hm, writeAt, List.replicate_succ]
  have ho : writeAt (zeroNode (K := K) L).offsets 0 v = .ok (v :: List.replicate m 0) := by
    simp [zeroNode, hm, writeAt, List.replicate_succ]
  let n' : BtreeNode K := { zeroNode (K := K) L with
    parent := none
    keys := k :: List.replicate m default
    keyCount := 1
    offsets := v :: List.replicate m 0
    flags := btreeNodeLeaf }
  refine ⟨(H.push (zeroNode L)).put H.size (some n'), n', ?_, by simp, ?_, ?_, ?_⟩
  · refine Runs.bind (Runs.alloc H _) (Runs.bind (Runs.load hnew) ?_)
    refine Runs.bind (Runs.lift hk _) (Runs.bind (Runs.lift ho _) ?_)
    exact Runs.bind (Runs.store hnew n') (Runs.pure _ _)
  · exact Heap.get_put_self (by simp) _
  · refine ⟨rfl, flagIsLeaf_leaf, rfl, ⟨_, rfl⟩, ⟨_, rfl⟩, ⟨_, rfl⟩, ?_, ?_, ?_⟩ <;>
      simp [n', zeroNode, hm]
  · intro a ha
    rw [Heap.get_put_ne ha, Heap.get_push_ne ha]

/-- A new root above two halves. -/
theorem runs_createRoot {left right : Addr} {l r : BtreeNode K} (hne : left ≠ right)
    (hl : H.get left = some l) (hr : H.get right = some r) (k : K) (v : FileOffset) :
    ∃ H' n', Runs (createRoot L left right k v) H H.size H' ∧ H'.size = H.size + 1 ∧
      H'.get H.size = some n' ∧ NodeRep L n' false none [(k, v)] [left, right] ∧
      H'.get left = some { l with parent := some H.size } ∧
      H'.get right = some { r with parent := some H.size } ∧
      ∀ a, a ≠ H.size → a ≠ left → a ≠ right → H'.get a = H.get a := by
  have hthree := hL.three_le
  have hchild := hL.childCount_eq
  obtain ⟨m, hm⟩ : ∃ m, L.maxKeys = m + 1 := ⟨L.maxKeys - 1, by omega⟩
  have hnew := Heap.get_push_self H (zeroNode (K := K) L)
  have hc₁ : writeAt (zeroNode (K := K) L).children 0 (some left)
      = .ok (some left :: none :: List.replicate m none) := by
    simp [zeroNode, hchild, hm, writeAt, List.replicate_succ]
  have hc₂ : writeAt (some left :: none :: List.replicate m none) 1 (some right)
      = .ok (some left :: some right :: List.replicate m none) := by
    simp [writeAt]
  have hk : writeAt (zeroNode (K := K) L).keys 0 k = .ok (k :: List.replicate m default) := by
    simp [zeroNode, hm, writeAt, List.replicate_succ]
  have ho : writeAt (zeroNode (K := K) L).offsets 0 v = .ok (v :: List.replicate m 0) := by
    simp [zeroNode, hm, writeAt, List.replicate_succ]
  let n' : BtreeNode K :=
    { parent := none
      children := some left :: some right :: List.replicate m none
      flags := 0
      keyCount := 1
      keys := k :: List.replicate m default
      offsets := v :: List.replicate m 0 }
  let H₁ := (H.push (zeroNode L)).put H.size (some n')
  have hleft := Heap.lt_size_of_get hl
  have hright := Heap.lt_size_of_get hr
  have hsame₁ : ∀ a, a ≠ H.size → H₁.get a = H.get a := fun a ha => by
    rw [Heap.get_put_ne ha, Heap.get_push_ne ha]
  have hl₁ : H₁.get left = some l := by rw [hsame₁ left (Nat.ne_of_lt hleft), hl]
  obtain ⟨H₂, hrun₂, hsize₂, hset₂, hsame₂⟩ := runs_setParent hl₁ (some H.size)
  have hr₂ : H₂.get right = some r := by
    rw [hsame₂ right (by simpa using Ne.symm hne), hsame₁ right (Nat.ne_of_lt hright), hr]
  obtain ⟨H₃, hrun₃, hsize₃, hset₃, hsame₃⟩ := runs_setParent hr₂ (some H.size)
  refine ⟨H₃, n', ?_, ?_, ?_, ?_, ?_, ?_, ?_⟩
  · refine Runs.bind (Runs.alloc H _) (Runs.bind (Runs.load hnew) ?_)
    refine Runs.bind (Runs.lift hc₁ _) (Runs.bind (Runs.lift hc₂ _) ?_)
    refine Runs.bind (Runs.lift hk _) (Runs.bind (Runs.lift ho _) ?_)
    refine Runs.bind (Runs.store hnew n') (Runs.bind hrun₂ (Runs.bind hrun₃ ?_))
    exact Runs.pure _ _
  · rw [hsize₃, hsize₂]
    simp [H₁]
  · have hne₁ : H.size ∉ [right] := by simpa using Nat.ne_of_gt hright
    have hne₂ : H.size ∉ [left] := by simpa using Nat.ne_of_gt hleft
    rw [hsame₃ _ hne₁, hsame₂ _ hne₂]
    exact Heap.get_put_self (by simp) _
  · refine ⟨rfl, flagIsLeaf_zero, rfl, ⟨_, rfl⟩, ⟨_, rfl⟩, ⟨_, rfl⟩, ?_, ?_, ?_⟩ <;>
      simp [n', hm, hchild]
  · rw [hsame₃ left (by simpa using hne), hset₂ left (by simp), hl₁]
    rfl
  · rw [hset₃ right (by simp), hr₂]
    rfl
  · intro a ha hla hra
    rw [hsame₃ a (by simpa using hra), hsame₂ a (by simpa using hla), hsame₁ a ha]

end Fresh

end Maxql.Index
