import Maxql.Index.BtreeInsert

/-!
# Insertion into the tree

The source finds the leaf, puts the entry there and walks up the parent
pointers for as long as a node splits.  `insertAtLeaf_spec` is an induction on
the height instead: run from the leaf below a subtree, the program either ends
inside the subtree, or it arrives at the root of the subtree with the two
halves of a split and the separator still to be placed.

The groups are what a change of one child leaves alone, the node whose child
has split, the two halves of a split, the steps of the walk, the induction, and
the root.
-/

namespace Maxql.Index

open Program SortedEntries Multiway

variable {K : Type}

/-! ## One child changes -/

/-- From `H` to `H'`, the cells `old` became the cells `new`: whatever else was
there is still there, and what is new is freshly handed out. -/
structure Grown (H H' : Heap (BtreeNode K)) (old new : List Addr) : Prop where
  size_le : H.size ≤ H'.size
  same : ∀ a, a < H.size → a ∉ old → H'.get a = H.get a
  fresh : ∀ a ∈ new, a ∈ old ∨ H.size ≤ a

section Exchange

variable {tree : Btree K} {H H' : Heap (BtreeNode K)} {h : Nat} {par : Option Addr}
  {lo : Nat} {a : Addr} {es : List (Entry K)} {cs₁ cs₂ ms : List (AddrTree K h)}
  {c : AddrTree K h}

private theorem cons_eq_append (cs₁ cs₂ : List (AddrTree K h)) (c : AddrTree K h) :
    cs₁ ++ c :: cs₂ = cs₁ ++ [c] ++ cs₂ := by simp

/-- The addresses stay apart when one child becomes several. -/
theorem Subtree.nodup_labels_exchange
    (ht : Subtree tree H (h + 1) par lo ⟨a, es, cs₁ ++ c :: cs₂⟩)
    (hg : Grown H H' (labels h c) (ms.flatMap (labels h)))
    (hms : (ms.flatMap (labels h)).Nodup) (es' : List (Entry K)) :
    (labels (h + 1) ⟨a, es', cs₁ ++ ms ++ cs₂⟩).Nodup := by
  have hnodup := ht.nodup
  have hlt := ht.rep.lt_size
  rw [cons_eq_append, labels_focus] at hnodup hlt
  rw [labels_focus]
  refine nodup_exchange hnodup hms ?_ hlt
  simpa using hg.fresh

/-- A change of one child as a change of the whole. -/
theorem Grown.node (hg : Grown H H' (labels h c) (ms.flatMap (labels h)))
    (es es' : List (Entry K)) (cs₁ cs₂ : List (AddrTree K h)) :
    Grown H H' (labels (h + 1) ⟨a, es, cs₁ ++ c :: cs₂⟩)
      (labels (h + 1) ⟨a, es', cs₁ ++ ms ++ cs₂⟩) := by
  refine ⟨hg.size_le, fun b hb hnot => hg.same b hb fun hmem => hnot ?_, fun b hb => ?_⟩
  · rw [cons_eq_append, labels_focus]
    simp [hmem]
  · rw [labels_focus] at hb
    rw [cons_eq_append, labels_focus]
    rcases List.mem_append.1 hb with hb | hb
    · rcases List.mem_append.1 hb with hb | hb
      · exact Or.inl (List.mem_append_left _ (List.mem_append_left _ hb))
      · rcases hg.fresh b hb with hold | hge
        · exact Or.inl (by simp [hold])
        · exact Or.inr hge
    · exact Or.inl (List.mem_append_right _ hb)

theorem Grown.trans {H'' : Heap (BtreeNode K)} {old mid new : List Addr}
    (h₁ : Grown H H' old mid) (h₂ : Grown H' H'' mid new) : Grown H H'' old new := by
  refine ⟨Nat.le_trans h₁.size_le h₂.size_le, fun b hb hnot => ?_, fun b hb => ?_⟩
  · have hnot' : b ∉ mid := fun hmid => by
      rcases h₁.fresh b hmid with hold | hge
      · exact hnot hold
      · exact absurd hb (by omega)
    rw [h₂.same b (Nat.lt_of_lt_of_le hb h₁.size_le) hnot', h₁.same b hb hnot]
  · rcases h₂.fresh b hb with hmid | hge
    · exact h₁.fresh b hmid
    · exact Or.inr (Nat.le_trans h₁.size_le hge)

/-- The root above a changed child is as before. -/
theorem Subtree.same_root
    (ht : Subtree tree H (h + 1) par lo ⟨a, es, cs₁ ++ c :: cs₂⟩) {new : List Addr}
    (hg : Grown H H' (labels h c) new) : H'.get a = H.get a := by
  have hnodup := ht.nodup
  rw [cons_eq_append, labels_focus] at hnodup
  refine hg.same a (ht.rep.lt_size a (label_mem_labels (h + 1) _)) fun hmem => ?_
  have hnot := (List.nodup_cons.1 hnodup).1
  exact hnot (by simp [hmem])

/-- The children next to a changed child are as before. -/
theorem Subtree.same_sibling
    (ht : Subtree tree H (h + 1) par lo ⟨a, es, cs₁ ++ c :: cs₂⟩) {new : List Addr}
    (hg : Grown H H' (labels h c) new) {d : AddrTree K h} (hd : d ∈ cs₁ ++ cs₂) :
    Rep tree.layout H' h (some a) d := by
  have hmem : d ∈ cs₁ ++ c :: cs₂ := by
    rcases List.mem_append.1 hd with hd | hd
    · exact List.mem_append_left _ hd
    · exact List.mem_append_right _ (List.mem_cons_of_mem _ hd)
  have hrep := ht.rep.child hmem
  refine hrep.frame fun b hb => hg.same b (hrep.lt_size b hb) fun hbc => ?_
  have hnodup := ht.nodup
  rw [cons_eq_append, labels_focus] at hnodup
  obtain ⟨hleft, _, hdis⟩ := List.nodup_append.1 hnodup
  obtain ⟨_, _, hdis'⟩ := List.nodup_append.1 hleft
  have hbc' : b ∈ [c].flatMap (labels h) := by simpa using hbc
  have hbd : ∀ {ds : List (AddrTree K h)}, d ∈ ds → b ∈ ds.flatMap (labels h) :=
    fun hds => List.mem_flatMap.2 ⟨d, hds, hb⟩
  rcases List.mem_append.1 hd with hd | hd
  · exact hdis' b (List.mem_cons_of_mem _ (hbd hd)) b hbc' rfl
  · exact hdis b (List.mem_append_right _ hbc') b (hbd hd) rfl

end Exchange

/-! ## A node whose child has split -/

/-- The child at `cs₁.length` of the node `a` has split into `c₁` and `c₂`, and the
node holds neither the separator `e` nor the address of `c₂` yet. -/
structure Pending (L : BtreeLayout) (H : Heap (BtreeNode K)) (h : Nat)
    (par : Option Addr) (a : Addr) (es₁ : List (Entry K)) (e : Entry K)
    (es₂ : List (Entry K)) (cs₁ : List (AddrTree K h)) (c₁ c₂ : AddrTree K h)
    (cs₂ : List (AddrTree K h)) : Prop where
  root : ∃ n, H.get a = some n ∧
    NodeRep L n false par (es₁ ++ es₂) ((cs₁ ++ c₁ :: cs₂).map Node.label)
  children : ∀ d ∈ cs₁ ++ c₁ :: c₂ :: cs₂, Rep L H h (some a) d
  nodup : (labels (h + 1) ⟨a, es₁ ++ e :: es₂, cs₁ ++ c₁ :: c₂ :: cs₂⟩).Nodup
  left_len : cs₁.length = es₁.length
  right_len : cs₂.length = es₂.length

section Pending

theorem Pending.lt_size {L : BtreeLayout} {H : Heap (BtreeNode K)} {h : Nat}
    {par : Option Addr} {a : Addr} {es₁ es₂ : List (Entry K)} {e : Entry K}
    {cs₁ cs₂ : List (AddrTree K h)} {c₁ c₂ : AddrTree K h}
    (hp : Pending L H h par a es₁ e es₂ cs₁ c₁ c₂ cs₂) :
    ∀ b ∈ labels (h + 1) ⟨a, es₁ ++ e :: es₂, cs₁ ++ c₁ :: c₂ :: cs₂⟩, b < H.size := by
  intro b hb
  rcases List.mem_cons.1 hb with rfl | hb
  · obtain ⟨n, hget, _⟩ := hp.root
    exact Heap.lt_size_of_get hget
  · obtain ⟨d, hd, hb⟩ := List.mem_flatMap.1 hb
    exact (hp.children d hd).lt_size b hb

theorem Pending.frame {L : BtreeLayout} {H H' : Heap (BtreeNode K)} {h : Nat}
    {par : Option Addr} {a : Addr} {es₁ es₂ : List (Entry K)} {e : Entry K}
    {cs₁ cs₂ : List (AddrTree K h)} {c₁ c₂ : AddrTree K h}
    (hp : Pending L H h par a es₁ e es₂ cs₁ c₁ c₂ cs₂)
    (hsame : ∀ b ∈ labels (h + 1) ⟨a, es₁ ++ e :: es₂, cs₁ ++ c₁ :: c₂ :: cs₂⟩,
      H'.get b = H.get b) : Pending L H' h par a es₁ e es₂ cs₁ c₁ c₂ cs₂ := by
  obtain ⟨n, hget, hn⟩ := hp.root
  refine ⟨⟨n, (hsame a List.mem_cons_self).trans hget, hn⟩, fun d hd => ?_, hp.nodup,
    hp.left_len, hp.right_len⟩
  refine (hp.children d hd).frame fun b hb => hsame b ?_
  exact List.mem_cons_of_mem _ (List.mem_flatMap.2 ⟨d, hd, hb⟩)

variable {tree : Btree K} (hL : tree.layout.Sound) (hc : TotalCmp tree.compare)
  {H : Heap (BtreeNode K)} {h : Nat} {par : Option Addr} {a : Addr}
  {es₁ es₂ : List (Entry K)} {e : Entry K} {cs₁ cs₂ : List (AddrTree K h)}
  {c₁ c₂ : AddrTree K h}

include hL hc

/-- A node with a free slot takes the separator and the new child. -/
theorem Pending.room (hp : Pending tree.layout H h par a es₁ e es₂ cs₁ c₁ c₂ cs₂)
    (hbelow : Below tree.compare es₁ e.1) (habove : Above tree.compare es₂ e.1)
    (hroom : (es₁ ++ es₂).length < tree.layout.maxKeys) :
    ∃ H', Runs (insertIntoNode tree a c₂.label e.1 e.2) H true H' ∧
      Rep tree.layout H' (h + 1) par ⟨a, es₁ ++ e :: es₂, cs₁ ++ c₁ :: c₂ :: cs₂⟩ ∧
      H'.size = H.size ∧ ∀ b, b ≠ a → H'.get b = H.get b := by
  obtain ⟨n, hget, hn⟩ := hp.root
  have hmem : c₂ ∈ cs₁ ++ c₁ :: c₂ :: cs₂ := by simp
  have hnot : a ∉ (cs₁ ++ c₁ :: c₂ :: cs₂).flatMap (labels h) :=
    (List.nodup_cons.1 hp.nodup).1
  have hne : c₂.label ≠ a := fun heq =>
    hnot (List.mem_flatMap.2 ⟨c₂, hmem, heq ▸ label_mem_labels h c₂⟩)
  obtain ⟨m, hm, hpar⟩ := (hp.children c₂ hmem).parent
  have hn' : NodeRep tree.layout n false par (es₁ ++ es₂)
      ((cs₁ ++ [c₁]).map Node.label ++ cs₂.map Node.label) := by
    simpa using hn
  obtain ⟨H', n', hrun, hsize, hget', hrep, hq, hsame⟩ := runs_insertIntoNode
    (k := e.1) (v := e.2) hL hc hget hn' hbelow habove
    (by simp [hp.left_len]) (by simp [hp.right_len]) hroom hne hm
  -- the new child already points to this node
  have hm' : { m with parent := some a } = m := by rw [← hpar]
  have hframe : ∀ b, b ≠ a → H'.get b = H.get b := by
    intro b hb
    by_cases hbq : b = c₂.label
    · rw [hbq, hq, hm', hm]
    · exact hsame b hb hbq
  refine ⟨H', hrun, ⟨⟨n', hget', ?_⟩, fun d hd => ?_⟩, hsize, hframe⟩
  · simpa [childAddrs] using hrep
  · refine (hp.children d hd).frame fun b hb => hframe b fun heq => ?_
    exact hnot (List.mem_flatMap.2 ⟨d, hd, heq ▸ hb⟩)

/-- A full node is split, with the separator and the new child among the rest. -/
theorem Pending.split (hp : Pending tree.layout H h par a es₁ e es₂ cs₁ c₁ c₂ cs₂)
    (hbelow : Below tree.compare es₁ e.1) (habove : Above tree.compare es₂ e.1)
    (hfull : (es₁ ++ es₂).length = tree.layout.maxKeys) {q : Addr} {r : BtreeNode K}
    (hq : q ∉ labels (h + 1) ⟨a, es₁ ++ e :: es₂, cs₁ ++ c₁ :: c₂ :: cs₂⟩)
    (hr : H.get q = some r) (hrk : r.keys.length = tree.layout.maxKeys)
    (hro : r.offsets.length = tree.layout.maxKeys)
    (hrc : r.children.length = tree.layout.childCount)
    {tmpKeys : List K} {tmpOffsets : List FileOffset}
    (htk : tmpKeys.length = tree.layout.maxKeys + 1)
    (hto : tmpOffsets.length = tree.layout.maxKeys + 1) :
    ∃ H', Runs (splitNode tree a q e.1 e.2 tmpKeys tmpOffsets (some c₂.label)) H
        ((es₁ ++ e :: es₂).map Prod.fst, (es₁ ++ e :: es₂).map Prod.snd) H' ∧
      Rep tree.layout H' (h + 1) par (leftHalf tree.layout.mid
        ⟨a, es₁ ++ e :: es₂, cs₁ ++ c₁ :: c₂ :: cs₂⟩) ∧
      Rep tree.layout H' (h + 1) par (rightHalf tree.layout.mid q
        ⟨a, es₁ ++ e :: es₂, cs₁ ++ c₁ :: c₂ :: cs₂⟩) ∧
      H'.size = H.size ∧
      ∀ b, b ∉ labels (h + 1) ⟨a, es₁ ++ e :: es₂, cs₁ ++ c₁ :: c₂ :: cs₂⟩ → b ≠ q →
        H'.get b = H.get b := by
  obtain ⟨n, hget, hn⟩ := hp.root
  have hnodup := hp.nodup
  have hchildren := hp.children
  have hqa : q ≠ a := fun heq => hq (heq ▸ label_mem_labels (h + 1) _)
  have hcsplit : (cs₁ ++ c₁ :: cs₂).map Node.label
      = (cs₁ ++ [c₁]).map Node.label ++ cs₂.map Node.label := by simp
  have hcs : (cs₁ ++ [c₁]).map Node.label ++ c₂.label :: cs₂.map Node.label
      = (cs₁ ++ c₁ :: c₂ :: cs₂).map Node.label := by simp
  obtain ⟨n₁, r₁, hrun₁, hn₁, hr₁⟩ := runs_splitEntries (k := e.1) (v := e.2) hL hc hqa hget
    hn hfull hr hrk hro hrc htk hto hbelow habove
  have hgetn₁ : ((H.put a (some n₁)).put q (some r₁)).get a = some n₁ := by
    rw [Heap.get_put_ne hqa.symm, Heap.get_put_self (Heap.lt_size_of_get hget)]
  have hgetr₁ : ((H.put a (some n₁)).put q (some r₁)).get q = some r₁ :=
    Heap.get_put_self (by simpa using Heap.lt_size_of_get hr) _
  have hframe₁ : ∀ b, b ≠ a → b ≠ q →
      ((H.put a (some n₁)).put q (some r₁)).get b = H.get b := fun b hba hbq => by
    rw [Heap.get_put_ne hbq, Heap.get_put_ne hba]
  rw [hcsplit] at hn₁
  generalize hcsg : cs₁ ++ c₁ :: c₂ :: cs₂ = cs at *
  obtain ⟨hnot, hflat⟩ := List.nodup_cons.1 hnodup
  have hroots := roots_sublist_labels (cs.drop (tree.layout.mid + 1))
  have hdrop : (cs.map Node.label).drop (tree.layout.mid + 1)
      = (cs.drop (tree.layout.mid + 1)).map Node.label := List.map_drop.symm
  have hhalves : ((cs.take (tree.layout.mid + 1)).flatMap (labels h)
      ++ (cs.drop (tree.layout.mid + 1)).flatMap (labels h)).Nodup := by
    rwa [← List.flatMap_append, List.take_append_drop]
  have hdropflat : (cs.drop (tree.layout.mid + 1)).flatMap (labels h)
      ⊆ cs.flatMap (labels h) := fun b hb => by
    obtain ⟨d, hd, hb⟩ := List.mem_flatMap.1 hb
    exact List.mem_flatMap.2 ⟨d, List.mem_of_mem_drop hd, hb⟩
  have hqflat : q ∉ cs.flatMap (labels h) := fun hmem => hq (List.mem_cons_of_mem _ hmem)
  have hlen : ((cs₁ ++ [c₁]).map Node.label ++ cs₂.map Node.label).length
      = tree.layout.maxKeys + 1 := by
    have hl := hp.left_len
    have hr' := hp.right_len
    simp only [List.length_append, List.length_map, List.length_cons, List.length_nil] at hfull ⊢
    omega
  have hmoved : ∀ b ∈ (cs.drop (tree.layout.mid + 1)).map Node.label,
      b ∈ cs.flatMap (labels h) := fun b hb => hdropflat (hroots.subset hb)
  have hlive : ∀ b ∈ (cs.drop (tree.layout.mid + 1)).map Node.label,
      (((H.put a (some n₁)).put q (some r₁)).get b).isSome := by
    intro b hb
    have hbflat := hmoved b hb
    rw [hframe₁ b (fun heq => hnot (heq ▸ hbflat)) (fun heq => hqflat (heq ▸ hbflat))]
    obtain ⟨d, hd, rfl⟩ := List.mem_map.1 hb
    obtain ⟨m, hm, _⟩ := (hchildren d (List.mem_of_mem_drop hd)).parent
    rw [hm]
    rfl
  have hrootsnodup : ((cs.drop (tree.layout.mid + 1)).map Node.label).Nodup :=
    (List.nodup_append.1 hhalves).2.1.sublist hroots
  obtain ⟨H', n₂, r₂, hrun₂, hsize₂, hget₂, hn₂, hgetr₂, hr₂, hadopt, hframe₂⟩ :=
    runs_splitChildren hL ((cs₁ ++ [c₁]).map Node.label) (cs₂.map Node.label) c₂.label
      es₁.length hqa hgetn₁ hn₁ hlen (by simp [hp.left_len])
      hgetr₁ hr₁
      (by rw [hcs, hdrop]; exact fun hmem => hnot (hmoved a hmem))
      (by rw [hcs, hdrop]; exact fun hmem => hqflat (hmoved q hmem))
      (by rw [hcs, hdrop]; exact hrootsnodup)
      (by rw [hcs, hdrop]; exact hlive)
  rw [hcs, hdrop] at hadopt hframe₂
  rw [hcs] at hn₂ hr₂
  have hold : ∀ b, b ∈ cs.flatMap (labels h) →
      ((H.put a (some n₁)).put q (some r₁)).get b = H.get b := fun b hb =>
    hframe₁ b (fun heq => hnot (heq ▸ hb)) fun heq => hqflat (heq ▸ hb)
  have hkept : ∀ b, b ∈ cs.flatMap (labels h) →
      b ∉ (cs.drop (tree.layout.mid + 1)).map Node.label → H'.get b = H.get b := by
    intro b hb hnotroot
    rw [hframe₂ b hnotroot (fun heq => hnot (heq ▸ hb)) fun heq => hqflat (heq ▸ hb),
      hold b hb]
  refine ⟨H', ?_, ⟨⟨n₂, hget₂, ?_⟩, ?_⟩, ⟨⟨r₂, hgetr₂, ?_⟩, ?_⟩, by simpa using hsize₂, ?_⟩
  · exact Runs.bind hrun₁ (Runs.bind hrun₂ (Runs.pure _ _))
  · simpa [childAddrs, leftHalf] using hn₂
  · -- the children that stay are not among the adopted ones
    intro d hd
    have hdcs : d ∈ cs := List.mem_of_mem_take hd
    refine (hchildren d hdcs).frame fun b hb => ?_
    have hbflat : b ∈ cs.flatMap (labels h) := List.mem_flatMap.2 ⟨d, hdcs, hb⟩
    refine hkept b hbflat fun hbroot => ?_
    exact (List.nodup_append.1 hhalves).2.2 b (List.mem_flatMap.2 ⟨d, hd, hb⟩) b
      (hroots.subset hbroot) rfl
  · simpa [childAddrs, rightHalf] using hr₂
  · -- the adopted children change their parent only
    intro d hd
    have hdcs : d ∈ cs := List.mem_of_mem_drop hd
    have hdroot : d.label ∈ (cs.drop (tree.layout.mid + 1)).map Node.label :=
      List.mem_map_of_mem hd
    have hdlabels := (List.nodup_flatMap.1 hflat).1 d hdcs
    refine (hchildren d hdcs).adopted ?_ (fun b hb hne => ?_) hdlabels
    · rw [hadopt d.label hdroot, hold d.label (hmoved _ hdroot)]
      rfl
    · refine hkept b (List.mem_flatMap.2 ⟨d, hdcs, hb⟩) fun hbroot => hne ?_
      obtain ⟨d', hd', hbd'⟩ := List.mem_map.1 hbroot
      have heq := eq_of_mem_labels hflat hdcs (List.mem_of_mem_drop hd') hb
        (hbd' ▸ label_mem_labels h d')
      rw [heq, hbd']
  · intro b hb hbq
    have hba : b ≠ a := fun heq => hb (heq ▸ label_mem_labels (h + 1) _)
    rw [hframe₂ b (fun hmem => hb (List.mem_cons_of_mem _ (hmoved b hmem))) hba hbq,
      hframe₁ b hba hbq]

end Pending

/-! ## The two halves of a split -/

/-- The cells `old` of `H` became the two trees `t₁` and `t₂` of `H'`, which together
with the entry `e` between them read `entries`. -/
structure Halves (tree : Btree K) (H H' : Heap (BtreeNode K)) (h : Nat)
    (par : Option Addr) (old : List Addr) (entries : List (Entry K))
    (t₁ t₂ : AddrTree K h) (e : Entry K) : Prop where
  left : Subtree tree H' h par tree.layout.minKeys t₁
  right : Subtree tree H' h par tree.layout.minKeys t₂
  nodup : (labels h t₁ ++ labels h t₂).Nodup
  toList_eq : toList h t₁ ++ e :: toList h t₂ = entries
  grown : Grown H H' old (labels h t₁ ++ labels h t₂)

/-- A tree with one entry too many at its root, cut in the middle. -/
theorem Halves.of_overfull {tree : Btree K} (hL : tree.layout.Sound)
    {H H' : Heap (BtreeNode K)} {h : Nat} {par : Option Addr} {old : List Addr}
    {t : AddrTree K h} {q : Addr} {e : Entry K}
    (hlen : t.entries.length = tree.layout.maxKeys + 1)
    (hfit : ChildrenFit tree.layout.minKeys tree.layout.maxKeys h t)
    (hasc : Ascending tree.compare (toList h t)) (hnodup : (labels h t).Nodup)
    (hq : q ∉ labels h t) (he : t.entries[tree.layout.mid]? = some e)
    (hl : Rep tree.layout H' h par (leftHalf tree.layout.mid t))
    (hr : Rep tree.layout H' h par (rightHalf tree.layout.mid q t))
    (hg : Grown H H' old (q :: labels h t)) :
    Halves tree H H' h par old (toList h t) (leftHalf tree.layout.mid t)
      (rightHalf tree.layout.mid q t) e := by
  have hthree := hL.three_le
  have hmid := hL.mid_eq
  have hmin := hL.minKeys_eq
  have htoList := toList_halves q he hfit
  have hperm := labels_halves t tree.layout.mid q
  obtain ⟨hfitl, hfitr⟩ := childrenFit_halves q
    (List.getElem?_eq_some_iff.1 he).1 hfit
  have hnodup' : (labels h (leftHalf tree.layout.mid t)
      ++ labels h (rightHalf tree.layout.mid q t)).Nodup :=
    hperm.nodup_iff.2 (List.nodup_cons.2 ⟨hq, hnodup⟩)
  have hasc' := hasc
  rw [← htoList] at hasc'
  obtain ⟨hascl, hascr, _⟩ := ascending_append.1 hasc'
  have hlenl : (leftHalf tree.layout.mid t).entries.length = tree.layout.mid := by
    simp only [leftHalf, List.length_take]; omega
  have hlenr : (rightHalf tree.layout.mid q t).entries.length
      = tree.layout.maxKeys - tree.layout.mid := by
    simp only [rightHalf, List.length_drop]; omega
  obtain ⟨hnl, hnr, _⟩ := List.nodup_append.1 hnodup'
  refine ⟨⟨hl, hnl, fits_iff.2 ⟨by omega, by omega, hfitl⟩, hascl⟩,
    ⟨hr, hnr, fits_iff.2 ⟨by omega, by omega, hfitr⟩, (ascending_cons.1 hascr).2⟩,
    hnodup', htoList, hg.size_le, hg.same, fun b hb => hg.fresh b (hperm.subset hb)⟩

/-! ## The steps of the walk -/

section Walk

variable [Inhabited K] {tree : Btree K} {H H' : Heap (BtreeNode K)} {root node right p : Addr}
  {n : BtreeNode K} {es : List (Entry K)} {e : Entry K} {b : Addr}

/-- Below a parent, the separator goes to the parent. -/
theorem runs_placeSeparator (he : es[tree.layout.mid]? = some e)
    (hget : H.get node = some n) (hpar : n.parent = some p) {placed : Bool}
    (hins : Runs (insertIntoNode tree p right e.1 e.2) H placed H') :
    Runs (placeSeparator tree root node right (es.map Prod.fst) (es.map Prod.snd)) H
      (if placed then some root else none) H' := by
  have hk : readAt (es.map Prod.fst) tree.layout.mid = .ok e.1 := readAt_map he Prod.fst
  have ho : readAt (es.map Prod.snd) tree.layout.mid = .ok e.2 := readAt_map he Prod.snd
  refine Runs.bind (Runs.lift hk H) (Runs.bind (Runs.lift ho H) ?_)
  refine Runs.bind (Runs.load hget) ?_
  rw [hpar]
  exact Runs.bind hins (Runs.pure _ _)

/-- Without a parent, the separator makes a new root. -/
theorem runs_placeSeparator_root (he : es[tree.layout.mid]? = some e)
    (hget : H.get node = some n) (hpar : n.parent = none)
    (hroot : Runs (createRoot tree.layout node right e.1 e.2) H b H') :
    Runs (placeSeparator tree root node right (es.map Prod.fst) (es.map Prod.snd)) H
      (some b) H' := by
  have hk : readAt (es.map Prod.fst) tree.layout.mid = .ok e.1 := readAt_map he Prod.fst
  have ho : readAt (es.map Prod.snd) tree.layout.mid = .ok e.2 := readAt_map he Prod.snd
  refine Runs.bind (Runs.lift hk H) (Runs.bind (Runs.lift ho H) ?_)
  refine Runs.bind (Runs.load hget) ?_
  rw [hpar]
  exact Runs.bind hroot (Runs.pure _ _)

theorem runs_placeOrSplit_done {tmpKeys : List K} {tmpOffsets : List FileOffset}
    (hplace : Runs (placeSeparator tree root node right tmpKeys tmpOffsets) H (some b) H')
    (fuel : Nat) :
    Runs (placeOrSplit tree root fuel node right tmpKeys tmpOffsets) H b H' :=
  Runs.bind hplace (Runs.pure _ _)

/-- Below a full parent, the parent is split and its separator is placed next. -/
theorem runs_placeOrSplit_full {H'' : Heap (BtreeNode K)} {es' : List (Entry K)} {fuel : Nat}
    (he : es[tree.layout.mid]? = some e) (hget : H.get node = some n)
    (hpar : n.parent = some p) (hins : Runs (insertIntoNode tree p right e.1 e.2) H false H)
    (hsplit : Runs (splitNode tree p H.size e.1 e.2 (es.map Prod.fst) (es.map Prod.snd)
      (some right)) (H.push (zeroNode tree.layout))
      (es'.map Prod.fst, es'.map Prod.snd) H')
    (hrest : Runs (placeOrSplit tree root fuel p H.size (es'.map Prod.fst)
      (es'.map Prod.snd)) H' b H'') :
    Runs (placeOrSplit tree root (fuel + 1) node right (es.map Prod.fst)
      (es.map Prod.snd)) H b H'' := by
  have hk : readAt (es.map Prod.fst) tree.layout.mid = .ok e.1 := readAt_map he Prod.fst
  have ho : readAt (es.map Prod.snd) tree.layout.mid = .ok e.2 := readAt_map he Prod.snd
  refine Runs.bind (runs_placeSeparator he hget hpar hins) ?_
  show Runs (splitParents tree root (fuel + 1) node right _ _) H b H''
  refine Runs.bind (Runs.load hget) ?_
  rw [hpar]
  refine Runs.bind (Runs.alloc H _) ?_
  refine Runs.bind (Runs.lift hk _) (Runs.bind (Runs.lift ho _) ?_)
  exact Runs.bind hsplit hrest

end Walk

/-! ## The induction -/

/-- The entry is in: `t` of `H` became `t'` of `H'`. -/
structure Absorbed (tree : Btree K) (H H' : Heap (BtreeNode K)) (h : Nat)
    (par : Option Addr) (lo : Nat) (t t' : AddrTree K h) (k : K) (v : FileOffset) :
    Prop where
  subtree : Subtree tree H' h par lo t'
  label_eq : t'.label = t.label
  toList_eq : toList h t' = insertEntry tree.compare (k, v) (toList h t)
  grown : Grown H H' (labels h t) (labels h t')

section Induction

variable [Inhabited K] {tree : Btree K}

/-- How the insertion `p` goes on from the subtree `t`: it ends there, or `t` has
split and `p` is about to place the separator with `fuel` levels to go. -/
def InsertOutcome (tree : Btree K) (H : Heap (BtreeNode K)) (h : Nat)
    (par : Option Addr) (lo : Nat) (t : AddrTree K h) (k : K) (v : FileOffset)
    (root : Addr) (fuel : Nat) (p : NodeProg K Addr) : Prop :=
  (∃ H' t', Runs p H root H' ∧ Absorbed tree H H' h par lo t t' k v) ∨
  ∃ H' t₁ t₂ e, ∃ es : List (Entry K),
    (∀ b H'', Runs (placeOrSplit tree root fuel t₁.label t₂.label (es.map Prod.fst)
      (es.map Prod.snd)) H' b H'' → Runs p H b H'') ∧
    es[tree.layout.mid]? = some e ∧ es.length = tree.layout.maxKeys + 1 ∧
    t₁.label = t.label ∧
    Halves tree H H' h par (labels h t)
      (insertEntry tree.compare (k, v) (toList h t)) t₁ t₂ e

variable (hL : tree.layout.Sound) (hc : TotalCmp tree.compare) {H H' : Heap (BtreeNode K)}
  {k : K} {v : FileOffset} {par : Option Addr} {lo : Nat} {root : Addr} {fuel : Nat}
  {p : NodeProg K Addr}

include hL hc

/-- At the leaf. -/
theorem insertOutcome_leaf {t : AddrTree K 0} (ht : Subtree tree H 0 par lo t)
    (hk : k ∉ (toList 0 t).map Prod.fst) (root : Addr) (fuel : Nat) :
    InsertOutcome tree H 0 par lo t k v root fuel
      (insertAtLeaf tree root fuel t.label k v) := by
  obtain ⟨a, es, cs⟩ := t
  obtain ⟨es₁, es₂, rfl, h₁, h₂⟩ := exists_split hc ht.asc hk
  obtain ⟨n, hget, hn⟩ := ht.rep
  have hasc := ascending_insertEntry (v := v) hc ht.asc hk
  have hins : insertEntry tree.compare (k, v) (toList 0 (⟨a, es₁ ++ es₂, cs⟩ : AddrTree K 0))
      = toList 0 (⟨a, es₁ ++ (k, v) :: es₂, cs⟩ : AddrTree K 0) := insertEntry_at hc h₁ h₂
  have hsize := Heap.lt_size_of_get hget
  have hlen : (es₁ ++ (k, v) :: es₂).length = (es₁ ++ es₂).length + 1 := by
    simp only [List.length_append, List.length_cons]; omega
  by_cases hroom : (es₁ ++ es₂).length < tree.layout.maxKeys
  · left
    obtain ⟨n', hrun, hn'⟩ := runs_insertIntoLeaf hL hc hget hn h₁ h₂ hroom
    refine ⟨_, ⟨a, es₁ ++ (k, v) :: es₂, cs⟩, Runs.bind hrun (Runs.pure _ _),
      ⟨⟨n', Heap.get_put_self hsize _, hn'⟩, ht.nodup, ?_, hins ▸ hasc⟩, rfl, hins.symm, ?_⟩
    · have hlo := ht.fits.1
      refine ⟨?_, ?_⟩
      · show lo ≤ (es₁ ++ (k, v) :: es₂).length
        exact Nat.le_trans hlo (by rw [hlen]; exact Nat.le_succ _)
      · show (es₁ ++ (k, v) :: es₂).length ≤ _
        omega
    · refine ⟨by simp, fun b _ hb => ?_, fun b hb => Or.inl hb⟩
      exact Heap.get_put_ne (by simpa [labels] using hb) _
  · right
    have hfull : (es₁ ++ es₂).length = tree.layout.maxKeys := by
      have hle : (es₁ ++ es₂).length ≤ tree.layout.maxKeys := hn.count_le
      omega
    let t' : AddrTree K 0 := ⟨a, es₁ ++ (k, v) :: es₂, cs⟩
    have hmid : tree.layout.mid < (es₁ ++ (k, v) :: es₂).length := by
      have := hL.mid_eq
      have := hL.three_le
      omega
    have hne : H.size ≠ a := Nat.ne_of_gt hsize
    have hget' : (H.push (zeroNode tree.layout)).get a = some n := by
      rw [Heap.get_push_ne hne.symm, hget]
    obtain ⟨n', r', hrun, hn', hr'⟩ := runs_splitEntries (v := v) hL hc hne hget' hn hfull
      (Heap.get_push_self H (zeroNode tree.layout)) (by simp [zeroNode]) (by simp [zeroNode])
      (by simp [zeroNode]) (List.length_replicate (n := tree.layout.maxKeys + 1) (a := default))
      (List.length_replicate (n := tree.layout.maxKeys + 1) (a := 0)) h₁ h₂
    have hnewsize : H.size < (H.push (zeroNode (K := K) tree.layout)).size := by simp
    refine ⟨((H.push (zeroNode tree.layout)).put a (some n')).put H.size (some r'),
      leftHalf tree.layout.mid t', rightHalf tree.layout.mid H.size t',
      (es₁ ++ (k, v) :: es₂)[tree.layout.mid], es₁ ++ (k, v) :: es₂, fun b H'' hrest => ?_,
      List.getElem?_eq_getElem hmid, by omega, rfl, ?_⟩
    · refine Runs.bind (runs_insertIntoLeaf_full hget hn hfull) ?_
      have hnone : Runs (splitChildren tree a H.size es₁.length none)
          (((H.push (zeroNode tree.layout)).put a (some n')).put H.size (some r')) ()
          (((H.push (zeroNode tree.layout)).put a (some n')).put H.size (some r')) :=
        runs_splitChildren_leaf (Heap.get_put_self (by simp) _) hr'.leaf_eq _ _
      refine Runs.bind (Runs.alloc H _) ?_
      exact Runs.bind (Runs.bind hrun (Runs.bind hnone (Runs.pure _ _))) hrest
    · rw [hins]
      refine Halves.of_overfull hL (by show (es₁ ++ (k, v) :: es₂).length = _; omega) trivial
        (hins ▸ hasc) ht.nodup
        (by simpa [labels, t'] using hne) (List.getElem?_eq_getElem hmid)
        ⟨n', ?_, hn'⟩ ⟨r', Heap.get_put_self (by simp) _, hr'⟩ ⟨by simp, ?_, ?_⟩
      · show Heap.get _ a = _
        rw [Heap.get_put_ne hne.symm, Heap.get_put_self (by
          rw [Heap.size_push]; exact Nat.lt_succ_of_lt hsize)]
      · intro b hb hnot
        have hba : b ≠ a := by simpa [labels] using hnot
        have hbs : b ≠ H.size := Nat.ne_of_lt hb
        rw [Heap.get_put_ne hbs, Heap.get_put_ne hba, Heap.get_push_ne hbs]
      · intro b hb
        rcases List.mem_cons.1 hb with rfl | hb
        · exact Or.inr (Nat.le_refl _)
        · exact Or.inl hb

variable {h : Nat} {a : Addr} {es₁ es₂ : List (Entry K)} {cs₁ cs₂ : List (AddrTree K h)}
  {c c' c₁ c₂ : AddrTree K h} {e : Entry K}

omit [Inhabited K] hL in
/-- The entry goes in below the child between smaller and greater separators. -/
theorem insertEntry_focus (hk₁ : Below tree.compare es₁ k) (hk₂ : Above tree.compare es₂ k)
    (hcs₁ : cs₁.length = es₁.length) (hcs₂ : cs₂.length = es₂.length)
    (hasc : Ascending tree.compare (toList (h + 1) ⟨a, es₁ ++ es₂, cs₁ ++ c :: cs₂⟩))
    (hk : k ∉ (toList (h + 1) ⟨a, es₁ ++ es₂, cs₁ ++ c :: cs₂⟩).map Prod.fst) :
    insertEntry tree.compare (k, v) (toList (h + 1) ⟨a, es₁ ++ es₂, cs₁ ++ c :: cs₂⟩)
      = weaveLeft es₁ (cs₁.map (toList h))
        ++ insertEntry tree.compare (k, v) (toList h c)
        ++ weaveRight es₂ (cs₂.map (toList h)) := by
  obtain ⟨hl, hr, hascc⟩ := context_bounds hc hcs₁.symm hcs₂.symm hasc hk₁ hk₂
  rw [toList_focus a c hcs₁.symm] at hk ⊢
  refine insertEntry_context hc hascc (fun hmem => hk ?_) hl hr
  rw [List.map_append, List.map_append]
  exact List.mem_append_left _ (List.mem_append_right _ hmem)

omit [Inhabited K] hL in
/-- The child absorbed the entry. -/
theorem Absorbed.step
    (ht : Subtree tree H (h + 1) par lo ⟨a, es₁ ++ es₂, cs₁ ++ c :: cs₂⟩)
    (hk₁ : Below tree.compare es₁ k) (hk₂ : Above tree.compare es₂ k)
    (hcs₁ : cs₁.length = es₁.length) (hcs₂ : cs₂.length = es₂.length)
    (hk : k ∉ (toList (h + 1) ⟨a, es₁ ++ es₂, cs₁ ++ c :: cs₂⟩).map Prod.fst)
    (hc' : Absorbed tree H H' h (some a) tree.layout.minKeys c c' k v) :
    Absorbed tree H H' (h + 1) par lo ⟨a, es₁ ++ es₂, cs₁ ++ c :: cs₂⟩
      ⟨a, es₁ ++ es₂, cs₁ ++ c' :: cs₂⟩ k v := by
  have hins := insertEntry_focus (v := v) hc hk₁ hk₂ hcs₁ hcs₂ ht.asc hk
  have hasc := ascending_insertEntry (v := v) hc ht.asc hk
  have htoList : toList (h + 1) ⟨a, es₁ ++ es₂, cs₁ ++ c' :: cs₂⟩
      = insertEntry tree.compare (k, v)
        (toList (h + 1) ⟨a, es₁ ++ es₂, cs₁ ++ c :: cs₂⟩) := by
    rw [hins, toList_focus a c' hcs₁.symm, hc'.toList_eq]
  have hgrown : Grown H H' (labels h c) ([c'].flatMap (labels h)) := by
    simpa using hc'.grown
  have hnodup := ht.nodup_labels_exchange hgrown (by simpa using hc'.subtree.nodup) (es₁ ++ es₂)
  have hnode := hgrown.node (a := a) (es₁ ++ es₂) (es₁ ++ es₂) cs₁ cs₂
  rw [← cons_eq_append] at hnodup hnode
  refine ⟨⟨⟨?_, ?_⟩, hnodup, ?_, htoList ▸ hasc⟩, rfl, htoList, hnode⟩
  · obtain ⟨n, hget, hn⟩ := ht.rep.root
    refine ⟨n, (ht.same_root hc'.grown).trans hget, ?_⟩
    simpa [childAddrs, hc'.label_eq] using hn
  · intro d hd
    rcases List.mem_append.1 hd with hd | hd
    · exact ht.same_sibling hc'.grown (List.mem_append_left _ hd)
    · rcases List.mem_cons.1 hd with rfl | hd
      · exact hc'.subtree.rep
      · exact ht.same_sibling hc'.grown (List.mem_append_right _ hd)
  · refine ⟨ht.fits.lo_le, ht.fits.le_max, ?_, fun d hd => ?_⟩
    · simpa using ht.fits.children_length
    · rcases List.mem_append.1 hd with hd | hd
      · exact ht.fits.child (List.mem_append_left _ hd)
      · rcases List.mem_cons.1 hd with rfl | hd
        · exact hc'.subtree.fits
        · exact ht.fits.child (List.mem_append_right _ (List.mem_cons_of_mem _ hd))

/-- The node above the two halves of a child, as a tree with the separator in it. -/
structure Widened (tree : Btree K) (H H' : Heap (BtreeNode K)) (h : Nat)
    (par : Option Addr) (a : Addr) (es₁ : List (Entry K)) (e : Entry K)
    (es₂ : List (Entry K)) (cs₁ : List (AddrTree K h)) (c c₁ c₂ : AddrTree K h)
    (cs₂ : List (AddrTree K h)) (k : K) (v : FileOffset) : Prop where
  pending : Pending tree.layout H' h par a es₁ e es₂ cs₁ c₁ c₂ cs₂
  toList_eq : toList (h + 1) ⟨a, es₁ ++ e :: es₂, cs₁ ++ c₁ :: c₂ :: cs₂⟩
    = insertEntry tree.compare (k, v)
      (toList (h + 1) ⟨a, es₁ ++ es₂, cs₁ ++ c :: cs₂⟩)
  fits : ChildrenFit tree.layout.minKeys tree.layout.maxKeys (h + 1)
    ⟨a, es₁ ++ e :: es₂, cs₁ ++ c₁ :: c₂ :: cs₂⟩
  asc : Ascending tree.compare
    (toList (h + 1) ⟨a, es₁ ++ e :: es₂, cs₁ ++ c₁ :: c₂ :: cs₂⟩)
  below : Below tree.compare es₁ e.1
  above : Above tree.compare es₂ e.1
  grown : Grown H H' (labels (h + 1) ⟨a, es₁ ++ es₂, cs₁ ++ c :: cs₂⟩)
    (labels (h + 1) ⟨a, es₁ ++ e :: es₂, cs₁ ++ c₁ :: c₂ :: cs₂⟩)

omit [Inhabited K] hL in
/-- The child split. -/
theorem Halves.widened
    (ht : Subtree tree H (h + 1) par lo ⟨a, es₁ ++ es₂, cs₁ ++ c :: cs₂⟩)
    (hk₁ : Below tree.compare es₁ k) (hk₂ : Above tree.compare es₂ k)
    (hcs₁ : cs₁.length = es₁.length) (hcs₂ : cs₂.length = es₂.length)
    (hk : k ∉ (toList (h + 1) ⟨a, es₁ ++ es₂, cs₁ ++ c :: cs₂⟩).map Prod.fst)
    (hlabel : c₁.label = c.label)
    (hhalves : Halves tree H H' h (some a) (labels h c)
      (insertEntry tree.compare (k, v) (toList h c)) c₁ c₂ e) :
    Widened tree H H' h par a es₁ e es₂ cs₁ c c₁ c₂ cs₂ k v := by
  have hins := insertEntry_focus (v := v) hc hk₁ hk₂ hcs₁ hcs₂ ht.asc hk
  have hasc := ascending_insertEntry (v := v) hc ht.asc hk
  have htoList : toList (h + 1) ⟨a, es₁ ++ e :: es₂, cs₁ ++ c₁ :: c₂ :: cs₂⟩
      = insertEntry tree.compare (k, v)
        (toList (h + 1) ⟨a, es₁ ++ es₂, cs₁ ++ c :: cs₂⟩) := by
    rw [hins, toList_focus_two a c₁ c₂ e hcs₁.symm, hhalves.toList_eq]
  have htwo : cs₁ ++ c₁ :: c₂ :: cs₂ = cs₁ ++ [c₁, c₂] ++ cs₂ := by simp
  have hgrown : Grown H H' (labels h c) ([c₁, c₂].flatMap (labels h)) := by
    simpa using hhalves.grown
  have hnodup := ht.nodup_labels_exchange hgrown (by simpa using hhalves.nodup) (es₁ ++ e :: es₂)
  have hnode := hgrown.node (a := a) (es₁ ++ es₂) (es₁ ++ e :: es₂) cs₁ cs₂
  rw [← htwo] at hnodup hnode
  have hfit : ChildrenFit tree.layout.minKeys tree.layout.maxKeys (h + 1)
      ⟨a, es₁ ++ e :: es₂, cs₁ ++ c₁ :: c₂ :: cs₂⟩ := by
    refine ⟨?_, fun d hd => ?_⟩
    · simp only [List.length_append, List.length_cons]
      omega
    · simp only [List.mem_append, List.mem_cons] at hd
      rcases hd with hd | rfl | rfl | hd
      · exact ht.fits.child (List.mem_append_left _ hd)
      · exact hhalves.left.fits
      · exact hhalves.right.fits
      · exact ht.fits.child (List.mem_append_right _ (List.mem_cons_of_mem _ hd))
  have hentries : Ascending tree.compare (es₁ ++ e :: es₂) :=
    (htoList ▸ hasc).sublist (entries_sublist_toList hfit)
  refine ⟨⟨?_, fun d hd => ?_, hnodup, hcs₁, hcs₂⟩, htoList, hfit, htoList ▸ hasc,
    hentries.split.1, hentries.split.2, hnode⟩
  · obtain ⟨n, hget, hn⟩ := ht.rep.root
    refine ⟨n, (ht.same_root hhalves.grown).trans hget, ?_⟩
    simpa [childAddrs, hlabel] using hn
  · simp only [List.mem_append, List.mem_cons] at hd
    rcases hd with hd | rfl | rfl | hd
    · exact ht.same_sibling hhalves.grown (List.mem_append_left _ hd)
    · exact hhalves.left.rep
    · exact hhalves.right.rep
    · exact ht.same_sibling hhalves.grown (List.mem_append_right _ hd)

/-- One level up. -/
theorem InsertOutcome.step
    (ht : Subtree tree H (h + 1) par lo ⟨a, es₁ ++ es₂, cs₁ ++ c :: cs₂⟩)
    (hk₁ : Below tree.compare es₁ k) (hk₂ : Above tree.compare es₂ k)
    (hcs₁ : cs₁.length = es₁.length) (hcs₂ : cs₂.length = es₂.length)
    (hk : k ∉ (toList (h + 1) ⟨a, es₁ ++ es₂, cs₁ ++ c :: cs₂⟩).map Prod.fst)
    (hout : InsertOutcome tree H h (some a) tree.layout.minKeys c k v root (fuel + 1) p) :
    InsertOutcome tree H (h + 1) par lo ⟨a, es₁ ++ es₂, cs₁ ++ c :: cs₂⟩ k v root fuel p := by
  rcases hout with ⟨H', c', hrun, hc'⟩ | ⟨H', c₁, c₂, e, es, hrest, he, hlen, hlabel, hhalves⟩
  · exact Or.inl ⟨H', _, hrun, Absorbed.step hc ht hk₁ hk₂ hcs₁ hcs₂ hk hc'⟩
  have hw := Halves.widened hc ht hk₁ hk₂ hcs₁ hcs₂ hk hlabel hhalves
  obtain ⟨m, hm, hpar⟩ := hhalves.left.rep.parent
  obtain ⟨n, hget, hn⟩ := hw.pending.root
  have hcount : (es₁ ++ es₂).length ≤ tree.layout.maxKeys := hn.count_le
  have hlo : lo ≤ (es₁ ++ es₂).length := ht.fits.lo_le
  have hlen' : (es₁ ++ e :: es₂).length = (es₁ ++ es₂).length + 1 := by
    simp only [List.length_append, List.length_cons]; omega
  by_cases hroom : (es₁ ++ es₂).length < tree.layout.maxKeys
  · left
    obtain ⟨H'', hins, hrep, hsize, hframe⟩ := hw.pending.room hL hc hw.below hw.above hroom
    refine ⟨H'', _, hrest root H'' ?_, ⟨hrep, hw.pending.nodup, fits_iff.2 ⟨?_, ?_, hw.fits⟩,
      hw.asc⟩, rfl, hw.toList_eq, hw.grown.trans ⟨by rw [hsize], fun b _ hb => ?_,
      fun b hb => Or.inl hb⟩⟩
    · exact runs_placeOrSplit_done (runs_placeSeparator he hm hpar hins) (fuel + 1)
    · show lo ≤ (es₁ ++ e :: es₂).length
      omega
    · show (es₁ ++ e :: es₂).length ≤ _
      omega
    · exact hframe b fun heq => hb (heq ▸ label_mem_labels (h + 1) _)
  · right
    have hfull : (es₁ ++ es₂).length = tree.layout.maxKeys := by omega
    have hmid : tree.layout.mid < (es₁ ++ e :: es₂).length := by
      have := hL.mid_eq
      have := hL.three_le
      omega
    let t : AddrTree K (h + 1) := ⟨a, es₁ ++ e :: es₂, cs₁ ++ c₁ :: c₂ :: cs₂⟩
    have hlt : ∀ b ∈ labels (h + 1) t, b < H'.size := hw.pending.lt_size
    have hfresh : H'.size ∉ labels (h + 1) t := fun hmem => Nat.lt_irrefl _ (hlt _ hmem)
    have hpushed : Pending tree.layout (H'.push (zeroNode tree.layout)) h par a es₁ e es₂ cs₁
        c₁ c₂ cs₂ :=
      hw.pending.frame fun b hb => Heap.get_push_ne (Nat.ne_of_lt (hlt b hb)) _
    obtain ⟨H'', hsplit, hl, hr, hsize, hframe⟩ := hpushed.split hL hc hw.below hw.above hfull
      hfresh (Heap.get_push_self H' _) (by simp [zeroNode]) (by simp [zeroNode])
      (by simp [zeroNode]) ((List.length_map _).trans hlen) ((List.length_map _).trans hlen)
    refine ⟨H'', leftHalf tree.layout.mid t, rightHalf tree.layout.mid H'.size t,
      (es₁ ++ e :: es₂)[tree.layout.mid], es₁ ++ e :: es₂, fun b H₃ hrun => ?_,
      List.getElem?_eq_getElem hmid, by omega, rfl, ?_⟩
    · refine hrest b H₃ (runs_placeOrSplit_full he hm hpar ?_ hsplit hrun)
      exact runs_insertIntoNode_full hget hn hfull c₂.label
    · rw [← hw.toList_eq]
      refine Halves.of_overfull hL (by show (es₁ ++ e :: es₂).length = _; omega) hw.fits hw.asc
        hw.pending.nodup hfresh (List.getElem?_eq_getElem hmid) hl hr
        (hw.grown.trans ⟨by rw [hsize]; simp, fun b hb hnot => ?_, fun b hb => ?_⟩)
      · rw [hframe b hnot (Nat.ne_of_lt hb), Heap.get_push_ne (Nat.ne_of_lt hb)]
      · rcases List.mem_cons.1 hb with rfl | hb
        · exact Or.inr (Nat.le_refl _)
        · exact Or.inl hb

/-- `find_leaf` below a subtree reaches a leaf from which the insertion either ends
inside the subtree or goes on at its root. -/
theorem insertAtLeaf_spec {h : Nat} {par : Option Addr} {lo : Nat} {t : AddrTree K h}
    (ht : Subtree tree H h par lo t) (hk : k ∉ (toList h t).map Prod.fst) (root : Addr)
    (fuel : Nat) :
    ∃ leaf, (∀ steps, h < steps → Runs (findLeaf tree k steps t.label) H leaf H) ∧
      InsertOutcome tree H h par lo t k v root fuel
        (insertAtLeaf tree root (h + fuel) leaf k v) := by
  induction h generalizing par lo fuel with
  | zero =>
    refine ⟨t.label, fun steps hsteps => ?_, ?_⟩
    · obtain ⟨n, hget, hn⟩ := ht.rep
      obtain ⟨s, rfl⟩ : ∃ s, steps = s + 1 := ⟨steps - 1, by omega⟩
      exact Runs.bind (Runs.load hget) (Runs.ite_pos hn.leaf_eq (Runs.pure _ _))
    · rw [Nat.zero_add]
      exact insertOutcome_leaf hL hc ht hk root fuel
  | succ h ih =>
    have hfit := (fits_iff.1 ht.fits).2.2
    have hes : k ∉ t.entries.map Prod.fst := fun hmem =>
      hk (((entries_sublist_toList hfit).map Prod.fst).subset hmem)
    obtain ⟨es₁, es₂, cs₁, c, cs₂, heq, hcs₁, hcs₂, hk₁, hk₂⟩ :=
      exists_child hc hfit ht.asc hes
    generalize t.label = a at heq
    subst heq
    have hascc := (context_bounds hc hcs₁.symm hcs₂.symm ht.asc hk₁ hk₂).2.2
    have hkc : k ∉ (toList h c).map Prod.fst := fun hmem => hk (by
      rw [toList_focus a c hcs₁.symm, List.map_append, List.map_append]
      exact List.mem_append_left _ (List.mem_append_right _ hmem))
    obtain ⟨leaf, hfind, hout⟩ := ih (ht.child hascc) hkc (fuel + 1)
    refine ⟨leaf, fun steps hsteps => ?_, ?_⟩
    · obtain ⟨n, hget, hn⟩ := ht.rep.root
      obtain ⟨s, rfl⟩ : ∃ s, steps = s + 1 := ⟨steps - 1, by omega⟩
      have hread : readAt n.children es₁.length = .ok (some c.label) :=
        hn.read_child (by simp [childAddrs, hcs₁])
      refine Runs.bind (Runs.load hget) (Runs.ite_neg (by simp [hn.leaf_eq]) ?_)
      refine Runs.bind (Runs.lift (hn.lowerBound hc hk₁ hk₂) H) ?_
      refine Runs.bind (Runs.lift hread H) (Runs.bind (Runs.deref _ H) ?_)
      exact hfind s (by omega)
    · have hfuel : h + 1 + fuel = h + (fuel + 1) := by omega
      rw [hfuel]
      exact hout.step hL hc ht hk₁ hk₂ hcs₁ hcs₂ hk

/-! ## The root -/

omit hc in
/-- A root that split gets a new root above it. -/
theorem runs_placeOrSplit_root {h : Nat} {old : List Addr} {entries : List (Entry K)}
    {t₁ t₂ : AddrTree K h} {e : Entry K} {es : List (Entry K)}
    (he : es[tree.layout.mid]? = some e)
    (hhalves : Halves tree H H' h none old entries t₁ t₂ e)
    (hasc : Ascending tree.compare entries) (root : Addr) (fuel : Nat) :
    ∃ H'', Runs (placeOrSplit tree root fuel t₁.label t₂.label (es.map Prod.fst)
        (es.map Prod.snd)) H' H'.size H'' ∧
      Subtree tree H'' (h + 1) none 1 ⟨H'.size, [e], [t₁, t₂]⟩ ∧
      toList (h + 1) (⟨H'.size, [e], [t₁, t₂]⟩ : AddrTree K (h + 1)) = entries := by
  obtain ⟨l, hl, hlpar⟩ := hhalves.left.rep.parent
  obtain ⟨r, hr, _⟩ := hhalves.right.rep.parent
  have hthree := hL.three_le
  obtain ⟨hn₁, hn₂, hdis⟩ := List.nodup_append.1 hhalves.nodup
  have hlt₁ := hhalves.left.rep.lt_size
  have hlt₂ := hhalves.right.rep.lt_size
  have hne : t₁.label ≠ t₂.label :=
    hdis _ (label_mem_labels h t₁) _ (label_mem_labels h t₂)
  obtain ⟨H'', n, hrun, hsize, hget, hn, hgetl, hgetr, hframe⟩ :=
    runs_createRoot hL hne hl hr e.1 e.2
  have htoList : toList (h + 1) (⟨H'.size, [e], [t₁, t₂]⟩ : AddrTree K (h + 1)) = entries := by
    rw [← hhalves.toList_eq]
    simp [toList, weave, weaveRight]
  have hleft : Rep tree.layout H'' h (some H'.size) t₁ := by
    refine hhalves.left.rep.adopted (by rw [hgetl, hl]; rfl) (fun b hb hbl => ?_) hn₁
    exact hframe b (Nat.ne_of_lt (hlt₁ b hb)) hbl
      fun heq => hdis b hb t₂.label (label_mem_labels h t₂) heq
  have hright : Rep tree.layout H'' h (some H'.size) t₂ := by
    refine hhalves.right.rep.adopted (by rw [hgetr, hr]; rfl) (fun b hb hbr => ?_) hn₂
    exact hframe b (Nat.ne_of_lt (hlt₂ b hb))
      (fun heq => hdis t₁.label (label_mem_labels h t₁) b hb heq.symm) hbr
  refine ⟨H'', runs_placeOrSplit_done (runs_placeSeparator_root he hl hlpar hrun) fuel,
    ⟨⟨⟨n, hget, hn⟩, fun d hd => ?_⟩, ?_, ?_, htoList ▸ hasc⟩, htoList⟩
  · simp only [List.mem_cons, List.not_mem_nil, or_false] at hd
    rcases hd with rfl | rfl
    · exact hleft
    · exact hright
  · have hnot : H'.size ∉ labels h t₁ ++ labels h t₂ := fun hmem => by
      rcases List.mem_append.1 hmem with hmem | hmem
      · exact Nat.lt_irrefl _ (hlt₁ _ hmem)
      · exact Nat.lt_irrefl _ (hlt₂ _ hmem)
    simpa [labels] using And.intro hnot hhalves.nodup
  · refine ⟨by simp, by simp; omega, by simp, fun d hd => ?_⟩
    simp only [List.mem_cons, List.not_mem_nil, or_false] at hd
    rcases hd with rfl | rfl
    · exact hhalves.left.fits
    · exact hhalves.right.fits

/-- `btree_insert` of a key that is not there. -/
theorem runs_btreeInsert {entries : List (Entry K)} (hH : Holds tree H entries)
    (hk : k ∉ entries.map Prod.fst) :
    ∃ root H', Runs (btreeInsert tree k v) H { tree with root := some root } H' ∧
      Holds { tree with root := some root } H'
        (insertEntry tree.compare (k, v) entries) := by
  have hasc := ascending_insertEntry (v := v) hc hH.ascending hk
  unfold Holds at hH
  split at hH
  · next hroot =>
    obtain ⟨H', n, hrun, _, hget, hn, _⟩ := runs_createLeaf hL H k v
    have hthree := hL.three_le
    refine ⟨H.size, H', Runs.bind ?_ (Runs.pure _ _), 0, ⟨H.size, [(k, v)], []⟩, rfl,
      ⟨⟨n, hget, hn⟩, by simp [labels], ?_, ?_⟩, ?_⟩
    · unfold btreeInsertDo
      rw [hroot]
      exact hrun
    · refine ⟨Nat.zero_le _, ?_⟩
      show 1 ≤ tree.layout.maxKeys
      omega
    · exact List.pairwise_singleton _ _
    · rw [hH]
      rfl
  · next root hroot =>
    obtain ⟨h, t, hlabel, ht, rfl⟩ := hH
    have hheight := ht.rep.height_lt_size ht.fits ht.nodup
    obtain ⟨leaf, hfind, hout⟩ := insertAtLeaf_spec (v := v) hL hc ht hk root (H.size - h)
    rw [Nat.add_sub_cancel' (Nat.le_of_lt hheight)] at hout
    have hdo : ∀ b H', Runs (insertAtLeaf tree root H.size leaf k v) H b H' →
        Runs (btreeInsert tree k v) H { tree with root := some b } H' := by
      intro b H' hrun
      refine Runs.bind ?_ (Runs.pure _ _)
      unfold btreeInsertDo
      rw [hroot]
      exact Runs.bind (Runs.get H) (Runs.bind (hlabel ▸ hfind _ hheight) hrun)
    rcases hout with ⟨H', t', hrun, ht'⟩ | ⟨H', t₁, t₂, e, es, hrest, he, _, _, hhalves⟩
    · exact ⟨root, H', hdo root H' hrun, h, t', ht'.label_eq.trans hlabel,
        ht'.subtree.setRoot _, ht'.toList_eq⟩
    · obtain ⟨H'', hplace, ht', htoList⟩ :=
        runs_placeOrSplit_root hL he hhalves hasc root (H.size - h)
      exact ⟨H'.size, H'', hdo _ H'' (hrest _ H'' hplace), h + 1, _, rfl, ht'.setRoot _,
        htoList⟩

end Induction

end Maxql.Index
