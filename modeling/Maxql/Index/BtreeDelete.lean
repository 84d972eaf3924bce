import Maxql.Index.BtreeRep

/-!
# Rebalancing two neighbours

What `btree_steal_left`, `btree_steal_right`, `btree_merge` and
`remove_from_leaf` do to the nodes they touch.  An entry that moves between two
inner nodes takes a child with it; between leaves there is no child to take, so
the lemmas speak of the list of moved children, which is empty or has one
element.  `btree_merge` is specified for leaves: above leaves, the children of
the right node are copied one slot too far.
-/

namespace Maxql.Index

open Program SortedEntries Multiway

variable {K : Type} {L : BtreeLayout}

/-! ## One leaf -/

section Leaf

variable {H : Heap (BtreeNode K)} {a : Addr} {n : BtreeNode K} {par : Option Addr}
  {es₁ es₂ : List (Entry K)} {x : Entry K}

theorem runs_removeFromLeaf (hL : L.Sound) (hget : H.get a = some n)
    (hn : NodeRep L n true par (es₁ ++ x :: es₂) []) :
    ∃ n', Runs (removeFromLeaf a es₁.length) H () (H.put a (some n')) ∧
      NodeRep L n' true par (es₁ ++ es₂) [] := by
  have hmax := hL.maxKeys_le
  have hle := hn.count_le
  have hcount := hn.count_eq
  simp only [List.length_append, List.length_cons] at hle hcount
  have hdec : dec16 n.keyCount = es₁.length + es₂.length := by
    rw [dec16_eq (by omega) (by omega)]
    omega
  have hkeys : Slots n.keys (es₁.map Prod.fst ++ x.1 :: es₂.map Prod.fst) L.maxKeys := by
    simpa using hn.keys
  have hoffsets : Slots n.offsets (es₁.map Prod.snd ++ x.2 :: es₂.map Prod.snd) L.maxKeys := by
    simpa using hn.offsets
  obtain ⟨ks, hks, hks'⟩ := hkeys.remove
  obtain ⟨os, hos, hos'⟩ := hoffsets.remove
  simp only [List.length_map] at hks hos
  by_cases htail : es₂ = []
  · subst htail
    let n' : BtreeNode K := { n with keyCount := dec16 n.keyCount }
    refine ⟨n', Runs.bind (Runs.load hget) (Runs.ite_pos hn.leaf_eq ?_), ?_⟩
    · exact Runs.ite_neg (by rw [hdec]; simp) (Runs.store hget n')
    · refine hn.update rfl rfl ?_ ?_ ?_ hn.slots
      · show dec16 n.keyCount = _
        rw [hdec]; simp
      · simpa using hkeys.take
      · simpa using hoffsets.take
  · have hpos : 0 < es₂.length := List.length_pos_iff.2 htail
    let n' : BtreeNode K := { n with keyCount := dec16 n.keyCount, keys := ks, offsets := os }
    refine ⟨n', Runs.bind (Runs.load hget) (Runs.ite_pos hn.leaf_eq ?_), ?_⟩
    · refine Runs.ite_pos (by omega) ?_
      have hgap : dec16 n.keyCount - es₁.length = es₂.length := by omega
      rw [hgap]
      exact Runs.bind (Runs.lift hks H) (Runs.bind (Runs.lift hos H) (Runs.store hget n'))
    · refine hn.update rfl rfl ?_ ?_ ?_ hn.slots
      · show dec16 n.keyCount = _
        rw [hdec]; simp
      · simpa using hks'
      · simpa using hos'

end Leaf

/-! ## The moved child -/

section Moved

variable {H : Heap (BtreeNode K)} {b d : Addr} {l c : BtreeNode K} {leaf : Bool}
  {lpar cpar : Option Addr} {le ce : List (Entry K)} {lc m cc : List Addr}

/-- The number of children beside `n` entries. -/
def arity (leaf : Bool) (n : Nat) : Nat := if leaf then 0 else n

/-- Room for a child in front of the others. -/
theorem NodeRep.open_front (hL : L.Sound) (hcn : NodeRep L c leaf cpar ce cc)
    (hroom : ce.length < L.maxKeys) (hcc : cc.length = arity leaf (ce.length + 1))
    (hm : m.length = arity leaf 1) :
    ∃ ys, moveChildren c 1 0 (c.keyCount + 1) = .ok ys ∧
      if leaf then Slots ys ((m ++ cc).map some) L.childCount
      else ∃ q zs, m = [q] ∧ writeAt ys 0 (some q) = .ok zs ∧
        Slots zs ((m ++ cc).map some) L.childCount := by
  have hchild := hL.childCount_eq
  cases leaf with
  | true =>
    have hm0 : m = [] := List.eq_nil_of_length_eq_zero hm
    refine ⟨c.children, if_pos hcn.leaf_eq, ?_⟩
    simpa [hm0] using hcn.slots
  | false =>
    obtain ⟨q, rfl⟩ := List.length_eq_one_iff.1 hm
    have hcc' : cc.length = ce.length + 1 := hcc
    obtain ⟨ys, zs, hcopy, hwrite, hzs⟩ := hcn.slots.prepend
      (by rw [List.length_map]; omega) (some q)
    rw [List.length_map, hcc', ← hcn.count_eq] at hcopy
    refine ⟨ys, (if_neg (by simp [hcn.leaf_eq])).trans hcopy, ?_⟩
    simp only [Bool.false_eq_true, if_false]
    exact ⟨q, zs, rfl, hwrite, by simpa using hzs⟩

/-- A child that is written into the node gets it for its parent. -/
theorem runs_storeChild {q : Addr} (hget : H.get d = some c) (zs : List (Option Addr))
    (hqd : q ≠ d) (hlive : (H.get q).isSome) :
    ∃ H', Runs (do
        store d { c with children := zs }
        let moved ← deref (some q)
        setParent moved (some d) : NodeProg K Unit) H () H' ∧ H'.size = H.size ∧
      H'.get d = some { c with children := zs } ∧
      (∀ q' ∈ [q], H'.get q' = (H.get q').map fun n => { n with parent := some d }) ∧
      ∀ q', q' ≠ d → q' ∉ [q] → H'.get q' = H.get q' := by
  obtain ⟨n, hn⟩ := Option.isSome_iff_exists.1 hlive
  have hsize := Heap.lt_size_of_get hget
  have hn₁ : (H.put d (some { c with children := zs })).get q = some n := by
    rw [Heap.get_put_ne hqd]; exact hn
  obtain ⟨H', hrun, hsize', hset, hsame⟩ := runs_setParent hn₁ (some d)
  refine ⟨H', Runs.bind (Runs.store hget _) (Runs.bind (Runs.deref q _) hrun),
    by simpa using hsize', ?_, fun q' hq' => ?_, fun q' hq' hqm => ?_⟩
  · rw [hsame d (by simpa using hqd.symm), Heap.get_put_self hsize]
  · rw [List.mem_singleton] at hq'
    rw [hq', hset q (by simp), hn₁, hn]
  · rw [hsame q' hqm, Heap.get_put_ne hq']

/-- `takeLastChild` once there is room in front. -/
theorem runs_takeLastChild (hget : H.get d = some c) (hleaf : btreeNodeIsLeaf c = leaf)
    (hch : if leaf then Slots c.children ((m ++ cc).map some) L.childCount
      else ∃ q zs, m = [q] ∧ writeAt c.children 0 (some q) = .ok zs ∧
        Slots zs ((m ++ cc).map some) L.childCount)
    (hl : H.get b = some l) (hln : NodeRep L l leaf lpar le (lc ++ m))
    (hlc : lc.length = arity leaf le.length) (hm : m.length = arity leaf 1) (hmd : d ∉ m)
    (hlive : ∀ q ∈ m, (H.get q).isSome) :
    ∃ H' ys, Runs (takeLastChild d b) H () H' ∧ H'.size = H.size ∧
      H'.get d = some { c with children := ys } ∧
      Slots ys ((m ++ cc).map some) L.childCount ∧
      (∀ q ∈ m, H'.get q = (H.get q).map fun n => { n with parent := some d }) ∧
      ∀ q, q ≠ d → q ∉ m → H'.get q = H.get q := by
  cases leaf with
  | true =>
    have hm0 : m = [] := List.eq_nil_of_length_eq_zero hm
    refine ⟨H, c.children, Runs.bind (Runs.load hget) (Runs.ite_pos hleaf (Runs.pure _ _)),
      rfl, hget, by simpa using hch, fun q hq => ?_, fun _ _ _ => rfl⟩
    rw [hm0] at hq
    exact absurd hq (List.not_mem_nil)
  | false =>
    simp only [Bool.false_eq_true, if_false] at hch
    obtain ⟨q, zs, rfl, hwrite, hzs⟩ := hch
    have hlc' : lc.length = le.length := hlc
    have hread : readAt l.children l.keyCount = .ok (some q) := by
      rw [hln.count_eq]
      exact hln.read_child (by simp [hlc'])
    obtain ⟨H', hrun, hsize', hd', hset, hsame⟩ :=
      runs_storeChild hget zs (fun heq => hmd (by simp [heq])) (hlive q (by simp))
    refine ⟨H', zs, ?_, hsize', hd', hzs, hset, hsame⟩
    refine Runs.bind (Runs.load hget) (Runs.ite_neg (by simp [hleaf]) ?_)
    refine Runs.bind (Runs.load hl) (Runs.bind (Runs.lift hread H) ?_)
    exact Runs.bind (Runs.lift hwrite H) hrun

/-- `moveChildren` in the node that gives up its first child. -/
theorem NodeRep.close_front (hL : L.Sound) {x : Entry K}
    (hcn : NodeRep L c leaf cpar (x :: ce) (m ++ cc)) (hroom : (x :: ce).length < L.maxKeys)
    (hcc : cc.length = arity leaf (ce.length + 1)) (hm : m.length = arity leaf 1) :
    ∃ ys, moveChildren c 0 1 (c.keyCount + 1) = .ok ys ∧
      Slots ys (cc.map some) L.childCount := by
  have hchild := hL.childCount_eq
  cases leaf with
  | true =>
    have hm0 : m = [] := List.eq_nil_of_length_eq_zero hm
    exact ⟨c.children, if_pos hcn.leaf_eq, by simpa [hm0] using hcn.slots⟩
  | false =>
    obtain ⟨q, rfl⟩ := List.length_eq_one_iff.1 hm
    have hcc' : cc.length = ce.length + 1 := hcc
    have hslots : Slots c.children (some q :: cc.map some) L.childCount := by
      simpa using hcn.slots
    rw [List.length_cons] at hroom
    obtain ⟨zs, hcopy, hzs⟩ := hslots.remove_first
      (by rw [List.length_cons, List.length_map]; omega)
    rw [List.length_cons, List.length_map, hcc'] at hcopy
    refine ⟨zs, (if_neg (by simp [hcn.leaf_eq])).trans ?_, hzs⟩
    rw [hcn.count_eq]
    exact hcopy

/-- `takeFirstChild` in front of the free slot behind the children of `c`. -/
theorem runs_takeFirstChild (hL : L.Sound) {x : Entry K} (hget : H.get d = some c)
    (hleaf : btreeNodeIsLeaf c = leaf) (hcount : c.keyCount = ce.length)
    (hslots : Slots c.children (cc.map some) L.childCount) (hroom : ce.length < L.maxKeys)
    (hcc : cc.length = arity leaf (ce.length + 1)) (hl : H.get b = some l)
    (hln : NodeRep L l leaf lpar (x :: le) (m ++ lc)) (hm : m.length = arity leaf 1)
    (hmd : d ∉ m) (hlive : ∀ q ∈ m, (H.get q).isSome) :
    ∃ H' ys, Runs (takeFirstChild d b) H () H' ∧ H'.size = H.size ∧
      H'.get d = some { c with children := ys } ∧
      Slots ys ((cc ++ m).map some) L.childCount ∧
      (∀ q ∈ m, H'.get q = (H.get q).map fun n => { n with parent := some d }) ∧
      ∀ q, q ≠ d → q ∉ m → H'.get q = H.get q := by
  have hchild := hL.childCount_eq
  cases leaf with
  | true =>
    have hm0 : m = [] := List.eq_nil_of_length_eq_zero hm
    refine ⟨H, c.children, Runs.bind (Runs.load hget) (Runs.ite_pos hleaf (Runs.pure _ _)),
      rfl, hget, by simpa [hm0] using hslots, fun q hq => ?_, fun _ _ _ => rfl⟩
    rw [hm0] at hq
    exact absurd hq (List.not_mem_nil)
  | false =>
    obtain ⟨q, rfl⟩ := List.length_eq_one_iff.1 hm
    have hcc' : cc.length = ce.length + 1 := hcc
    have hread : readAt l.children 0 = .ok (some q) := hln.read_child (by simp)
    obtain ⟨zs, hwrite, hzs⟩ := hslots.append (by rw [List.length_map]; omega) (some q)
    rw [List.length_map, hcc', ← hcount] at hwrite
    obtain ⟨H', hrun, hsize', hd', hset, hsame⟩ :=
      runs_storeChild hget zs (fun heq => hmd (by simp [heq])) (hlive q (by simp))
    refine ⟨H', zs, ?_, hsize', hd', by simpa using hzs, hset, hsame⟩
    refine Runs.bind (Runs.load hget) (Runs.ite_neg (by simp [hleaf]) ?_)
    refine Runs.bind (Runs.load hl) (Runs.bind (Runs.lift hread H) ?_)
    exact Runs.bind (Runs.lift hwrite H) hrun

end Moved

/-! ## Steals -/

/-- The parent at `a` and the neighbours at `b` and `d` after an entry has gone
through the parent, with the children `m` now below `owner`. -/
structure Rotated (L : BtreeLayout) (H H' : Heap (BtreeNode K)) (leaf : Bool)
    (ppar lpar rpar : Option Addr) (a b d owner : Addr) (pe : List (Entry K))
    (pc : List Addr) (le : List (Entry K)) (lc : List Addr) (re : List (Entry K))
    (rc m : List Addr) : Prop where
  size_eq : H'.size = H.size
  parent : ∃ n, H'.get a = some n ∧ NodeRep L n false ppar pe pc
  left : ∃ n, H'.get b = some n ∧ NodeRep L n leaf lpar le lc
  right : ∃ n, H'.get d = some n ∧ NodeRep L n leaf rpar re rc
  moved : ∀ q ∈ m, H'.get q = (H.get q).map fun n => { n with parent := some owner }
  same : ∀ q, q ≠ a → q ≠ b → q ≠ d → q ∉ m → H'.get q = H.get q

/-- Only the right node changes. -/
theorem Rotated.put_right {H H' : Heap (BtreeNode K)} {leaf : Bool}
    {ppar lpar rpar : Option Addr} {a b d owner : Addr} {pe le re re' : List (Entry K)}
    {pc lc rc rc' m : List Addr} {r : BtreeNode K}
    (h : Rotated L H H' leaf ppar lpar rpar a b d owner pe pc le lc re rc m)
    (had : a ≠ d) (hbd : b ≠ d) (hdm : d ∉ m) (hr : NodeRep L r leaf rpar re' rc') :
    Rotated L H (H'.put d (some r)) leaf ppar lpar rpar a b d owner pe pc le lc re' rc' m := by
  obtain ⟨p, hp, hpn⟩ := h.parent
  obtain ⟨l, hl, hln⟩ := h.left
  obtain ⟨old, hold, _⟩ := h.right
  refine ⟨?_, ⟨p, ?_, hpn⟩, ⟨l, ?_, hln⟩, ⟨r, ?_, hr⟩, fun q hq => ?_,
    fun q hqa hqb hqd hqm => ?_⟩
  · rw [Heap.size_put]
    exact h.size_eq
  · rw [Heap.get_put_ne had]
    exact hp
  · rw [Heap.get_put_ne hbd]
    exact hl
  · exact Heap.get_put_self (Heap.lt_size_of_get hold) _
  · rw [Heap.get_put_ne fun heq : q = d => hdm (heq ▸ hq)]
    exact h.moved q hq
  · rw [Heap.get_put_ne hqd]
    exact h.same q hqa hqb hqd hqm

section Steals

variable {H : Heap (BtreeNode K)} {a b d : Addr} {p l r : BtreeNode K} {leaf : Bool}
  {ppar lpar rpar : Option Addr} {es₁ es₂ le re : List (Entry K)} {s x : Entry K}
  {pc lc m rc : List Addr}

/-- The last entry of the left node goes up, the separator goes down to the
front of the right node. -/
theorem runs_btreeStealLeft (hL : L.Sound) (hab : a ≠ b) (had : a ≠ d) (hbd : b ≠ d)
    (hp : H.get a = some p) (hl : H.get b = some l) (hr : H.get d = some r)
    (hpn : NodeRep L p false ppar (es₁ ++ s :: es₂) pc)
    (hln : NodeRep L l leaf lpar (le ++ [x]) (lc ++ m))
    (hrn : NodeRep L r leaf rpar re rc) (hroom : re.length < L.maxKeys)
    (hlc : lc.length = arity leaf (le.length + 1)) (hm : m.length = arity leaf 1)
    (hrc : rc.length = arity leaf (re.length + 1))
    (hapart : ∀ q ∈ m, q ≠ a ∧ q ≠ b ∧ q ≠ d ∧ (H.get q).isSome) :
    ∃ H', Runs (btreeStealLeft a es₁.length d b) H () H' ∧
      Rotated L H H' leaf ppar lpar rpar a b d d (es₁ ++ x :: es₂) pc le lc
        (s :: re) (m ++ rc) m := by
  have hmax := hL.maxKeys_le
  have hrcount := hrn.count_eq
  have hlcount := hln.count_eq
  have hlle := hln.count_le
  rw [List.length_append, List.length_singleton] at hlcount hlle
  have hpk : Slots p.keys (es₁.map Prod.fst ++ s.1 :: es₂.map Prod.fst) L.maxKeys := by
    simpa using hpn.keys
  have hpo : Slots p.offsets (es₁.map Prod.snd ++ s.2 :: es₂.map Prod.snd) L.maxKeys := by
    simpa using hpn.offsets
  -- the right node
  obtain ⟨k₁, k₂, hk₁, hk₂, hks⟩ := hrn.keys.prepend (by simpa using hroom) s.1
  obtain ⟨o₁, o₂, ho₁, ho₂, hos⟩ := hrn.offsets.prepend (by simpa using hroom) s.2
  rw [List.length_map, ← hrcount] at hk₁ ho₁
  obtain ⟨ys, hys, hopen⟩ := hrn.open_front (m := m) hL hroom hrc hm
  have hsep : (es₁ ++ s :: es₂)[es₁.length]? = some s := by simp
  let d₁ : BtreeNode K :=
    { r with keyCount := inc16 r.keyCount, keys := k₂, offsets := o₂, children := ys }
  have hd₁ : (H.put d (some d₁)).get d = some d₁ := Heap.get_put_self (Heap.lt_size_of_get hr) _
  have hne₁ : ∀ q, q ≠ d → (H.put d (some d₁)).get q = H.get q := fun q hq =>
    Heap.get_put_ne hq _
  have hlive : ∀ q ∈ m, ((H.put d (some d₁)).get q).isSome := fun q hq => by
    rw [hne₁ q (hapart q hq).2.2.1]; exact (hapart q hq).2.2.2
  -- the moved child
  obtain ⟨H₂, zs, hrun₂, hsize₂, hd₂, hzs, hset₂, hsame₂⟩ := runs_takeLastChild (L := L)
    hd₁ (by rw [← hrn.leaf_eq]; rfl) hopen ((hne₁ b hbd).trans hl) hln
    (by rw [List.length_append]; exact hlc) hm (fun hmem => (hapart d hmem).2.2.1 rfl) hlive
  have hbm : b ∉ m := fun hmem => (hapart b hmem).2.1 rfl
  have ham : a ∉ m := fun hmem => (hapart a hmem).1 rfl
  have hb₂ : H₂.get b = some l := by rw [hsame₂ b hbd hbm, hne₁ b hbd, hl]
  have ha₂ : H₂.get a = some p := by rw [hsame₂ a had ham, hne₁ a had, hp]
  -- the parent
  have hlast : (le ++ [x])[u16 ((l.keyCount : Int) - 1)]? = some x := by
    rw [hlcount, u16_sub_one (by omega) (by omega)]
    simp
  obtain ⟨pk, hpkw, hpks⟩ := hpk.set x.1
  obtain ⟨po, hpow, hpos⟩ := hpo.set x.2
  simp only [List.length_map] at hpkw hpow
  let p₁ : BtreeNode K := { p with keys := pk, offsets := po }
  let l₁ : BtreeNode K := { l with keyCount := dec16 l.keyCount }
  have hb₃ : (H₂.put a (some p₁)).get b = some l := by rw [Heap.get_put_ne hab.symm]; exact hb₂
  refine ⟨(H₂.put a (some p₁)).put b (some l₁), ?_, ?_, ⟨p₁, ?_, ?_⟩, ⟨l₁, ?_, ?_⟩,
    ⟨{ d₁ with children := zs }, ?_, ?_⟩, fun q hq => ?_, fun q hqa hqb hqd hqm => ?_⟩
  · refine Runs.bind (Runs.load hr) (Runs.bind (Runs.lift hk₁ H) ?_)
    refine Runs.bind (Runs.lift ho₁ H) (Runs.bind (Runs.lift hys H) ?_)
    refine Runs.bind (Runs.load hp) (Runs.bind (Runs.lift (hpn.read_key hsep) H) ?_)
    refine Runs.bind (Runs.lift (hpn.read_offset hsep) H) (Runs.bind (Runs.lift hk₂ H) ?_)
    refine Runs.bind (Runs.lift ho₂ H) (Runs.bind (Runs.store hr d₁) ?_)
    refine Runs.bind hrun₂ (Runs.bind (Runs.load hb₂) ?_)
    refine Runs.bind (Runs.lift (hln.read_key hlast) _) ?_
    refine Runs.bind (Runs.lift (hln.read_offset hlast) _) ?_
    refine Runs.bind (Runs.load ha₂) (Runs.bind (Runs.lift hpkw _) ?_)
    refine Runs.bind (Runs.lift hpow _) (Runs.bind (Runs.store ha₂ p₁) ?_)
    exact Runs.bind (Runs.load hb₃) (Runs.store hb₃ l₁)
  · simpa using hsize₂
  · rw [Heap.get_put_ne hab, Heap.get_put_self (Heap.lt_size_of_get ha₂)]
  · refine hpn.update rfl rfl ?_ (by simpa using hpks) (by simpa using hpos) hpn.slots
    show p.keyCount = _
    rw [hpn.count_eq]; simp
  · exact Heap.get_put_self (by simpa using Heap.lt_size_of_get hb₂) _
  · refine hln.update rfl rfl ?_ ?_ ?_ ?_
    · show dec16 l.keyCount = _
      rw [hlcount, dec16_eq (by omega) (by omega)]
      simp
    · have := hln.keys
      rw [List.map_append] at this
      exact this.take
    · have := hln.offsets
      rw [List.map_append] at this
      exact this.take
    · have := hln.slots
      rw [List.map_append] at this
      exact this.take
  · rw [Heap.get_put_ne hbd.symm, Heap.get_put_ne had.symm]
    exact hd₂
  · refine hrn.update rfl rfl ?_ hks hos hzs
    show inc16 r.keyCount = _
    rw [hrcount, inc16_eq (by omega), List.length_cons]
  · rw [Heap.get_put_ne (hapart q hq).2.1, Heap.get_put_ne (hapart q hq).1, hset₂ q hq,
      hne₁ q (hapart q hq).2.2.1]
  · rw [Heap.get_put_ne hqb, Heap.get_put_ne hqa, hsame₂ q hqd hqm, hne₁ q hqd]

/-- The last part of `btree_steal_right`, the three `memmove` calls on `right`. -/
def closeFront (right : Addr) : NodeProg K Unit := do
  let r ← load right
  let keys ← copySlots r.keys 0 r.keys 1 r.keyCount
  let offsets ← copySlots r.offsets 0 r.offsets 1 r.keyCount
  let children ← moveChildren r 0 1 (r.keyCount + 1)
  store right { r with keys, offsets, children, keyCount := dec16 r.keyCount }

/-- `btree_steal_right` up to there: the separator is at the end of the left node, with the
first child of the right node behind it, and the first entry of the right node is in the
parent.  The right node is as it was. -/
theorem run_btreeStealRight_front (hL : L.Sound) (hab : a ≠ b) (had : a ≠ d) (hbd : b ≠ d)
    (hp : H.get a = some p) (hl : H.get b = some l) (hr : H.get d = some r)
    (hpn : NodeRep L p false ppar (es₁ ++ s :: es₂) pc)
    (hln : NodeRep L l leaf lpar le lc)
    (hrn : NodeRep L r leaf rpar (x :: re) (m ++ rc)) (hroom : le.length < L.maxKeys)
    (hlc : lc.length = arity leaf (le.length + 1)) (hm : m.length = arity leaf 1)
    (hapart : ∀ q ∈ m, q ≠ a ∧ q ≠ b ∧ q ≠ d ∧ (H.get q).isSome) :
    ∃ H', (btreeStealRight a es₁.length b d).run H = (closeFront d).run H' ∧
      H'.get d = some r ∧
      Rotated L H H' leaf ppar lpar rpar a b d b (es₁ ++ x :: es₂) pc (le ++ [s]) (lc ++ m)
        (x :: re) (m ++ rc) m := by
  have hmax := hL.maxKeys_le
  have hlcount := hln.count_eq
  have hpk : Slots p.keys (es₁.map Prod.fst ++ s.1 :: es₂.map Prod.fst) L.maxKeys := by
    simpa using hpn.keys
  have hpo : Slots p.offsets (es₁.map Prod.snd ++ s.2 :: es₂.map Prod.snd) L.maxKeys := by
    simpa using hpn.offsets
  -- the left node
  obtain ⟨k₁, hk₁, hks⟩ := hln.keys.append (by simpa using hroom) s.1
  obtain ⟨o₁, ho₁, hos⟩ := hln.offsets.append (by simpa using hroom) s.2
  rw [List.length_map, ← hlcount] at hk₁ ho₁
  have hsep : (es₁ ++ s :: es₂)[es₁.length]? = some s := by simp
  let b₁ : BtreeNode K := { l with keys := k₁, offsets := o₁ }
  have hb₁ : (H.put b (some b₁)).get b = some b₁ := Heap.get_put_self (Heap.lt_size_of_get hl) _
  have hne₁ : ∀ q, q ≠ b → (H.put b (some b₁)).get q = H.get q := fun q hq =>
    Heap.get_put_ne hq _
  have hlive : ∀ q ∈ m, ((H.put b (some b₁)).get q).isSome := fun q hq => by
    rw [hne₁ q (hapart q hq).2.1]; exact (hapart q hq).2.2.2
  -- the moved child
  obtain ⟨H₂, zs, hrun₂, hsize₂, hb₂, hzs, hset₂, hsame₂⟩ := runs_takeFirstChild (L := L)
    (c := b₁) hL hb₁ (by rw [← hln.leaf_eq]; rfl) hlcount hln.slots hroom hlc
    ((hne₁ d hbd.symm).trans hr) hrn hm (fun hmem => (hapart b hmem).2.1 rfl) hlive
  have hdm : d ∉ m := fun hmem => (hapart d hmem).2.2.1 rfl
  have ham : a ∉ m := fun hmem => (hapart a hmem).1 rfl
  let b₂ : BtreeNode K := { b₁ with children := zs, keyCount := inc16 l.keyCount }
  have hsame₃ : ∀ q, q ≠ b → (H₂.put b (some b₂)).get q = H₂.get q := fun q hq =>
    Heap.get_put_ne hq _
  have hd₃ : (H₂.put b (some b₂)).get d = some r := by
    rw [hsame₃ d hbd.symm, hsame₂ d hbd.symm hdm, hne₁ d hbd.symm, hr]
  have ha₃ : (H₂.put b (some b₂)).get a = some p := by
    rw [hsame₃ a hab, hsame₂ a hab ham, hne₁ a hab, hp]
  -- the parent
  obtain ⟨pk, hpkw, hpks⟩ := hpk.set x.1
  obtain ⟨po, hpow, hpos⟩ := hpo.set x.2
  simp only [List.length_map] at hpkw hpow
  let p₁ : BtreeNode K := { p with keys := pk, offsets := po }
  have hfirst : (x :: re)[0]? = some x := rfl
  have hd₄ : ((H₂.put b (some b₂)).put a (some p₁)).get d = some r := by
    rw [Heap.get_put_ne had.symm]; exact hd₃
  refine ⟨(H₂.put b (some b₂)).put a (some p₁), ?_, hd₄,
    ⟨?_, ⟨p₁, ?_, ?_⟩, ⟨b₂, ?_, ?_⟩, ⟨r, hd₄, hrn⟩, fun q hq => ?_, fun q hqa hqb _ hqm => ?_⟩⟩
  · unfold btreeStealRight
    refine (Runs.load hp).run_bind.trans ((Runs.lift (hpn.read_key hsep) H).run_bind.trans ?_)
    refine (Runs.lift (hpn.read_offset hsep) H).run_bind.trans ((Runs.load hl).run_bind.trans ?_)
    refine (Runs.lift hk₁ H).run_bind.trans ((Runs.lift ho₁ H).run_bind.trans ?_)
    refine (Runs.store hl b₁).run_bind.trans (hrun₂.run_bind.trans ?_)
    refine (Runs.load hb₂).run_bind.trans ((Runs.store hb₂ b₂).run_bind.trans ?_)
    refine (Runs.load hd₃).run_bind.trans ((Runs.lift (hrn.read_key hfirst) _).run_bind.trans ?_)
    refine (Runs.lift (hrn.read_offset hfirst) _).run_bind.trans ?_
    refine (Runs.load ha₃).run_bind.trans ((Runs.lift hpkw _).run_bind.trans ?_)
    exact (Runs.lift hpow _).run_bind.trans (Runs.store ha₃ p₁).run_bind
  · simpa using hsize₂
  · exact Heap.get_put_self (Heap.lt_size_of_get ha₃) _
  · refine hpn.update rfl rfl ?_ (by simpa using hpks) (by simpa using hpos) hpn.slots
    show p.keyCount = _
    rw [hpn.count_eq]; simp
  · rw [Heap.get_put_ne hab.symm, Heap.get_put_self (Heap.lt_size_of_get hb₂)]
  · refine hln.update rfl rfl ?_ (by simpa using hks) (by simpa using hos) hzs
    show inc16 l.keyCount = _
    rw [hlcount, inc16_eq (by omega), List.length_append, List.length_singleton]
  · rw [Heap.get_put_ne (hapart q hq).1, hsame₃ q (hapart q hq).2.1, hset₂ q hq,
      hne₁ q (hapart q hq).2.1]
  · rw [Heap.get_put_ne hqa, hsame₃ q hqb, hsame₂ q hqb hqm, hne₁ q hqb]

/-- The separator goes down to the end of the left node, the first entry of the
right node goes up.  The right node must not be full: the source moves one slot
more than it uses. -/
theorem runs_btreeStealRight (hL : L.Sound) (hab : a ≠ b) (had : a ≠ d) (hbd : b ≠ d)
    (hp : H.get a = some p) (hl : H.get b = some l) (hr : H.get d = some r)
    (hpn : NodeRep L p false ppar (es₁ ++ s :: es₂) pc)
    (hln : NodeRep L l leaf lpar le lc)
    (hrn : NodeRep L r leaf rpar (x :: re) (m ++ rc)) (hroom : le.length < L.maxKeys)
    (hfree : (x :: re).length < L.maxKeys)
    (hlc : lc.length = arity leaf (le.length + 1)) (hm : m.length = arity leaf 1)
    (hrc : rc.length = arity leaf (re.length + 1))
    (hapart : ∀ q ∈ m, q ≠ a ∧ q ≠ b ∧ q ≠ d ∧ (H.get q).isSome) :
    ∃ H', Runs (btreeStealRight a es₁.length b d) H () H' ∧
      Rotated L H H' leaf ppar lpar rpar a b d b (es₁ ++ x :: es₂) pc (le ++ [s]) (lc ++ m)
        re rc m := by
  obtain ⟨H₁, hfront, hd, hrot⟩ :=
    run_btreeStealRight_front hL hab had hbd hp hl hr hpn hln hrn hroom hlc hm hapart
  have hmax := hL.maxKeys_le
  have hrcount := hrn.count_eq
  obtain ⟨rk, hrk, hrks⟩ := Slots.remove_first (x := x.1) (B := re.map Prod.fst) hrn.keys
    (by simpa using hfree)
  obtain ⟨ro, hro, hros⟩ := Slots.remove_first (x := x.2) (B := re.map Prod.snd) hrn.offsets
    (by simpa using hfree)
  obtain ⟨ys, hys, hyslots⟩ := hrn.close_front hL hfree hrc hm
  have hlenk : (x.1 :: re.map Prod.fst).length = r.keyCount := by rw [hrcount]; simp
  have hleno : (x.2 :: re.map Prod.snd).length = r.keyCount := by rw [hrcount]; simp
  rw [hlenk] at hrk
  rw [hleno] at hro
  rw [List.length_cons] at hrcount hfree
  let r₁ : BtreeNode K :=
    { r with keys := rk, offsets := ro, children := ys, keyCount := dec16 r.keyCount }
  have hclose : Runs (closeFront d) H₁ () (H₁.put d (some r₁)) := by
    refine Runs.bind (Runs.load hd) (Runs.bind (Runs.lift hrk _) ?_)
    refine Runs.bind (Runs.lift hro _) (Runs.bind (Runs.lift hys _) ?_)
    exact Runs.store hd r₁
  have hr₁ : NodeRep L r₁ leaf rpar re rc := by
    refine hrn.update rfl rfl ?_ hrks hros hyslots
    show dec16 r.keyCount = _
    rw [hrcount, dec16_eq (by omega) (by omega)]
    rfl
  exact ⟨_, hfront.trans hclose,
    hrot.put_right had hbd (fun hmem => (hapart d hmem).2.2.1 rfl) hr₁⟩

end Steals

/-! ## The merge of two leaves -/

section Merge

variable {H : Heap (BtreeNode K)} {a b d : Addr} {p l r : BtreeNode K}
  {ppar lpar rpar : Option Addr} {es₁ es₂ le re : List (Entry K)} {s : Entry K}
  {pc₁ pc₂ : List Addr}

theorem NodeRep.closeGap (hL : L.Sound)
    (hpn : NodeRep L p false ppar (es₁ ++ s :: es₂) (pc₁ ++ b :: d :: pc₂))
    (hpc₁ : pc₁.length = es₁.length) (hpc₂ : pc₂.length = es₂.length) :
    ∃ p', closeGap p es₁.length = .ok p' ∧
      NodeRep L { p' with keyCount := dec16 p'.keyCount } false ppar (es₁ ++ es₂)
        (pc₁ ++ b :: pc₂) := by
  have hmax := hL.maxKeys_le
  have hcount := hpn.count_eq
  have hle := hpn.count_le
  rw [List.length_append, List.length_cons] at hcount hle
  have hshift : u16 ((p.keyCount : Int) - ((es₁.length + 1 : Nat) : Int)) = es₂.length := by
    rw [hcount, u16_sub (by omega) (by omega)]
    omega
  have hpk : Slots p.keys (es₁.map Prod.fst ++ s.1 :: es₂.map Prod.fst) L.maxKeys := by
    simpa using hpn.keys
  have hpo : Slots p.offsets (es₁.map Prod.snd ++ s.2 :: es₂.map Prod.snd) L.maxKeys := by
    simpa using hpn.offsets
  have hpch : Slots p.children ((pc₁ ++ [b]).map some ++ some d :: pc₂.map some)
      L.childCount := by
    simpa using hpn.slots
  obtain ⟨ks, hks, hks'⟩ := hpk.remove
  obtain ⟨os, hos, hos'⟩ := hpo.remove
  obtain ⟨cs, hcs, hcs'⟩ := hpch.remove
  simp only [List.length_map] at hks hos hcs
  rw [List.length_append, List.length_singleton, hpc₁, hpc₂] at hcs
  have hdec : dec16 p.keyCount = (es₁ ++ es₂).length := by
    rw [dec16_eq (by omega) (by omega), List.length_append]
    omega
  unfold Index.closeGap
  simp only [hshift]
  by_cases htail : es₂ = []
  · subst htail
    have hpc : pc₂ = [] := List.eq_nil_of_length_eq_zero hpc₂
    subst hpc
    refine ⟨p, rfl, hpn.update rfl rfl hdec ?_ ?_ ?_⟩
    · simpa using hpk.take
    · simpa using hpo.take
    · simpa using hpch.take
  · have hpos : 0 < es₂.length := List.length_pos_iff.2 htail
    refine ⟨{ p with keys := ks, offsets := os, children := cs }, ?_,
      hpn.update rfl rfl hdec (by simpa using hks') (by simpa using hos') (by simpa using hcs')⟩
    rw [if_pos hpos, hks, Checked.ok_bind, hos, Checked.ok_bind, hcs, Checked.ok_bind]

/-- `childAt` of a represented node. -/
theorem NodeRep.runs_childAt {leaf : Bool} {es : List (Entry K)} {cs : List Addr} {i : Nat}
    (hp : H.get a = some p) (hpn : NodeRep L p leaf ppar es cs) (hi : cs[i]? = some b) :
    Runs (childAt a i) H b H :=
  Runs.bind (Runs.load hp) (Runs.bind (Runs.lift (hpn.read_child hi) H) (Runs.deref b H))

/-- The part of `btree_merge` behind the children. -/
def mergeRest (parent left right : Addr) (leftIndex : Nat) (r : BtreeNode K) :
    NodeProg K Unit := do
  let l ← load left
  store left { l with keyCount := (l.keyCount + r.keyCount) % 65536 }
  let p ← load parent
  let p ← closeGap p leftIndex
  store parent { p with keyCount := dec16 p.keyCount }
  free right

/-- `btree_merge` up to the children: the left node counts the separator and holds the
entries of both. -/
theorem run_btreeMerge_entries {leaf : Bool} {lc rc : List Addr} (hL : L.Sound)
    (hp : H.get a = some p) (hl : H.get b = some l) (hr : H.get d = some r)
    (hpn : NodeRep L p false ppar (es₁ ++ s :: es₂) (pc₁ ++ b :: d :: pc₂))
    (hpc₁ : pc₁.length = es₁.length) (hln : NodeRep L l leaf lpar le lc)
    (hrn : NodeRep L r leaf rpar re rc) (hroom : le.length + 1 + re.length ≤ L.maxKeys) :
    ∃ ks os, Slots ks ((le ++ s :: re).map Prod.fst) L.maxKeys ∧
      Slots os ((le ++ s :: re).map Prod.snd) L.maxKeys ∧
      (btreeMerge a es₁.length).run H
        = (mergeChildren b d >>= fun _ => mergeRest a b d es₁.length r).run
          (H.put b (some { l with keys := ks, offsets := os, keyCount := le.length + 1 })) := by
  have hmax := hL.maxKeys_le
  have hlcount := hln.count_eq
  have hrcount := hrn.count_eq
  have hsep : (es₁ ++ s :: es₂)[es₁.length]? = some s := by simp
  have hleft : (pc₁ ++ b :: d :: pc₂)[es₁.length]? = some b := by simp [← hpc₁]
  have hright : (pc₁ ++ b :: d :: pc₂)[es₁.length + 1]? = some d := by simp [← hpc₁]
  obtain ⟨k₁, hk₁, hks₁⟩ := hln.keys.append (by rw [List.length_map]; omega) s.1
  obtain ⟨o₁, ho₁, hos₁⟩ := hln.offsets.append (by rw [List.length_map]; omega) s.2
  obtain ⟨k₂, hk₂, hks₂⟩ := hks₁.copy hrn.keys (by simp; omega)
  obtain ⟨o₂, ho₂, hos₂⟩ := hos₁.copy hrn.offsets (by simp; omega)
  have hinc : inc16 l.keyCount = le.length + 1 := by rw [hlcount, inc16_eq (by omega)]
  simp only [List.length_map, List.length_append, List.length_singleton] at hk₁ ho₁ hk₂ ho₂
  rw [← hlcount] at hk₁ ho₁
  rw [← hinc, ← hrcount] at hk₂ ho₂
  refine ⟨k₂, o₂, by simpa using hks₂, by simpa using hos₂, ?_⟩
  rw [← hinc]
  unfold btreeMerge
  refine (hpn.runs_childAt hp hleft).run_bind.trans ?_
  refine (hpn.runs_childAt hp hright).run_bind.trans ?_
  refine (Runs.load hl).run_bind.trans ((Runs.load hp).run_bind.trans ?_)
  refine (Runs.lift (hpn.read_key hsep) H).run_bind.trans ?_
  refine (Runs.lift (hpn.read_offset hsep) H).run_bind.trans ?_
  refine (Runs.lift hk₁ H).run_bind.trans ((Runs.lift ho₁ H).run_bind.trans ?_)
  refine (Runs.load hr).run_bind.trans ((Runs.lift hk₂ H).run_bind.trans ?_)
  refine (Runs.lift ho₂ H).run_bind.trans ?_
  exact (Runs.store hl _).run_bind

/-- The right leaf goes into the left one, with the separator between them. -/
theorem runs_btreeMerge (hL : L.Sound) (hab : a ≠ b) (had : a ≠ d) (hbd : b ≠ d)
    (hp : H.get a = some p) (hl : H.get b = some l) (hr : H.get d = some r)
    (hpn : NodeRep L p false ppar (es₁ ++ s :: es₂) (pc₁ ++ b :: d :: pc₂))
    (hpc₁ : pc₁.length = es₁.length) (hpc₂ : pc₂.length = es₂.length)
    (hln : NodeRep L l true lpar le []) (hrn : NodeRep L r true rpar re [])
    (hroom : le.length + 1 + re.length ≤ L.maxKeys) :
    ∃ H', Runs (btreeMerge a es₁.length) H () H' ∧ H'.size = H.size ∧
      (∃ n, H'.get a = some n ∧ NodeRep L n false ppar (es₁ ++ es₂) (pc₁ ++ b :: pc₂)) ∧
      (∃ n, H'.get b = some n ∧ NodeRep L n true lpar (le ++ s :: re) []) ∧
      ∀ q, q ≠ a → q ≠ b → q ≠ d → H'.get q = H.get q := by
  have hmax := hL.maxKeys_le
  have hrcount := hrn.count_eq
  obtain ⟨ks, os, hks, hos, hentries⟩ := run_btreeMerge_entries hL hp hl hr hpn hpc₁ hln hrn hroom
  let l₁ : BtreeNode K := { l with keys := ks, offsets := os, keyCount := le.length + 1 }
  let l₂ : BtreeNode K := { l₁ with keyCount := (le.length + 1 + r.keyCount) % 65536 }
  have hb₁ : (H.put b (some l₁)).get b = some l₁ := Heap.get_put_self (Heap.lt_size_of_get hl) _
  have ha₂ : ((H.put b (some l₁)).put b (some l₂)).get a = some p := by
    rw [Heap.get_put_ne hab, Heap.get_put_ne hab, hp]
  obtain ⟨p', hgap, hp'⟩ := hpn.closeGap hL hpc₁ hpc₂
  let p₁ : BtreeNode K := { p' with keyCount := dec16 p'.keyCount }
  have hd₃ : (((H.put b (some l₁)).put b (some l₂)).put a (some p₁)).get d = some r := by
    rw [Heap.get_put_ne had.symm, Heap.get_put_ne hbd.symm, Heap.get_put_ne hbd.symm, hr]
  refine ⟨(((H.put b (some l₁)).put b (some l₂)).put a (some p₁)).put d none, ?_, by simp,
    ⟨p₁, ?_, hp'⟩, ⟨l₂, ?_, ?_⟩, fun q hqa hqb hqd => ?_⟩
  · have hchildren : Runs (mergeChildren b d) (H.put b (some l₁)) () (H.put b (some l₁)) :=
      Runs.bind (Runs.load hb₁) (Runs.ite_pos hln.leaf_eq (Runs.pure _ _))
    refine hentries.trans (Runs.bind hchildren ?_)
    refine Runs.bind (Runs.load hb₁) (Runs.bind (Runs.store hb₁ l₂) ?_)
    refine Runs.bind (Runs.load ha₂) (Runs.bind (Runs.lift hgap _) ?_)
    exact Runs.bind (Runs.store ha₂ p₁) (Runs.free hd₃)
  · rw [Heap.get_put_ne had, Heap.get_put_self (by simpa using Heap.lt_size_of_get hp)]
  · rw [Heap.get_put_ne hbd, Heap.get_put_ne hab.symm,
      Heap.get_put_self (by simpa using Heap.lt_size_of_get hl)]
  · refine hln.update rfl rfl ?_ hks hos hln.slots
    show (le.length + 1 + r.keyCount) % 65536 = _
    rw [hrcount, List.length_append, List.length_cons]
    omega
  · rw [Heap.get_put_ne hqd, Heap.get_put_ne hqa, Heap.get_put_ne hqb, Heap.get_put_ne hqb]

end Merge

end Maxql.Index
