import Maxql.Index.BtreeShift
import Maxql.Lib.Bounds
import Maxql.Lib.Bytes

/-!
# What `ensure_min_keys` keeps

`Rebalanced` is what one wants of `ensure_min_keys`: the pairs below the parent
and the order of the nodes two levels down stay as they are, the tree stays a
tree, and the child has an entry to spare.  `ensureMinKeys_rebalances_iff` says
when this happens.  Two branches miss it: a right neighbour that is full is
shifted by one slot more than it has, and in a merge of two inner nodes the
children of the right one land one slot too far, behind a slot that nobody
wrote.  Both are inverted here, from a run that returns to what it left.
-/

namespace Maxql.Index

open Program SortedEntries Multiway Bytes

variable {K : Type} {L : BtreeLayout}

/-! ## A full right neighbour -/

section Full

variable {H H' : Heap (BtreeNode K)} {a b d : Addr} {p l r : BtreeNode K} {leaf : Bool}
  {ppar lpar rpar : Option Addr} {es₁ es₂ le re : List (Entry K)} {s x : Entry K}
  {pc lc m rc : List Addr}

/-- `btree_steal_right` from a full node moves a slot that is not there. -/
theorem overruns_btreeStealRight (hL : L.Sound) (hab : a ≠ b) (had : a ≠ d) (hbd : b ≠ d)
    (hp : H.get a = some p) (hl : H.get b = some l) (hr : H.get d = some r)
    (hpn : NodeRep L p false ppar (es₁ ++ s :: es₂) pc)
    (hln : NodeRep L l leaf lpar le lc)
    (hrn : NodeRep L r leaf rpar (x :: re) (m ++ rc)) (hroom : le.length < L.maxKeys)
    (hfull : (x :: re).length = L.maxKeys)
    (hlc : lc.length = arity leaf (le.length + 1)) (hm : m.length = arity leaf 1)
    (hapart : ∀ q ∈ m, q ≠ a ∧ q ≠ b ∧ q ≠ d ∧ (H.get q).isSome) :
    Overruns (btreeStealRight a es₁.length b d) H := by
  obtain ⟨H₁, hfront, hd, _⟩ :=
    run_btreeStealRight_front hL hab had hbd hp hl hr hpn hln hrn hroom hlc hm hapart
  have hcopy : copySlots r.keys 0 r.keys 1 r.keyCount = .error .outOfBounds := by
    have hlen := hrn.keys_len
    have hcount := hrn.count_eq
    unfold copySlots
    rw [if_neg (by omega)]
  have hclose : Overruns (closeFront d) H₁ :=
    (Runs.load hd).overruns_bind (Overruns.lift hcopy _).bind
  exact hfront.trans hclose

end Full

/-! ## Two inner nodes -/

section Inner

variable {H H' : Heap (BtreeNode K)} {a b d : Addr} {p l r : BtreeNode K}
  {ppar lpar rpar : Option Addr} {es₁ es₂ le re : List (Entry K)} {s : Entry K}
  {pc₁ pc₂ lc rc : List Addr}

/-- `mergeChildren` leaves a slot between the children of the two nodes. -/
theorem mergeChildren_leaves (hl : H.get b = some l) (hr : H.get d = some r)
    (hleaf : btreeNodeIsLeaf l = false) (hlcount : l.keyCount = lc.length)
    (hlc : Slots l.children (lc.map some) L.childCount)
    (hrc : Slots r.children (rc.map some) L.childCount) (hrcount : r.keyCount + 1 = rc.length)
    (hb : b ∉ rc) (hnodup : rc.Nodup) (hlive : ∀ q ∈ rc, (H.get q).isSome)
    (hrun : Runs (mergeChildren b d) H () H') :
    ∃ j junk, H'.get b = some { l with children := lc.map some ++ j :: (rc.map some ++ junk) } ∧
      ∀ q, q ≠ b → q ∉ rc → H'.get q = H.get q := by
  unfold mergeChildren at hrun
  have h₁ := (Runs.load hl).rest hrun
  rw [if_neg (by simp [hleaf])] at h₁
  have h₂ := (Runs.load hr).rest h₁
  obtain ⟨zs, H₁, hlift, h₃⟩ := h₂.exists_of_bind
  obtain ⟨hcopy, rfl⟩ := hlift.eq_of_lift
  -- the copy starts one slot behind the children
  have hroom : rc.length ≤ r.children.length ∧ lc.length + 1 + rc.length ≤ l.children.length := by
    by_contra hno
    unfold copySlots at hcopy
    rw [if_neg (by omega)] at hcopy
    cases hcopy
  obtain ⟨rjunk, hrjunk⟩ := hrc.eq
  obtain ⟨ljunk, hljunk⟩ := hlc.eq
  obtain ⟨j, ljunk, rfl⟩ : ∃ j js, ljunk = j :: js := by
    apply List.exists_cons_of_length_pos
    have hlen := congrArg List.length hljunk
    simp only [List.length_append, List.length_map] at hlen
    omega
  have hzs : zs = lc.map some ++ j :: (rc.map some ++ ljunk.drop rc.length) := by
    have hpre : l.keyCount + 1 = (lc.map some ++ [j]).length := by simp [hlcount]
    have hcut : l.children = (lc.map some ++ [j]) ++ ljunk.take rc.length
        ++ ljunk.drop rc.length := by
      rw [hljunk]
      simp
    have hlen : (ljunk.take rc.length).length = (rc.map some).length := by
      have hlen := congrArg List.length hljunk
      simp only [List.length_append, List.length_map, List.length_cons] at hlen
      rw [List.length_take, List.length_map]
      omega
    have hparts := copySlots_parts (lc.map some ++ [j]) (ljunk.take rc.length)
      (ljunk.drop rc.length) [] (rc.map some) rjunk hlen
    rw [← hcut, ← hpre, List.nil_append, ← hrjunk, List.length_nil, List.length_map,
      ← hrcount, hcopy] at hparts
    simpa [hrcount] using hparts
  let l₁ : BtreeNode K := { l with children := zs }
  have hb₁ : (H.put b (some l₁)).get b = some l₁ := Heap.get_put_self (Heap.lt_size_of_get hl) _
  have hne : ∀ q, q ≠ b → (H.put b (some l₁)).get q = H.get q := fun q hq =>
    Heap.get_put_ne hq _
  have h₄ := (Runs.store hl l₁).rest h₃
  obtain ⟨H₂, hadopt, _, _, hsame⟩ := runs_adoptChildren rc (l.keyCount + 1) hb₁
    (fun i hi => by
      show zs[l.keyCount + 1 + i]? = _
      rw [hzs, hlcount, List.getElem?_append_right (by simp; omega)]
      have hidx : lc.length + 1 + i - (lc.map some).length = i + 1 := by simp; omega
      rw [hidx, List.getElem?_cons_succ, List.getElem?_append_left (by simpa using hi)]
      simp)
    hb hnodup (fun q hq => by rw [hne q fun heq => hb (heq ▸ hq)]; exact hlive q hq)
  rw [← hrcount] at hadopt
  obtain ⟨_, rfl⟩ := hadopt.unique h₄
  refine ⟨j, ljunk.drop rc.length, ?_, fun q hqb hq => ?_⟩
  · rw [hsame b hb, hb₁, ← hzs]
  · rw [hsame q hq, hne q hqb]

/-- Copying the children of the right node needs a slot more than the two nodes have
children. -/
theorem overruns_mergeChildren (hl : H.get b = some l) (hr : H.get d = some r)
    (hleaf : btreeNodeIsLeaf l = false)
    (hroom : l.children.length < l.keyCount + 1 + (r.keyCount + 1)) :
    Overruns (mergeChildren b d) H := by
  have hcopy : copySlots l.children (l.keyCount + 1) r.children 0 (r.keyCount + 1)
      = .error .outOfBounds := by
    unfold copySlots
    rw [if_neg (by omega)]
  unfold mergeChildren
  refine (Runs.load hl).overruns_bind ?_
  rw [if_neg (by simp [hleaf])]
  exact (Runs.load hr).overruns_bind (Overruns.lift hcopy _).bind

/-- What a merge of two inner nodes leaves, if it returns. -/
theorem btreeMerge_leaves (hL : L.Sound) (hab : a ≠ b) (had : a ≠ d) (hbd : b ≠ d)
    (hp : H.get a = some p) (hl : H.get b = some l) (hr : H.get d = some r)
    (hpn : NodeRep L p false ppar (es₁ ++ s :: es₂) (pc₁ ++ b :: d :: pc₂))
    (hpc₁ : pc₁.length = es₁.length) (hpc₂ : pc₂.length = es₂.length)
    (hln : NodeRep L l false lpar le lc) (hrn : NodeRep L r false rpar re rc)
    (hlc : lc.length = le.length + 1) (hrc : rc.length = re.length + 1)
    (hroom : le.length + 1 + re.length ≤ L.maxKeys) (hnodup : rc.Nodup)
    (hapart : ∀ q ∈ rc, q ≠ a ∧ q ≠ b ∧ q ≠ d ∧ (H.get q).isSome)
    (hrun : Runs (btreeMerge a es₁.length) H () H') :
    (∃ n, H'.get a = some n ∧ NodeRep L n false ppar (es₁ ++ es₂) (pc₁ ++ b :: pc₂)) ∧
      (∃ n j junk, H'.get b = some n ∧ n.keyCount = le.length + 1 + re.length ∧
        n.children = lc.map some ++ j :: (rc.map some ++ junk)) ∧
      ∀ q, q ≠ a → q ≠ b → q ≠ d → q ∉ rc → H'.get q = H.get q := by
  have hmax := hL.maxKeys_le
  have hrcount := hrn.count_eq
  obtain ⟨ks, os, _, _, hentries⟩ := run_btreeMerge_entries hL hp hl hr hpn hpc₁ hln hrn hroom
  let l₁ : BtreeNode K := { l with keys := ks, offsets := os, keyCount := le.length + 1 }
  have hb₁ : (H.put b (some l₁)).get b = some l₁ := Heap.get_put_self (Heap.lt_size_of_get hl) _
  have hne₁ : ∀ q, q ≠ b → (H.put b (some l₁)).get q = H.get q := fun q hq =>
    Heap.get_put_ne hq _
  have hl₁leaf : btreeNodeIsLeaf l₁ = false := hln.leaf_eq
  have hl₁count : l₁.keyCount = lc.length := hlc.symm
  have hrun' : Runs (mergeChildren b d >>= fun _ => mergeRest a b d es₁.length r)
      (H.put b (some l₁)) () H' := hentries.symm.trans hrun
  obtain ⟨_, H₂, hkids, h₇⟩ := hrun'.exists_of_bind
  obtain ⟨j, junk, hb₂, hsame₂⟩ := mergeChildren_leaves hb₁
    ((hne₁ d hbd.symm).trans hr) hl₁leaf hl₁count hln.slots
    hrn.slots (by omega) (fun hmem => (hapart b hmem).2.1 rfl) hnodup
    (fun q hq => by rw [hne₁ q (hapart q hq).2.1]; exact (hapart q hq).2.2.2) hkids
  -- and from there on
  have ha₂ : H₂.get a = some p := by
    rw [hsame₂ a hab fun hmem => (hapart a hmem).1 rfl, hne₁ a hab, hp]
  have hd₂ : H₂.get d = some r := by
    rw [hsame₂ d hbd.symm fun hmem => (hapart d hmem).2.2.1 rfl, hne₁ d hbd.symm, hr]
  let l₂ : BtreeNode K := { l₁ with children := lc.map some ++ j :: (rc.map some ++ junk) }
  let l₃ : BtreeNode K := { l₂ with keyCount := (l₁.keyCount + r.keyCount) % 65536 }
  obtain ⟨p', hgap, hp'⟩ := hpn.closeGap hL hpc₁ hpc₂
  let p₁ : BtreeNode K := { p' with keyCount := dec16 p'.keyCount }
  have ha₃ : (H₂.put b (some l₃)).get a = some p := by rw [Heap.get_put_ne hab]; exact ha₂
  have h₈ := (Runs.store hb₂ l₃).rest ((Runs.load hb₂).rest h₇)
  have h₉ := (Runs.lift hgap _).rest ((Runs.load ha₃).rest h₈)
  obtain ⟨_, H₄, hstore, hfree⟩ := h₉.exists_of_bind
  obtain ⟨_, rfl⟩ := (Runs.store ha₃ p₁).unique hstore
  have hd₄ : ((H₂.put b (some l₃)).put a (some p₁)).get d = some r := by
    rw [Heap.get_put_ne had.symm, Heap.get_put_ne hbd.symm]; exact hd₂
  obtain ⟨_, rfl⟩ := (Runs.free hd₄).unique hfree
  refine ⟨⟨p₁, ?_, hp'⟩, ⟨l₃, j, junk, ?_, ?_, rfl⟩, fun q hqa hqb hqd hq => ?_⟩
  · rw [Heap.get_put_ne had, Heap.get_put_self]
    rw [Heap.size_put]
    exact Heap.lt_size_of_get ha₂
  · rw [Heap.get_put_ne hbd, Heap.get_put_ne hab.symm, Heap.get_put_self]
    exact Heap.lt_size_of_get hb₂
  · show (le.length + 1 + r.keyCount) % 65536 = _
    rw [hrcount]
    omega
  · rw [Heap.get_put_ne hqd, Heap.get_put_ne hqa, Heap.get_put_ne hqb, hsame₂ q hqb hq,
      hne₁ q hqb]

end Inner

/-! ## The order of the children -/

section Order

variable {tree : Btree K} {H H' : Heap (BtreeNode K)} {h : Nat} {par : Option Addr} {lo : Nat}
  {a : Addr} {es₁ es₂ : List (Entry K)} {s : Entry K}

/-- A node has one list of children of each length. -/
theorem NodeRep.children_unique {n : BtreeNode K} {leaf leaf' : Bool} {par par' : Option Addr}
    {es es' : List (Entry K)} {cs cs' : List Addr} (hn : NodeRep L n leaf par es cs)
    (hn' : NodeRep L n leaf' par' es' cs') (hlen : cs.length = es.length + 1)
    (hlen' : cs'.length = es'.length + 1) : cs = cs' := by
  obtain ⟨junk, hcs⟩ := hn.children_eq
  obtain ⟨junk', hcs'⟩ := hn'.children_eq
  have hcount := hn.count_eq.symm.trans hn'.count_eq
  rw [hcs] at hcs'
  have hmap := (List.append_inj hcs' (by simp; omega)).1
  exact List.map_injective_iff.2 (Option.some_injective _) hmap

theorem grandchildren_labels (cs : List (AddrTree K (h + 1))) :
    (grandchildren cs).map Node.label = cs.flatMap (childAddrs (h + 1)) := by
  unfold grandchildren
  rw [List.map_flatMap]
  rfl

/-- The same cells hold the same children. -/
theorem childAddrs_congr {min max : Nat} {p p' : Option Addr} :
    ∀ {cs ds : List (AddrTree K (h + 1))},
    (∀ c ∈ cs, Rep L H (h + 1) p c ∧ Fits min max (h + 1) min c ∧
      H'.get c.label = H.get c.label) →
    (∀ d ∈ ds, Rep L H' (h + 1) p' d ∧ Fits 0 max (h + 1) 0 d) →
    ds.map Node.label = cs.map Node.label →
    ds.flatMap (childAddrs (h + 1)) = cs.flatMap (childAddrs (h + 1))
  | [], [], _, _, _ => rfl
  | c :: cs, d :: ds, hcs, hds, hlabels => by
    rw [List.map_cons, List.map_cons, List.cons.injEq] at hlabels
    obtain ⟨hc, hcfit, hsame⟩ := hcs c List.mem_cons_self
    obtain ⟨hd, hdfit⟩ := hds d List.mem_cons_self
    obtain ⟨n, hn, hnc⟩ := hc.root
    obtain ⟨n', hn', hnd⟩ := hd.root
    rw [hlabels.1, hsame, hn, Option.some.injEq] at hn'
    subst hn'
    have hrest := childAddrs_congr (fun c hc => hcs c (List.mem_cons_of_mem _ hc))
      (fun d hd => hds d (List.mem_cons_of_mem _ hd)) hlabels.2
    have hhead := hnd.children_unique hnc (by simpa [childAddrs] using hdfit.children_length)
      (by simpa [childAddrs] using hcfit.children_length)
    rw [List.flatMap_cons, List.flatMap_cons, hhead, hrest]

/-- After a merge of two inner nodes, no tree of the heap has the children in their old
order. -/
theorem btreeMerge_disorders (hL : tree.layout.Sound) {cs₁ cs₂ : List (AddrTree K (h + 1))}
    {l r : AddrTree K (h + 1)} {t' : AddrTree K (h + 2)}
    (ht : Subtree tree H (h + 2) par lo ⟨a, es₁ ++ s :: es₂, cs₁ ++ [l, r] ++ cs₂⟩)
    (hcs₁ : cs₁.length = es₁.length) (hcs₂ : cs₂.length = es₂.length)
    (hroom : l.entries.length + 1 + r.entries.length ≤ tree.layout.maxKeys)
    (hpos : 0 < r.entries.length) (hrun : Runs (btreeMerge a es₁.length) H () H')
    (hrep : Rep tree.layout H' (h + 2) par t')
    (hfits : Fits 0 tree.layout.maxKeys (h + 2) 0 t') (hlabel : t'.label = a) :
    grandchildren t'.children ≠ grandchildren (cs₁ ++ [l, r] ++ cs₂) := by
  intro hkids
  have hlmem : l ∈ cs₁ ++ [l, r] ++ cs₂ := by simp
  have hrmem : r ∈ cs₁ ++ [l, r] ++ cs₂ := by simp
  obtain ⟨p, hp, hpn⟩ := ht.rep.root
  obtain ⟨ln, hl, hln⟩ := (ht.rep.child hlmem).root
  obtain ⟨rn, hr, hrn⟩ := (ht.rep.child hrmem).root
  have hllen := (ht.fits.child hlmem).children_length
  have hrlen := (ht.fits.child hrmem).children_length
  have hlc : (childAddrs (h + 1) l).length = l.entries.length + 1 := by
    simpa [childAddrs] using hllen
  have hrc : (childAddrs (h + 1) r).length = r.entries.length + 1 := by
    simpa [childAddrs] using hrlen
  obtain ⟨hnot, hnodup, hside⟩ := ht.window
  have hwindow : [l, r].flatMap (labels (h + 1)) = labels (h + 1) l ++ labels (h + 1) r := by
    simp
  rw [hwindow] at hnot hnodup hside
  rw [labels_eq l, labels_eq r] at hnot hnodup hside
  obtain ⟨hlnodup, hrnodup, hdis⟩ := List.nodup_append.1 hnodup
  have hsub := kidRoots_sublist_labels (h := h + 1) r.children
  have hrcmem : ∀ q ∈ childAddrs (h + 1) r, q ∈ kidLabels (h + 1) r.children := by
    rw [childAddrs_eq]
    exact hsub.subset
  have hlive : ∀ q ∈ childAddrs (h + 1) r, (H.get q).isSome := by
    rw [childAddrs_eq]
    exact (rep_iff.1 (ht.rep.child hrmem)).2.live
  have hkidsNodup : (childAddrs (h + 1) r).Nodup := by
    rw [childAddrs_eq]
    exact (List.nodup_cons.1 hrnodup).2.sublist hsub
  have hab : a ≠ l.label := fun heq => hnot (by simp [heq])
  have had : a ≠ r.label := fun heq => hnot (by simp [heq])
  have hbd : l.label ≠ r.label := hdis l.label (by simp) r.label (by simp)
  have hpn' : NodeRep tree.layout p false par (es₁ ++ s :: es₂)
      (cs₁.map Node.label ++ l.label :: r.label :: cs₂.map Node.label) := by
    simpa [childAddrs] using hpn
  obtain ⟨⟨n, hn, hnn⟩, ⟨m, j, junk, hm, hmcount, hmch⟩, hsame⟩ := btreeMerge_leaves hL hab had
    hbd hp hl hr hpn' (by simpa using hcs₁) (by simpa using hcs₂) hln hrn hlc hrc hroom hkidsNodup
    (fun q hq => by
      have hq' := hrcmem q hq
      refine ⟨fun heq => hnot ?_, fun heq => ?_, fun heq => ?_, hlive q hq⟩
      · simp [← heq, hq']
      · exact hdis l.label (by simp) q (by simp [hq']) heq.symm
      · exact (List.nodup_cons.1 hrnodup).1 (heq ▸ hq'))
    hrun
  -- the children of the parent
  obtain ⟨n', hn', hnn'⟩ := hrep.root
  rw [hlabel, hn, Option.some.injEq] at hn'
  subst hn'
  have hroots := hnn'.children_unique hnn (by simpa [childAddrs] using hfits.children_length)
    (by simp; omega)
  obtain ⟨ds₁, ds, hds, hds₁, hrest⟩ := List.map_eq_append_iff.1 hroots
  obtain ⟨d, ds₂, rfl, hdlabel, _⟩ := List.map_eq_cons_iff.1 hrest
  have hdmem : d ∈ t'.children := by simp [hds]
  have hold : ∀ c ∈ cs₁, Rep tree.layout H (h + 1) (some a) c ∧
      Fits tree.layout.minKeys tree.layout.maxKeys (h + 1) tree.layout.minKeys c ∧
      H'.get c.label = H.get c.label := fun c hc => by
    have hcmem : c ∈ cs₁ ++ [l, r] ++ cs₂ := by simp [hc]
    refine ⟨ht.rep.child hcmem, ht.fits.child hcmem, ?_⟩
    obtain ⟨hca, hcw⟩ := hside c (List.mem_append_left _ hc) c.label (label_mem_labels _ c)
    simp only [List.mem_append, List.mem_cons, not_or] at hcw
    exact hsame c.label hca hcw.1.1 hcw.2.1 fun hmem => hcw.2.2 (hrcmem _ hmem)
  have hnew : ∀ d ∈ ds₁, Rep tree.layout H' (h + 1) (some t'.label) d ∧
      Fits 0 tree.layout.maxKeys (h + 1) 0 d := fun d hd => by
    have hdmem' : d ∈ t'.children := by simp [hds, hd]
    exact ⟨hrep.child hdmem', hfits.child hdmem'⟩
  have hleft := childAddrs_congr hold hnew hds₁
  -- the children of the left node, up to the first slot behind the stray one
  obtain ⟨m', hm', hdn⟩ := (hrep.child hdmem).root
  rw [hdlabel, hm, Option.some.injEq] at hm'
  subst hm'
  have hdlen : (childAddrs (h + 1) d).length = l.entries.length + 1 + r.entries.length + 1 := by
    have hlen := (hfits.child hdmem).children_length
    rw [← hdn.count_eq, hmcount] at hlen
    rw [← hlen, childAddrs, List.length_map]
  have horder := congrArg (List.map Node.label) hkids
  rw [grandchildren_labels, grandchildren_labels, hds] at horder
  simp only [List.flatMap_append, List.flatMap_cons, List.flatMap_nil, List.append_nil,
    List.append_assoc, hleft] at horder
  have htail := List.append_cancel_left horder
  rw [← List.append_assoc (childAddrs (h + 1) l)] at htail
  have hkidsEq := (List.append_inj htail (by rw [hdlen, List.length_append, hlc, hrc]; omega)).1
  obtain ⟨r₀, rest, hrest₀⟩ := List.exists_cons_of_length_pos
    (l := childAddrs (h + 1) r) (by omega)
  obtain ⟨r₁, rs, hrs⟩ := List.exists_cons_of_length_pos (l := rest)
    (by rw [hrest₀, List.length_cons] at hrc; omega)
  rw [hrs] at hrest₀
  obtain ⟨junk', hslots⟩ := hdn.children_eq
  rw [hmch, hkidsEq, hrest₀] at hslots
  simp only [List.map_append, List.map_cons, List.append_assoc, List.cons_append] at hslots
  have hstray := List.append_cancel_left hslots
  simp only [List.cons.injEq, Option.some.injEq] at hstray
  obtain ⟨_, hsame₀, _⟩ := hstray
  rw [hrest₀] at hkidsNodup
  exact (List.nodup_cons.1 hkidsNodup).1 (by simp [hsame₀])

end Order

/-! ## When it keeps the tree -/

/-- The parent `t` with the child `c` became `t'`: the same pairs in the same order, the same
nodes two levels down in the same order, a tree in memory with no node beyond its room, and the
child that covers what `c` covered has an entry to spare. -/
structure Rebalanced (tree : Btree K) (H' : Heap (BtreeNode K)) (h : Nat) (par : Option Addr)
    (t : AddrTree K (h + 1)) (c : AddrTree K h) (t' : AddrTree K (h + 1)) : Prop where
  label_eq : t'.label = t.label
  toList_eq : toList (h + 1) t' = toList (h + 1) t
  rep : Rep tree.layout H' (h + 1) par t'
  fits : Fits 0 tree.layout.maxKeys (h + 1) 0 t'
  order : (t'.children.map Node.label).Sublist (t.children.map Node.label)
  kids : grandchildren t'.children = grandchildren t.children
  covers : ∃ d ∈ t'.children, (toList h c).Sublist (toList h d) ∧
    tree.layout.minKeys < d.entries.length

section Iff

variable {tree : Btree K} (hL : tree.layout.Sound) (hc : TotalCmp tree.compare)
  {H H' : Heap (BtreeNode K)} {h : Nat} {par : Option Addr} {lo : Nat} {a : Addr}
  {es₁ es₂ : List (Entry K)} {cs₁ cs₂ : List (AddrTree K h)} {c : AddrTree K h}

theorem Prepared.rebalanced {t : AddrTree K (h + 1)} {as₁ as₂ : List (Entry K)}
    {ds₁ ds₂ : List (AddrTree K h)} {d : AddrTree K h} {k : K}
    (hprep : Prepared tree H H' h par lo t as₁ as₂ ds₁ d ds₂ k)
    (hkept : Kept t.children (ds₁ ++ d :: ds₂) c d) :
    Rebalanced tree H' h par t c ⟨t.label, as₁ ++ as₂, ds₁ ++ d :: ds₂⟩ where
  label_eq := rfl
  toList_eq := hprep.toList_eq
  rep := hprep.subtree.rep
  fits := hprep.subtree.fits.mono (Nat.zero_le _) (Nat.zero_le _)
  order := hkept.order
  kids := hkept.kids
  covers := ⟨d, by simp, hkept.covers, hprep.spare⟩

include hL hc

/-- With room to shift, `ensure_min_keys` rebalances. -/
theorem ensureMinKeys_rebalances
    (ht : Subtree tree H (h + 1) par lo ⟨a, es₁ ++ es₂, cs₁ ++ c :: cs₂⟩)
    (hpos : 0 < (es₁ ++ es₂).length) (hcs₁ : cs₁.length = es₁.length)
    (hcs₂ : cs₂.length = es₂.length)
    (hroom : RoomToShift tree.layout.minKeys tree.layout.maxKeys h cs₁ c cs₂) :
    ∃ H' t', Runs (ensureMinKeys tree a cs₁.length) H () H' ∧
      Rebalanced tree H' h par ⟨a, es₁ ++ es₂, cs₁ ++ c :: cs₂⟩ c t' := by
  have hthree := hL.three_le
  have hmin := hL.minKeys_eq
  have hcfit := ht.fits.child (c := c) (by simp)
  have hcmin := hcfit.lo_le
  -- any key of the child tells its neighbours apart
  obtain ⟨e, _, hes⟩ := List.exists_cons_of_length_pos (l := c.entries) (by omega)
  have he : e ∈ toList h c := by
    refine (entries_sublist_toList (fits_iff.1 hcfit).2.2).subset ?_
    simp [hes]
  obtain ⟨hk₁, hk₂⟩ := child_bounds hcs₁.symm hcs₂.symm ht.asc he
  obtain ⟨H', as₁, as₂, ds₁, ds₂, hrun, hprep, hkept, _⟩ := exists_prepared hL hc ht hpos hcs₁ hcs₂
    hk₁ (fun e he => Int.le_of_lt (hk₂ e he)) hroom
  exact ⟨H', _, hcs₁ ▸ hrun, hprep.rebalanced hkept⟩

omit hc in
/-- A full right neighbour gives nothing. -/
theorem Subtree.overruns_stealRight {r : AddrTree K h} {s : Entry K} {es₂ : List (Entry K)}
    {cs₂ : List (AddrTree K h)}
    (ht : Subtree tree H (h + 1) par lo ⟨a, es₁ ++ s :: es₂, cs₁ ++ c :: r :: cs₂⟩)
    (hcs₁ : cs₁.length = es₁.length) (hnot : ¬tree.layout.minKeys < c.entries.length)
    (hfull : r.entries.length = tree.layout.maxKeys) :
    Overruns (btreeStealRight a cs₁.length c.label r.label) H := by
  have hthree := hL.three_le
  have hmin := hL.minKeys_eq
  have hcmem : c ∈ cs₁ ++ c :: r :: cs₂ := by simp
  have hrmem : r ∈ cs₁ ++ c :: r :: cs₂ := by simp
  obtain ⟨p, hp, hpn⟩ := ht.rep.root
  obtain ⟨n, hn, hnn⟩ := (ht.rep.child hcmem).root
  obtain ⟨⟨rn, hr, hrn⟩, hrk⟩ := rep_iff.1 (ht.rep.child hrmem)
  obtain ⟨hclen, _⟩ := childrenFit_iff.1 (fits_iff.1 (ht.fits.child hcmem)).2.2
  have hrfit := (fits_iff.1 (ht.fits.child hrmem)).2.2
  obtain ⟨x, re, m, rc, heq, hm, _⟩ := exists_first hrfit (List.length_pos_iff.1 (by omega))
  have htwo : cs₁ ++ c :: r :: cs₂ = cs₁ ++ [c, r] ++ cs₂ := by simp
  rw [htwo] at ht
  obtain ⟨hout, hnodup, _⟩ := ht.window
  have hwindow : [c, r].flatMap (labels h) = labels h c ++ labels h r := by simp
  rw [hwindow, labels_eq c, labels_eq r] at hout hnodup
  obtain ⟨_, hrnodup, hdis⟩ := List.nodup_append.1 hnodup
  have hmsub : ∀ q ∈ kidRoots h m, q ∈ kidLabels h r.children := fun q hq => by
    refine (kidRoots_sublist_labels (h := h) r.children).subset ?_
    rw [heq, kidRoots_append]
    exact List.mem_append_left _ hq
  have hrents : r.entries = x :: re := by rw [heq]
  have hrchildren : r.children = m ++ rc := by rw [heq]
  rw [childAddrs_eq, hrents, hrchildren, kidRoots_append] at hrn
  rw [childAddrs_eq] at hnn
  rw [hcs₁]
  refine overruns_btreeStealRight hL (fun hab => hout (by simp [hab]))
    (fun had => hout (by simp [had])) (hdis c.label (by simp) r.label (by simp)) hp hn hr hpn hnn
    hrn (by omega) (hrents ▸ hfull) (kidRoots_length c.children hclen) (kidRoots_length m hm)
    fun q hq => ⟨fun hqa => hout ?_, fun hqc => ?_, fun hqr => ?_, ?_⟩
  · simp [← hqa, hmsub q hq]
  · exact hdis c.label (by simp) q (by simp [hmsub q hq]) hqc.symm
  · exact (List.nodup_cons.1 hrnodup).1 (hqr ▸ hmsub q hq)
  · refine hrk.live q ?_
    rw [hrchildren, kidRoots_append]
    exact List.mem_append_left _ hq

omit hc in
/-- Without room to shift, `ensure_min_keys` leaves the arrays at a full right neighbour, or
there is nothing but a merge of two inner nodes. -/
theorem Subtree.overruns_or_merges
    (ht : Subtree tree H (h + 1) par lo ⟨a, es₁ ++ es₂, cs₁ ++ c :: cs₂⟩)
    (hcs₁ : cs₁.length = es₁.length) (hcs₂ : cs₂.length = es₂.length)
    (hroom : ¬RoomToShift tree.layout.minKeys tree.layout.maxKeys h cs₁ c cs₂) :
    (spare tree.layout.minKeys cs₂.head? = true ∧ Overruns (ensureMinKeys tree a cs₁.length) H) ∨
      (¬tree.layout.minKeys < c.entries.length ∧
        spare tree.layout.minKeys cs₁.getLast? = false ∧
        spare tree.layout.minKeys cs₂.head? = false ∧ h ≠ 0) := by
  unfold RoomToShift at hroom
  simp only [not_or, Bool.not_eq_true] at hroom
  obtain ⟨hnot, hleft, hright, hmerge⟩ := hroom
  by_cases hspare : spare tree.layout.minKeys cs₂.head? = true
  · left
    cases cs₂ with
    | nil => simp [spare] at hspare
    | cons r cs₂ =>
      cases es₂ with
      | nil => simp at hcs₂
      | cons s es₂ =>
        have hrmin : tree.layout.minKeys < r.entries.length := by simpa [spare] using hspare
        have hrmax := (ht.fits.child (c := r) (by simp)).le_max
        have hfull : r.entries.length = tree.layout.maxKeys := by
          by_contra hne
          exact hright ⟨r, rfl, hrmin, by omega⟩
        exact ⟨hspare, (ht.run_ensure_right hnot hleft rfl hspare).trans
          (ht.overruns_stealRight hL hcs₁ hnot hfull)⟩
  · right
    have hspare' : spare tree.layout.minKeys cs₂.head? = false := by simpa using hspare
    exact ⟨hnot, hleft, hspare', fun hzero => hmerge ⟨hspare', hzero⟩⟩

omit hc in
/-- Without room to shift, it does not rebalance. -/
theorem not_rebalanced
    (ht : Subtree tree H (h + 1) par lo ⟨a, es₁ ++ es₂, cs₁ ++ c :: cs₂⟩)
    (hpos : 0 < (es₁ ++ es₂).length) (hcs₁ : cs₁.length = es₁.length)
    (hcs₂ : cs₂.length = es₂.length)
    (hroom : ¬RoomToShift tree.layout.minKeys tree.layout.maxKeys h cs₁ c cs₂)
    {t' : AddrTree K (h + 1)} (hrun : Runs (ensureMinKeys tree a cs₁.length) H () H') :
    ¬Rebalanced tree H' h par ⟨a, es₁ ++ es₂, cs₁ ++ c :: cs₂⟩ c t' := by
  intro hreb
  rcases ht.overruns_or_merges hL hcs₁ hcs₂ hroom with ⟨_, hover⟩ | ⟨hnot, hleft, hright, hheight⟩
  · exact hover.not_runs hrun
  have hthree := hL.three_le
  have hmin := hL.minKeys_eq
  obtain ⟨as₁, s, as₂, ds₁, l, r, ds₂, hes, hcs, hds₁, hds₂, hl, hr, hmerge⟩ :=
    ht.run_ensure_two rfl hpos hcs₁ hcs₂ hnot hleft hright
  cases h with
  | zero => exact hheight rfl
  | succ h =>
    have hrun' : Runs (btreeMerge a as₁.length) H () H' := hmerge.symm.trans hrun
    have hkids := hreb.kids
    simp only [hcs] at hkids
    rw [hes, hcs] at ht
    exact btreeMerge_disorders hL ht hds₁ hds₂ (by omega) (by omega) hrun' hreb.rep hreb.fits
      hreb.label_eq hkids

end Iff

/-- In a tree that satisfies the invariant, `ensure_min_keys` rebalances exactly when there is
room to shift. -/
theorem ensureMinKeys_rebalances_iff {nodeSize keySize : Nat} {tree : Btree K}
    (hmax : 3 ≤ (btreeLayoutCreate nodeSize keySize).maxKeys)
    (hlayout : tree.layout = btreeLayoutCreate nodeSize keySize) (hc : TotalCmp tree.compare)
    {H : Heap (BtreeNode K)} {h : Nat} {par : Option Addr} {lo i : Nat} {t : AddrTree K (h + 1)}
    {c : AddrTree K h} (ht : Subtree tree H (h + 1) par lo t) (hlo : rootMin (h + 1) ≤ lo)
    (hi : t.children[i]? = some c) :
    (∃ H' t', Runs (ensureMinKeys tree t.label i) H () H' ∧ Rebalanced tree H' h par t c t') ↔
      RoomToShift tree.layout.minKeys tree.layout.maxKeys h (t.children.take i) c
        (t.children.drop (i + 1)) := by
  have hL : tree.layout.Sound := hlayout ▸ sound_btreeLayoutCreate hmax
  obtain ⟨a, es, cs⟩ := t
  have hlen : cs.length = es.length + 1 := ht.fits.children_length
  have hlo' : lo ≤ es.length := ht.fits.lo_le
  have hlt : i < cs.length := (List.getElem?_eq_some_iff.1 hi).1
  have hcs : cs = cs.take i ++ c :: cs.drop (i + 1) := eq_take_cons_drop hi
  have hes : es = es.take i ++ es.drop i := (List.take_append_drop i es).symm
  have hcs₁ : (cs.take i).length = (es.take i).length := by
    rw [List.length_take, List.length_take]
    omega
  have hcs₂ : (cs.drop (i + 1)).length = (es.drop i).length := by
    rw [List.length_drop, List.length_drop]
    omega
  have hindex : (cs.take i).length = i := List.length_take_of_le (Nat.le_of_lt hlt)
  have hpos : 0 < (es.take i ++ es.drop i).length := by
    rw [← hes]
    exact Nat.lt_of_lt_of_le hlo hlo'
  have hfocus : (⟨a, es, cs⟩ : AddrTree K (h + 1))
      = ⟨a, es.take i ++ es.drop i, cs.take i ++ c :: cs.drop (i + 1)⟩ := by
    rw [← hes, ← hcs]
  rw [hfocus] at ht
  constructor
  · rintro ⟨H', t', hrun, hreb⟩
    rw [hfocus] at hreb
    by_contra hroom
    exact not_rebalanced hL ht hpos hcs₁ hcs₂ hroom (hindex.symm ▸ hrun) hreb
  · intro hroom
    obtain ⟨H', t', hrun, hreb⟩ := ensureMinKeys_rebalances hL hc ht hpos hcs₁ hcs₂ hroom
    rw [hindex] at hrun
    rw [← hfocus] at hreb
    exact ⟨H', t', hrun, hreb⟩

/-! ## Three levels

Keys of 1000 bytes leave room for four in a node of 4096 bytes.  The tree has a
root, two inner nodes and four leaves with one key each. -/

/-- A node with these entries and children and nothing behind them. -/
def filledNode [Inhabited K] (layout : BtreeLayout) (parent : Option Addr) (flags : UInt8)
    (es : List (Entry K)) (cs : List Addr) : BtreeNode K :=
  { parent
    children := cs.map some ++ List.replicate (layout.childCount - cs.length) none
    flags
    keyCount := es.length
    keys := es.map Prod.fst ++ List.replicate (layout.maxKeys - es.length) default
    offsets := es.map Prod.snd ++ List.replicate (layout.maxKeys - es.length) 0 }

theorem nodeRep_filledNode [Inhabited K] (parent : Option Addr) (flags : UInt8)
    {es : List (Entry K)} {cs : List Addr} (hes : es.length ≤ L.maxKeys)
    (hcs : cs.length ≤ L.childCount) :
    NodeRep L (filledNode L parent flags es cs) (flagIsLeaf flags) parent es cs := by
  refine ⟨rfl, rfl, rfl, ⟨_, rfl⟩, ⟨_, rfl⟩, ⟨_, rfl⟩, ?_, ?_, ?_⟩
  · simp only [filledNode, List.length_append, List.length_map, List.length_replicate]
    omega
  · simp only [filledNode, List.length_append, List.length_map, List.length_replicate]
    omega
  · simp only [filledNode, List.length_append, List.length_map, List.length_replicate]
    omega

def shortKey (b : UInt8) : Fixed 1000 :=
  ⟨b :: List.replicate 999 0, by rw [List.length_cons, List.length_replicate]⟩

def shortKeyTree : Btree (Fixed 1000) :=
  { btreeCreate 4096 1000 fun a b => memcmp a.1 b.1 with root := some 0 }

/-- The entry with the key `b`. -/
def shortEntry (b : UInt8) : Entry (Fixed 1000) := (shortKey b, 0)

theorem ascending_shortEntries {bs : List UInt8} (hbs : bs.Pairwise (· < ·)) :
    Ascending shortKeyTree.compare (bs.map shortEntry) :=
  List.pairwise_map.2 (hbs.imp memcmp_cons_neg)

def sevenKeysHeap : Heap (BtreeNode (Fixed 1000)) :=
  let node := filledNode shortKeyTree.layout
  ⟨[some (node none 0 [shortEntry 4] [1, 2]),
    some (node (some 0) 0 [shortEntry 2] [3, 4]),
    some (node (some 0) 0 [shortEntry 6] [5, 6]),
    some (node (some 1) btreeNodeLeaf [shortEntry 1] []),
    some (node (some 1) btreeNodeLeaf [shortEntry 3] []),
    some (node (some 2) btreeNodeLeaf [shortEntry 5] []),
    some (node (some 2) btreeNodeLeaf [shortEntry 7] [])]⟩

/-- The left half of the tree, below the node 1. -/
def leftHalfTree : AddrTree (Fixed 1000) 1 :=
  ⟨1, [shortEntry 2], [⟨3, [shortEntry 1], []⟩, ⟨4, [shortEntry 3], []⟩]⟩

def rightHalfTree : AddrTree (Fixed 1000) 1 :=
  ⟨2, [shortEntry 6], [⟨5, [shortEntry 5], []⟩, ⟨6, [shortEntry 7], []⟩]⟩

def sevenKeysTree : AddrTree (Fixed 1000) 2 :=
  ⟨0, [shortEntry 4], [leftHalfTree, rightHalfTree]⟩

theorem shortKey_layout : shortKeyTree.layout.maxKeys = 4 ∧ shortKeyTree.layout.childCount = 5 ∧
    shortKeyTree.layout.minKeys = 1 := by decide

theorem shortNode_rep (par : Option Addr) (flags : UInt8) {es : List (Entry (Fixed 1000))}
    {cs : List Addr} (hes : es.length ≤ 4) (hcs : cs.length ≤ 5) :
    NodeRep shortKeyTree.layout (filledNode shortKeyTree.layout par flags es cs)
      (flagIsLeaf flags) par es cs := by
  obtain ⟨hmax, hchild, _⟩ := shortKey_layout
  exact nodeRep_filledNode par flags (by omega) (by omega)

theorem shortLeaf_rep {H : Heap (BtreeNode (Fixed 1000))} {a par : Addr}
    {es : List (Entry (Fixed 1000))} (hes : es.length ≤ 4)
    (hget : H.get a = some (filledNode shortKeyTree.layout (some par) btreeNodeLeaf es [])) :
    Rep shortKeyTree.layout H 0 (some par) ⟨a, es, []⟩ :=
  ⟨_, hget, shortNode_rep _ _ hes (by simp)⟩

theorem sevenKeysTree_rep : Rep shortKeyTree.layout sevenKeysHeap 2 none sevenKeysTree := by
  refine ⟨⟨_, rfl, shortNode_rep _ _ (by simp) (by simp)⟩, ?_⟩
  simp only [sevenKeysTree, List.forall_mem_cons, List.not_mem_nil, false_imp_iff, implies_true,
    and_true]
  refine ⟨⟨⟨_, rfl, shortNode_rep _ _ (by simp) (by simp)⟩, ?_⟩,
    ⟨⟨_, rfl, shortNode_rep _ _ (by simp) (by simp)⟩, ?_⟩⟩
  · simp only [leftHalfTree, List.forall_mem_cons, List.not_mem_nil, false_imp_iff, implies_true,
      and_true]
    exact ⟨shortLeaf_rep (by simp) rfl, shortLeaf_rep (by simp) rfl⟩
  · simp only [rightHalfTree, List.forall_mem_cons, List.not_mem_nil, false_imp_iff, implies_true,
      and_true]
    exact ⟨shortLeaf_rep (by simp) rfl, shortLeaf_rep (by simp) rfl⟩

theorem sevenKeysTree_subtree : Subtree shortKeyTree sevenKeysHeap 2 none 1 sevenKeysTree := by
  obtain ⟨hmax, _, hmin⟩ := shortKey_layout
  refine ⟨sevenKeysTree_rep, by decide, ?_, ?_⟩
  · rw [hmax, hmin]
    simp [Fits, sevenKeysTree, leftHalfTree, rightHalfTree]
  · have hlist : toList 2 sevenKeysTree = [1, 2, 3, 4, 5, 6, 7].map shortEntry := rfl
    rw [hlist]
    exact ascending_shortEntries (by decide)

/-- The left half has two leaves with one key each, which become one. -/
theorem ensureMinKeys_rebalances_iff_leftHalf :
    ∃ H' t', Runs (ensureMinKeys shortKeyTree 1 0) sevenKeysHeap () H' ∧
      Rebalanced shortKeyTree H' 0 (some 0) leftHalfTree ⟨3, [shortEntry 1], []⟩ t' := by
  have hsub := sevenKeysTree_subtree
  have hasc : Ascending shortKeyTree.compare (toList 1 leftHalfTree) := by
    refine hsub.asc.sublist ?_
    exact List.sublist_append_left ([1, 2, 3].map shortEntry) ([4, 5, 6, 7].map shortEntry)
  have hfirst : Subtree shortKeyTree sevenKeysHeap 2 none 1
      ⟨0, [shortEntry 4], [] ++ leftHalfTree :: [rightHalfTree]⟩ := hsub
  have ht : Subtree shortKeyTree sevenKeysHeap 1 (some 0) 1 leftHalfTree := hfirst.child hasc
  have hmax : 3 ≤ (btreeLayoutCreate 4096 1000).maxKeys := by decide
  have hlayout : shortKeyTree.layout = btreeLayoutCreate 4096 1000 := rfl
  have hc : TotalCmp shortKeyTree.compare := totalCmp_memcmp 1000
  refine (ensureMinKeys_rebalances_iff hmax hlayout hc ht (Nat.le_refl 1) rfl).2 ?_
  exact Or.inr (Or.inr (Or.inr ⟨rfl, rfl⟩))

/-- The halves are inner nodes with one key each.  Their merge puts a null pointer between the
children of the two. -/
theorem sevenKeys_misplaced :
    Subtree shortKeyTree sevenKeysHeap 2 none 1 sevenKeysTree ∧
      (((ensureMinKeys shortKeyTree 0 0).run sevenKeysHeap).toOption.bind fun r => r.2.get 1).map
        (fun n => (n.keyCount, n.children)) = some (3, [some 3, some 4, none, some 5, some 6]) ∧
      ¬∃ H' t', Runs (ensureMinKeys shortKeyTree 0 0) sevenKeysHeap () H' ∧
        Rebalanced shortKeyTree H' 1 none sevenKeysTree leftHalfTree t' := by
  refine ⟨sevenKeysTree_subtree, by decide +kernel, ?_⟩
  rintro ⟨H', t', hrun, hreb⟩
  have hL : shortKeyTree.layout.Sound := sound_btreeLayoutCreate (by decide)
  have ht : Subtree shortKeyTree sevenKeysHeap 2 none 1
      ⟨0, [] ++ [shortEntry 4], [] ++ leftHalfTree :: [rightHalfTree]⟩ := sevenKeysTree_subtree
  have hroom : ¬RoomToShift shortKeyTree.layout.minKeys shortKeyTree.layout.maxKeys 1 []
      leftHalfTree [rightHalfTree] := by
    unfold RoomToShift
    decide
  exact not_rebalanced hL ht (by decide) rfl rfl hroom hrun hreb

end Maxql.Index
