import Maxql.Index.BtreeDelete

/-!
# `ensure_min_keys` on trees

The steals and the merge of `Maxql.Index.BtreeDelete`, lifted from the nodes
they touch to the search tree around them: the reading of the tree stays as it
is, no address is added, and the nodes next to the two neighbours are not
touched.

The groups are the children of a node as one piece of memory, the replacement
of neighbours in a tree, the three ways to rebalance, and the choice between
them.
-/

namespace Maxql.Index

open Program SortedEntries Multiway

variable {K : Type}

/-! ## Children -/

section Kids

variable {L : BtreeLayout} {H H' : Heap (BtreeNode K)} {h : Nat} {a : Addr}
  {cs ds : List (Kid Addr (Entry K) h)}

/-- All children are in the heap, below the node `a`. -/
def KidsRep (L : BtreeLayout) (H : Heap (BtreeNode K)) :
    (h : Nat) → Addr → List (Kid Addr (Entry K) h) → Prop
  | 0, _, _ => True
  | h + 1, a, cs => ∀ c ∈ cs, Rep L H h (some a) c

theorem childAddrs_eq (t : AddrTree K h) : childAddrs h t = kidRoots h t.children := by
  cases h <;> rfl

theorem rep_iff {par : Option Addr} {t : AddrTree K h} :
    Rep L H h par t ↔ RootRep L H h par t ∧ KidsRep L H h t.label t.children := by
  cases h with
  | zero => exact ⟨fun ht => ⟨ht, trivial⟩, fun ht => ht.1⟩
  | succ h => exact Iff.rfl

theorem kidsRep_append :
    KidsRep L H h a (cs ++ ds) ↔ KidsRep L H h a cs ∧ KidsRep L H h a ds := by
  cases h with
  | zero => exact ⟨fun _ => ⟨trivial, trivial⟩, fun _ => trivial⟩
  | succ h => simp [KidsRep, or_imp, forall_and]

theorem KidsRep.frame (hcs : KidsRep L H h a cs)
    (hsame : ∀ q ∈ kidLabels h cs, H'.get q = H.get q) : KidsRep L H' h a cs := by
  cases h with
  | zero => trivial
  | succ h =>
    intro c hc
    exact (hcs c hc).frame fun q hq => hsame q (List.mem_flatMap.2 ⟨c, hc, hq⟩)

theorem KidsRep.live (hcs : KidsRep L H h a cs) :
    ∀ q ∈ kidRoots h cs, (H.get q).isSome := by
  cases h with
  | zero => exact fun q hq => absurd hq List.not_mem_nil
  | succ h =>
    intro q hq
    obtain ⟨c, hc, rfl⟩ := List.mem_map.1 hq
    obtain ⟨n, hn, _⟩ := (hcs c hc).parent
    rw [hn]
    rfl

/-- Children that get another parent. -/
theorem KidsRep.adopted {b : Addr} (hcs : KidsRep L H h a cs)
    (hroots : ∀ q ∈ kidRoots h cs,
      H'.get q = (H.get q).map fun n => { n with parent := some b })
    (hrest : ∀ q ∈ kidLabels h cs, q ∉ kidRoots h cs → H'.get q = H.get q)
    (hnodup : (kidLabels h cs).Nodup) : KidsRep L H' h b cs := by
  cases h with
  | zero => trivial
  | succ h =>
    intro c hc
    refine (hcs c hc).adopted (hroots c.label (List.mem_map_of_mem hc)) (fun q hq hne => ?_)
      ((List.nodup_flatMap.1 hnodup).1 c hc)
    refine hrest q (List.mem_flatMap.2 ⟨c, hc, hq⟩) fun hroot => hne ?_
    obtain ⟨c', hc', rfl⟩ := List.mem_map.1 hroot
    rw [eq_of_mem_labels hnodup hc hc' hq (label_mem_labels h c')]

end Kids

/-! ## Neighbours -/

/-- From `H` to `H'`, the cells `old` became the cells `new`, which are among them;
no other cell changed. -/
structure Shrunk (H H' : Heap (BtreeNode K)) (old new : List Addr) : Prop where
  size_eq : H'.size = H.size
  same : ∀ a, a ∉ old → H'.get a = H.get a
  sub : ∀ a ∈ new, a ∈ old

theorem Shrunk.refl (H : Heap (BtreeNode K)) (old : List Addr) : Shrunk H H old old :=
  ⟨rfl, fun _ _ => rfl, fun _ ha => ha⟩

theorem Shrunk.trans {H H' H'' : Heap (BtreeNode K)} {old mid new : List Addr}
    (h₁ : Shrunk H H' old mid) (h₂ : Shrunk H' H'' mid new) : Shrunk H H'' old new := by
  refine ⟨h₂.size_eq.trans h₁.size_eq, fun a ha => ?_, fun a ha => h₁.sub a (h₂.sub a ha)⟩
  rw [h₂.same a fun hmid => ha (h₁.sub a hmid), h₁.same a ha]

section Replace

variable {tree : Btree K} {H H' : Heap (BtreeNode K)} {h : Nat} {par : Option Addr}
  {lo lo' : Nat} {a : Addr} {es es' : List (Entry K)} {cs₁ os ms cs₂ : List (AddrTree K h)}

/-- Some neighbouring children and the nodes around them. -/
theorem Subtree.window (ht : Subtree tree H (h + 1) par lo ⟨a, es, cs₁ ++ os ++ cs₂⟩) :
    a ∉ os.flatMap (labels h) ∧ (os.flatMap (labels h)).Nodup ∧
      ∀ d ∈ cs₁ ++ cs₂, ∀ q ∈ labels h d, q ≠ a ∧ q ∉ os.flatMap (labels h) := by
  have hnodup := ht.nodup
  rw [labels_focus] at hnodup
  obtain ⟨hleft, _, hdisr⟩ := List.nodup_append.1 hnodup
  obtain ⟨hac, hos, hdisl⟩ := List.nodup_append.1 hleft
  have hnot := (List.nodup_cons.1 hac).1
  refine ⟨fun hmem => hdisl a List.mem_cons_self a hmem rfl, hos, fun d hd q hq => ?_⟩
  rcases List.mem_append.1 hd with hd | hd
  · have hmem : q ∈ cs₁.flatMap (labels h) := List.mem_flatMap.2 ⟨d, hd, hq⟩
    exact ⟨fun heq => hnot (heq ▸ hmem),
      fun hos' => hdisl q (List.mem_cons_of_mem _ hmem) q hos' rfl⟩
  · have hmem : q ∈ cs₂.flatMap (labels h) := List.mem_flatMap.2 ⟨d, hd, hq⟩
    exact ⟨fun heq => hdisr a (by simp) q hmem heq.symm,
      fun hos' => hdisr q (List.mem_append_right _ hos') q hmem rfl⟩

variable (H' lo' es' ms) in
/-- The children `os` of the node `a`, and the entries of `a`, give way to others. -/
theorem Subtree.replace (ht : Subtree tree H (h + 1) par lo ⟨a, es, cs₁ ++ os ++ cs₂⟩)
    (hroot : ∃ n, H'.get a = some n ∧
      NodeRep tree.layout n false par es' ((cs₁ ++ ms ++ cs₂).map Node.label))
    (hms : ∀ c ∈ ms, Rep tree.layout H' h (some a) c ∧
      Fits tree.layout.minKeys tree.layout.maxKeys h tree.layout.minKeys c)
    (hnodup : (ms.flatMap (labels h)).Nodup)
    (hsub : ∀ q ∈ ms.flatMap (labels h), q ∈ os.flatMap (labels h))
    (hsize : H'.size = H.size)
    (hsame : ∀ q, q ≠ a → q ∉ os.flatMap (labels h) → H'.get q = H.get q)
    (hasc : Ascending tree.compare (toList (h + 1) ⟨a, es', cs₁ ++ ms ++ cs₂⟩))
    (hlo : lo' ≤ es'.length) (hmax : es'.length ≤ tree.layout.maxKeys)
    (hlen : (cs₁ ++ ms ++ cs₂).length = es'.length + 1) :
    Subtree tree H' (h + 1) par lo' ⟨a, es', cs₁ ++ ms ++ cs₂⟩ ∧
      Shrunk H H' (labels (h + 1) ⟨a, es, cs₁ ++ os ++ cs₂⟩)
        (labels (h + 1) ⟨a, es', cs₁ ++ ms ++ cs₂⟩) := by
  obtain ⟨_, _, hside⟩ := ht.window
  have hmem : ∀ d ∈ cs₁ ++ cs₂, d ∈ cs₁ ++ os ++ cs₂ := fun d hd => by
    rcases List.mem_append.1 hd with hd | hd
    · simp [hd]
    · simp [hd]
  have hkeep : ∀ d ∈ cs₁ ++ cs₂, Rep tree.layout H' h (some a) d := fun d hd =>
    (ht.rep.child (hmem d hd)).frame fun q hq => hsame q (hside d hd q hq).1 (hside d hd q hq).2
  have hcases : ∀ d ∈ cs₁ ++ ms ++ cs₂, d ∈ ms ∨ d ∈ cs₁ ++ cs₂ := fun d hd => by
    simp only [List.mem_append] at hd ⊢
    tauto
  have hnew : (labels (h + 1) ⟨a, es', cs₁ ++ ms ++ cs₂⟩).Nodup := by
    have hold := ht.nodup
    have hlt := ht.rep.lt_size
    rw [labels_focus] at hold hlt ⊢
    exact nodup_exchange hold hnodup (fun q hq => Or.inl (hsub q hq)) hlt
  refine ⟨⟨⟨hroot, fun d hd => ?_⟩, hnew, ⟨hlo, hmax, hlen, fun d hd => ?_⟩, hasc⟩,
    hsize, fun q hq => ?_, fun q hq => ?_⟩
  · rcases hcases d hd with hd | hd
    · exact (hms d hd).1
    · exact hkeep d hd
  · rcases hcases d hd with hd | hd
    · exact (hms d hd).2
    · exact ht.fits.child (hmem d hd)
  · rw [labels_focus] at hq
    refine hsame q (fun heq => hq ?_) fun hos => hq ?_
    · simp [heq]
    · exact List.mem_append_left _ (List.mem_append_right _ hos)
  · rw [labels_focus] at hq ⊢
    rcases List.mem_append.1 hq with hq | hq
    · rcases List.mem_append.1 hq with hq | hq
      · exact List.mem_append_left _ (List.mem_append_left _ hq)
      · exact List.mem_append_left _ (List.mem_append_right _ (hsub q hq))
    · exact List.mem_append_right _ hq

end Replace

/-! ## Steals -/

/-- The parent `a`, its neighbouring children `b` and `d`, and what lies below
these, with the moved part `M`, are apart. -/
structure Apart (a b d : Addr) (A M B : List Addr) : Prop where
  ab : a ≠ b
  ad : a ≠ d
  bd : b ≠ d
  left : ∀ q ∈ A, q ≠ a ∧ q ≠ b ∧ q ≠ d ∧ q ∉ M
  mid : ∀ q ∈ M, q ≠ a ∧ q ≠ b ∧ q ≠ d
  right : ∀ q ∈ B, q ≠ a ∧ q ≠ b ∧ q ≠ d ∧ q ∉ M
  nodup : M.Nodup

theorem apart_of_nodup {a b d : Addr} {A M B : List Addr}
    (hnodup : (b :: (A ++ M) ++ d :: B).Nodup) (ha : a ∉ b :: (A ++ M) ++ d :: B) :
    Apart a b d A M B := by
  obtain ⟨hleft, hright, hdis⟩ := List.nodup_append.1 hnodup
  obtain ⟨hb, hAM⟩ := List.nodup_cons.1 hleft
  obtain ⟨_, hM, hdisAM⟩ := List.nodup_append.1 hAM
  obtain ⟨hd, _⟩ := List.nodup_cons.1 hright
  simp only [List.mem_append, List.mem_cons, not_or] at ha hb hd
  obtain ⟨⟨hab, haA, haM⟩, had, haB⟩ := ha
  refine ⟨hab, had, hdis b (by simp) d (by simp), fun q hq => ⟨?_, ?_, ?_, ?_⟩,
    fun q hq => ⟨?_, ?_, ?_⟩, fun q hq => ⟨?_, ?_, ?_, ?_⟩, hM⟩
  · exact fun heq => haA (heq ▸ hq)
  · exact fun heq => hb.1 (heq ▸ hq)
  · exact hdis q (by simp [hq]) d (by simp)
  · exact fun hqM => hdisAM q hq q hqM rfl
  · exact fun heq => haM (heq ▸ hq)
  · exact fun heq => hb.2 (heq ▸ hq)
  · exact hdis q (by simp [hq]) d (by simp)
  · exact fun heq => haB (heq ▸ hq)
  · exact fun heq => hdis b (by simp) q (by simp [hq]) heq.symm
  · exact fun heq => hd (heq ▸ hq)
  · exact fun hqM => hdis q (by simp [hqM]) q (by simp [hq]) rfl

section Steals

variable {tree : Btree K} (hL : tree.layout.Sound) {H H' : Heap (BtreeNode K)} {h : Nat}
  {par : Option Addr} {lo : Nat} {a b d : Addr} {es₁ es₂ le re : List (Entry K)}
  {s x : Entry K} {cs₁ cs₂ : List (AddrTree K h)} {lc m rc : List (Kid Addr (Entry K) h)}

theorem kidRoots_length (cs : List (Kid Addr (Entry K) h)) {n : Nat}
    (hlen : cs.length = kidCount h n) : (kidRoots h cs).length = arity (h == 0) n := by
  cases h with
  | zero => rfl
  | succ h => simpa [kidRoots, arity, kidCount] using hlen

/-- Two neighbours after an entry has gone from one to the other. -/
theorem Subtree.rotate {l r : AddrTree K h} (l' r' : AddrTree K h) {owner : Addr}
    {moved : List Addr}
    (ht : Subtree tree H (h + 1) par lo ⟨a, es₁ ++ s :: es₂, cs₁ ++ [l, r] ++ cs₂⟩)
    (hcs₁ : cs₁.length = es₁.length) (hl' : l'.label = l.label) (hr' : r'.label = r.label)
    (hrot : Rotated tree.layout H H' (h == 0) par (some a) (some a) a l.label r.label owner
      (es₁ ++ x :: es₂) ((cs₁ ++ [l, r] ++ cs₂).map Node.label) l'.entries
      (kidRoots h l'.children) r'.entries (kidRoots h r'.children) moved)
    (hmoved : ∀ q ∈ moved, q ∈ labels h l ++ labels h r)
    (hlk : KidsRep tree.layout H' h l.label l'.children)
    (hrk : KidsRep tree.layout H' h r.label r'.children)
    (hlf : Fits tree.layout.minKeys tree.layout.maxKeys h tree.layout.minKeys l')
    (hrf : Fits tree.layout.minKeys tree.layout.maxKeys h tree.layout.minKeys r')
    (hread : toList h l ++ s :: toList h r = toList h l' ++ x :: toList h r')
    (hlabels : (labels h l ++ labels h r).Perm (labels h l' ++ labels h r')) :
    Subtree tree H' (h + 1) par lo ⟨a, es₁ ++ x :: es₂, cs₁ ++ [l', r'] ++ cs₂⟩ ∧
      toList (h + 1) ⟨a, es₁ ++ x :: es₂, cs₁ ++ [l', r'] ++ cs₂⟩
        = toList (h + 1) ⟨a, es₁ ++ s :: es₂, cs₁ ++ [l, r] ++ cs₂⟩ ∧
      Shrunk H H' (labels (h + 1) ⟨a, es₁ ++ s :: es₂, cs₁ ++ [l, r] ++ cs₂⟩)
        (labels (h + 1) ⟨a, es₁ ++ x :: es₂, cs₁ ++ [l', r'] ++ cs₂⟩) := by
  have hold : [l, r].flatMap (labels h) = labels h l ++ labels h r := by simp
  have hnew : [l', r'].flatMap (labels h) = labels h l' ++ labels h r' := by simp
  obtain ⟨_, hnodup, _⟩ := ht.window
  rw [hold] at hnodup
  have htoList : toList (h + 1) ⟨a, es₁ ++ x :: es₂, cs₁ ++ [l', r'] ++ cs₂⟩
      = toList (h + 1) ⟨a, es₁ ++ s :: es₂, cs₁ ++ [l, r] ++ cs₂⟩ := by
    have h₁ : toList (h + 1) ⟨a, es₁ ++ s :: es₂, cs₁ ++ l :: r :: cs₂⟩ = _ :=
      toList_focus_two a l r s hcs₁.symm
    have h₂ : toList (h + 1) ⟨a, es₁ ++ x :: es₂, cs₁ ++ l' :: r' :: cs₂⟩ = _ :=
      toList_focus_two a l' r' x hcs₁.symm
    rw [hread] at h₁
    simpa using h₂.trans h₁.symm
  have hlen : (es₁ ++ x :: es₂).length = (es₁ ++ s :: es₂).length := by simp
  obtain ⟨nl, hnl, hnl'⟩ := hrot.left
  obtain ⟨nr, hnr, hnr'⟩ := hrot.right
  have hreplace := ht.replace H' lo (es₁ ++ x :: es₂) [l', r']
    (by simpa [hl', hr'] using hrot.parent)
    (fun c hc => by
      simp only [List.mem_cons, List.not_mem_nil, or_false] at hc
      rcases hc with rfl | rfl
      · exact ⟨rep_iff.2 ⟨⟨nl, hl' ▸ hnl, by rw [childAddrs_eq]; exact hnl'⟩, hl' ▸ hlk⟩, hlf⟩
      · exact ⟨rep_iff.2 ⟨⟨nr, hr' ▸ hnr, by rw [childAddrs_eq]; exact hnr'⟩, hr' ▸ hrk⟩, hrf⟩)
    (by rw [hnew]; exact hlabels.nodup_iff.1 hnodup)
    (fun q hq => by rw [hnew] at hq; rw [hold]; exact hlabels.symm.subset hq)
    hrot.size_eq
    (fun q hqa hq => by
      rw [hold] at hq
      refine hrot.same q hqa (fun heq => hq ?_) (fun heq => hq ?_) fun hmem => hq (hmoved q hmem)
      · exact List.mem_append_left _ (heq ▸ label_mem_labels h l)
      · exact List.mem_append_right _ (heq ▸ label_mem_labels h r))
    (htoList ▸ ht.asc) (hlen ▸ ht.fits.lo_le) (hlen ▸ ht.fits.le_max)
    (by simpa using ht.fits.children_length)
  exact ⟨hreplace.1, htoList, hreplace.2⟩

include hL

/-- `btree_steal_left` in a tree. -/
theorem Subtree.stealLeft
    (ht : Subtree tree H (h + 1) par lo
      ⟨a, es₁ ++ s :: es₂, cs₁ ++ [⟨b, le ++ [x], lc ++ m⟩, ⟨d, re, rc⟩] ++ cs₂⟩)
    (hcs₁ : cs₁.length = es₁.length) (hspare : tree.layout.minKeys ≤ le.length)
    (hroom : re.length < tree.layout.maxKeys) (hlc : lc.length = kidCount h (le.length + 1))
    (hm : m.length = kidCount h 1) :
    ∃ H', Runs (btreeStealLeft a es₁.length d b) H () H' ∧
      Subtree tree H' (h + 1) par lo
        ⟨a, es₁ ++ x :: es₂, cs₁ ++ [⟨b, le, lc⟩, ⟨d, s :: re, m ++ rc⟩] ++ cs₂⟩ ∧
      toList (h + 1)
          ⟨a, es₁ ++ x :: es₂, cs₁ ++ [⟨b, le, lc⟩, ⟨d, s :: re, m ++ rc⟩] ++ cs₂⟩
        = toList (h + 1)
          ⟨a, es₁ ++ s :: es₂, cs₁ ++ [⟨b, le ++ [x], lc ++ m⟩, ⟨d, re, rc⟩] ++ cs₂⟩ ∧
      Shrunk H H'
        (labels (h + 1)
          ⟨a, es₁ ++ s :: es₂, cs₁ ++ [⟨b, le ++ [x], lc ++ m⟩, ⟨d, re, rc⟩] ++ cs₂⟩)
        (labels (h + 1)
          ⟨a, es₁ ++ x :: es₂, cs₁ ++ [⟨b, le, lc⟩, ⟨d, s :: re, m ++ rc⟩] ++ cs₂⟩) := by
  have hlmem : (⟨b, le ++ [x], lc ++ m⟩ : AddrTree K h) ∈
      cs₁ ++ [⟨b, le ++ [x], lc ++ m⟩, ⟨d, re, rc⟩] ++ cs₂ := by simp
  have hrmem : (⟨d, re, rc⟩ : AddrTree K h) ∈
      cs₁ ++ [⟨b, le ++ [x], lc ++ m⟩, ⟨d, re, rc⟩] ++ cs₂ := by simp
  obtain ⟨p, hp, hpn⟩ := ht.rep.root
  obtain ⟨⟨l, hl, hln⟩, hlk⟩ := rep_iff.1 (ht.rep.child hlmem)
  obtain ⟨⟨r, hr, hrn⟩, hrk⟩ := rep_iff.1 (ht.rep.child hrmem)
  obtain ⟨hlen, hlfit⟩ := childrenFit_iff.1 (fits_iff.1 (ht.fits.child hlmem)).2.2
  obtain ⟨hrlen, hrfit⟩ := childrenFit_iff.1 (fits_iff.1 (ht.fits.child hrmem)).2.2
  have hlmax := (ht.fits.child hlmem).le_max
  rw [kidsFit_append] at hlfit
  obtain ⟨hnot, hnodup, _⟩ := ht.window
  have hapart : Apart a b d (kidLabels h lc) (kidLabels h m) (kidLabels h rc) := by
    apply apart_of_nodup
    · simpa [labels_eq] using hnodup
    · simpa [labels_eq] using hnot
  have hmroots := (kidRoots_sublist_labels m).subset
  rw [childAddrs_eq, kidRoots_append] at hln
  rw [childAddrs_eq] at hrn
  obtain ⟨hlck, hmk⟩ := kidsRep_append.1 hlk
  obtain ⟨H', hrun, hrot⟩ := runs_btreeStealLeft hL hapart.ab hapart.ad hapart.bd hp hl hr hpn
    hln hrn hroom (kidRoots_length lc hlc) (kidRoots_length m hm) (kidRoots_length rc hrlen)
    (fun q hq => by
      obtain ⟨hqa, hqb, hqd⟩ := hapart.mid q (hmroots hq)
      exact ⟨hqa, hqb, hqd, hmk.live q hq⟩)
  have hframe : ∀ q, q ≠ a → q ≠ b → q ≠ d → q ∉ kidLabels h m → H'.get q = H.get q :=
    fun q hqa hqb hqd hqm => hrot.same q hqa hqb hqd fun hroot => hqm (hmroots hroot)
  refine ⟨H', hrun, ?_⟩
  refine ht.rotate ⟨b, le, lc⟩ ⟨d, s :: re, m ++ rc⟩ hcs₁ rfl rfl
    (by simpa [childAddrs] using hrot) (fun q hq => ?_) ?_ ?_ ?_ ?_ ?_ ?_
  · have := hmroots hq
    simp [labels_eq, this]
  · refine hlck.frame fun q hq => ?_
    obtain ⟨hqa, hqb, hqd, hqm⟩ := hapart.left q hq
    exact hframe q hqa hqb hqd hqm
  · refine kidsRep_append.2 ⟨hmk.adopted hrot.moved (fun q hq hroot => ?_) hapart.nodup,
      hrk.frame fun q hq => ?_⟩
    · obtain ⟨hqa, hqb, hqd⟩ := hapart.mid q hq
      exact hrot.same q hqa hqb hqd hroot
    · obtain ⟨hqa, hqb, hqd, hqm⟩ := hapart.right q hq
      exact hframe q hqa hqb hqd hqm
  · refine fits_iff.2 ⟨hspare, ?_, childrenFit_iff.2 ⟨hlc, hlfit.1⟩⟩
    simp only [List.length_append, List.length_singleton] at hlmax
    show le.length ≤ _
    omega
  · refine fits_iff.2 ⟨?_, hroom, childrenFit_iff.2 ⟨?_, ?_⟩⟩
    · have := (ht.fits.child hrmem).lo_le
      show _ ≤ re.length + 1
      exact Nat.le_succ_of_le this
    · show (m ++ rc).length = kidCount h (re.length + 1 + 1)
      rw [List.length_append, hm, hrlen, kidCount_add, Nat.add_comm 1]
    · exact (kidsFit_append _ _).2 ⟨hlfit.2, hrfit⟩
  · exact toList_rotate b d x s hlc hm hrlen
  · exact labels_rotate b d _ _ _ _ lc m rc

/-- `btree_steal_right` in a tree, from a right neighbour with a free slot. -/
theorem Subtree.stealRight
    (ht : Subtree tree H (h + 1) par lo
      ⟨a, es₁ ++ s :: es₂, cs₁ ++ [⟨b, le, lc⟩, ⟨d, x :: re, m ++ rc⟩] ++ cs₂⟩)
    (hcs₁ : cs₁.length = es₁.length) (hspare : tree.layout.minKeys ≤ re.length)
    (hroom : le.length < tree.layout.maxKeys)
    (hfree : (x :: re).length < tree.layout.maxKeys) (hm : m.length = kidCount h 1)
    (hrc : rc.length = kidCount h (re.length + 1)) :
    ∃ H', Runs (btreeStealRight a es₁.length b d) H () H' ∧
      Subtree tree H' (h + 1) par lo
        ⟨a, es₁ ++ x :: es₂, cs₁ ++ [⟨b, le ++ [s], lc ++ m⟩, ⟨d, re, rc⟩] ++ cs₂⟩ ∧
      toList (h + 1)
          ⟨a, es₁ ++ x :: es₂, cs₁ ++ [⟨b, le ++ [s], lc ++ m⟩, ⟨d, re, rc⟩] ++ cs₂⟩
        = toList (h + 1)
          ⟨a, es₁ ++ s :: es₂, cs₁ ++ [⟨b, le, lc⟩, ⟨d, x :: re, m ++ rc⟩] ++ cs₂⟩ ∧
      Shrunk H H'
        (labels (h + 1)
          ⟨a, es₁ ++ s :: es₂, cs₁ ++ [⟨b, le, lc⟩, ⟨d, x :: re, m ++ rc⟩] ++ cs₂⟩)
        (labels (h + 1)
          ⟨a, es₁ ++ x :: es₂, cs₁ ++ [⟨b, le ++ [s], lc ++ m⟩, ⟨d, re, rc⟩] ++ cs₂⟩) := by
  have hlmem : (⟨b, le, lc⟩ : AddrTree K h) ∈
      cs₁ ++ [⟨b, le, lc⟩, ⟨d, x :: re, m ++ rc⟩] ++ cs₂ := by simp
  have hrmem : (⟨d, x :: re, m ++ rc⟩ : AddrTree K h) ∈
      cs₁ ++ [⟨b, le, lc⟩, ⟨d, x :: re, m ++ rc⟩] ++ cs₂ := by simp
  obtain ⟨p, hp, hpn⟩ := ht.rep.root
  obtain ⟨⟨l, hl, hln⟩, hlk⟩ := rep_iff.1 (ht.rep.child hlmem)
  obtain ⟨⟨r, hr, hrn⟩, hrk⟩ := rep_iff.1 (ht.rep.child hrmem)
  obtain ⟨hlen, hlfit⟩ := childrenFit_iff.1 (fits_iff.1 (ht.fits.child hlmem)).2.2
  obtain ⟨hrlen, hrfit⟩ := childrenFit_iff.1 (fits_iff.1 (ht.fits.child hrmem)).2.2
  rw [kidsFit_append] at hrfit
  obtain ⟨hnot, hnodup, _⟩ := ht.window
  have hperm : (b :: kidLabels h lc ++ d :: (kidLabels h m ++ kidLabels h rc)).Perm
      (b :: (kidLabels h lc ++ kidLabels h m) ++ d :: kidLabels h rc) := by
    simp only [List.cons_append, List.append_assoc]
    exact List.Perm.cons b (List.Perm.append_left _ List.perm_middle.symm)
  have hapart : Apart a b d (kidLabels h lc) (kidLabels h m) (kidLabels h rc) := by
    apply apart_of_nodup
    · rw [← hperm.nodup_iff]
      simpa [labels_eq] using hnodup
    · rw [← hperm.mem_iff]
      simpa [labels_eq] using hnot
  have hmroots := (kidRoots_sublist_labels m).subset
  rw [childAddrs_eq, kidRoots_append] at hrn
  rw [childAddrs_eq] at hln
  obtain ⟨hmk, hrck⟩ := kidsRep_append.1 hrk
  obtain ⟨H', hrun, hrot⟩ := runs_btreeStealRight hL hapart.ab hapart.ad hapart.bd hp hl hr hpn
    hln hrn hroom hfree (kidRoots_length lc hlen) (kidRoots_length m hm) (kidRoots_length rc hrc)
    (fun q hq => by
      obtain ⟨hqa, hqb, hqd⟩ := hapart.mid q (hmroots hq)
      exact ⟨hqa, hqb, hqd, hmk.live q hq⟩)
  have hframe : ∀ q, q ≠ a → q ≠ b → q ≠ d → q ∉ kidLabels h m → H'.get q = H.get q :=
    fun q hqa hqb hqd hqm => hrot.same q hqa hqb hqd fun hroot => hqm (hmroots hroot)
  refine ⟨H', hrun, ?_⟩
  refine ht.rotate ⟨b, le ++ [s], lc ++ m⟩ ⟨d, re, rc⟩ hcs₁ rfl rfl
    (by simpa [childAddrs] using hrot) (fun q hq => ?_) ?_ ?_ ?_ ?_ ?_ ?_
  · have := hmroots hq
    simp [labels_eq, this]
  · refine kidsRep_append.2 ⟨hlk.frame fun q hq => ?_,
      hmk.adopted hrot.moved (fun q hq hroot => ?_) hapart.nodup⟩
    · obtain ⟨hqa, hqb, hqd, hqm⟩ := hapart.left q hq
      exact hframe q hqa hqb hqd hqm
    · obtain ⟨hqa, hqb, hqd⟩ := hapart.mid q hq
      exact hrot.same q hqa hqb hqd hroot
  · refine hrck.frame fun q hq => ?_
    obtain ⟨hqa, hqb, hqd, hqm⟩ := hapart.right q hq
    exact hframe q hqa hqb hqd hqm
  · refine fits_iff.2 ⟨?_, ?_, childrenFit_iff.2 ⟨?_, ?_⟩⟩
    · have hlo := (ht.fits.child hlmem).lo_le
      refine Nat.le_trans hlo ?_
      simp
    · simp only [List.length_append, List.length_singleton]
      omega
    · show (lc ++ m).length = kidCount h ((le ++ [s]).length + 1)
      rw [List.length_append, hm, hlen, kidCount_add, List.length_append, List.length_singleton]
    · exact (kidsFit_append _ _).2 ⟨hlfit, hrfit.1⟩
  · have hmax := (ht.fits.child hrmem).le_max
    rw [List.length_cons] at hmax
    exact fits_iff.2 ⟨hspare, Nat.le_of_succ_le hmax, childrenFit_iff.2 ⟨hrc, hrfit.2⟩⟩
  · exact (toList_rotate b d s x hlen hm hrc).symm
  · exact (labels_rotate b d _ _ _ _ lc m rc).symm

/-- `btree_merge` of two leaves in a tree. -/
theorem Subtree.mergeLeaves {cs₁ cs₂ : List (AddrTree K 0)} {lc rc : List (Kid Addr (Entry K) 0)}
    (ht : Subtree tree H 1 par lo
      ⟨a, es₁ ++ s :: es₂, cs₁ ++ [⟨b, le, lc⟩, ⟨d, re, rc⟩] ++ cs₂⟩)
    (hcs₁ : cs₁.length = es₁.length) (hcs₂ : cs₂.length = es₂.length)
    (hroom : le.length + 1 + re.length ≤ tree.layout.maxKeys) :
    ∃ H', Runs (btreeMerge a es₁.length) H () H' ∧
      Subtree tree H' 1 par (lo - 1)
        ⟨a, es₁ ++ es₂, cs₁ ++ [⟨b, le ++ s :: re, lc⟩] ++ cs₂⟩ ∧
      toList 1 ⟨a, es₁ ++ es₂, cs₁ ++ [⟨b, le ++ s :: re, lc⟩] ++ cs₂⟩
        = toList 1 ⟨a, es₁ ++ s :: es₂, cs₁ ++ [⟨b, le, lc⟩, ⟨d, re, rc⟩] ++ cs₂⟩ ∧
      Shrunk H H'
        (labels 1 ⟨a, es₁ ++ s :: es₂, cs₁ ++ [⟨b, le, lc⟩, ⟨d, re, rc⟩] ++ cs₂⟩)
        (labels 1 ⟨a, es₁ ++ es₂, cs₁ ++ [⟨b, le ++ s :: re, lc⟩] ++ cs₂⟩) := by
  have hlmem : (⟨b, le, lc⟩ : AddrTree K 0) ∈ cs₁ ++ [⟨b, le, lc⟩, ⟨d, re, rc⟩] ++ cs₂ := by
    simp
  have hrmem : (⟨d, re, rc⟩ : AddrTree K 0) ∈ cs₁ ++ [⟨b, le, lc⟩, ⟨d, re, rc⟩] ++ cs₂ := by
    simp
  obtain ⟨p, hp, hpn⟩ := ht.rep.root
  obtain ⟨l, hl, hln⟩ := ht.rep.child hlmem
  obtain ⟨r, hr, hrn⟩ := ht.rep.child hrmem
  obtain ⟨hnot, hnodup, _⟩ := ht.window
  have hold : [(⟨b, le, lc⟩ : AddrTree K 0), ⟨d, re, rc⟩].flatMap (labels 0) = [b, d] := rfl
  have hnew : [(⟨b, le ++ s :: re, lc⟩ : AddrTree K 0)].flatMap (labels 0) = [b] := rfl
  rw [hold] at hnot hnodup
  have hab : a ≠ b := fun heq => hnot (by simp [heq])
  have had : a ≠ d := fun heq => hnot (by simp [heq])
  have hbd : b ≠ d := by simpa using hnodup
  have hpn' : NodeRep tree.layout p false par (es₁ ++ s :: es₂)
      (cs₁.map Node.label ++ b :: d :: cs₂.map Node.label) := by
    simpa [childAddrs] using hpn
  obtain ⟨H', hrun, hsize, hroot, ⟨n, hn, hnn⟩, hsame⟩ := runs_btreeMerge hL hab had hbd hp hl hr
    hpn' (by simpa using hcs₁) (by simpa using hcs₂) hln hrn hroom
  have htoList : toList 1 ⟨a, es₁ ++ es₂, cs₁ ++ [⟨b, le ++ s :: re, lc⟩] ++ cs₂⟩
      = toList 1 ⟨a, es₁ ++ s :: es₂, cs₁ ++ [⟨b, le, lc⟩, ⟨d, re, rc⟩] ++ cs₂⟩ := by
    have h₁ : toList 1 ⟨a, es₁ ++ s :: es₂, cs₁ ++ ⟨b, le, lc⟩ :: ⟨d, re, rc⟩ :: cs₂⟩ = _ :=
      toList_focus_two a (⟨b, le, lc⟩ : AddrTree K 0) ⟨d, re, rc⟩ s hcs₁.symm
    have h₂ : toList 1 ⟨a, es₁ ++ es₂, cs₁ ++ ⟨b, le ++ s :: re, lc⟩ :: cs₂⟩ = _ :=
      toList_focus a (⟨b, le ++ s :: re, lc⟩ : AddrTree K 0) hcs₁.symm
    simpa [toList] using h₂.trans h₁.symm
  have hlo := ht.fits.lo_le
  have hmax := ht.fits.le_max
  simp only [List.length_append, List.length_cons] at hlo hmax
  have hreplace := ht.replace H' (lo - 1) (es₁ ++ es₂)
    [⟨b, le ++ s :: re, lc⟩] (by simpa using hroot)
    (fun c hc => by
      rw [List.mem_singleton] at hc
      subst hc
      refine ⟨⟨n, hn, hnn⟩, ?_, ?_⟩
      · have hmin := (ht.fits.child hlmem).lo_le
        refine Nat.le_trans hmin ?_
        simp
      · show (le ++ s :: re).length ≤ _
        simp only [List.length_append, List.length_cons]
        omega)
    (by rw [hnew]; simp) (fun q hq => by rw [hnew] at hq; rw [hold]; simp at hq; simp [hq])
    hsize
    (fun q hqa hq => by
      rw [hold] at hq
      simp only [List.mem_cons, List.not_mem_nil, or_false, not_or] at hq
      exact hsame q hqa hq.1 hq.2)
    (htoList ▸ ht.asc) (by rw [List.length_append]; omega) (by rw [List.length_append]; omega)
    (by simp only [List.length_append, List.length_singleton]; omega)
  exact ⟨H', hrun, hreplace.1, htoList, hreplace.2⟩

end Steals

/-! ## The choice -/

/-- A neighbour with an entry to give. -/
def spare {ι α : Type} {h : Nat} (min : Nat) (t : Option (Tree ι α h)) : Bool :=
  t.any fun t => min < t.entries.length

section Choice

variable {tree : Btree K} {H H' : Heap (BtreeNode K)} {h : Nat} {par : Option Addr} {lo : Nat}
  {a : Addr} {es es₁ es₂ : List (Entry K)} {cs cs₁ cs₂ : List (AddrTree K h)}
  {c l r : AddrTree K h} {i : Nat}

theorem Subtree.runs_childAt (ht : Subtree tree H (h + 1) par lo ⟨a, es, cs⟩)
    (hi : cs[i]? = some c) : Runs (childAt a i) H c.label H := by
  obtain ⟨p, hp, hpn⟩ := ht.rep.root
  exact hpn.runs_childAt hp (by simp [childAddrs, hi])

theorem Subtree.runs_childHasSpare (ht : Subtree tree H (h + 1) par lo ⟨a, es, cs⟩)
    (hi : cs[i]? = some c) :
    Runs (childHasSpare tree a i) H (spare tree.layout.minKeys (some c)) H := by
  obtain ⟨n, hn, hnn⟩ := (ht.rep.child (List.mem_of_getElem? hi)).root
  refine Runs.bind (ht.runs_childAt hi) (Runs.bind (Runs.load hn) ?_)
  rw [hnn.count_eq]
  exact Runs.pure _ _

theorem Subtree.runs_leftSpare
    (ht : Subtree tree H (h + 1) par lo ⟨a, es, cs₁ ++ c :: cs₂⟩) :
    Runs (if cs₁.length > 0 then childHasSpare tree a (cs₁.length - 1)
      else pure false : NodeProg K Bool) H (spare tree.layout.minKeys cs₁.getLast?) H := by
  rcases List.eq_nil_or_concat cs₁ with rfl | ⟨cs, l, rfl⟩
  · exact Runs.pure _ _
  · simp only [List.concat_eq_append] at ht ⊢
    refine Runs.ite_pos (by simp) ?_
    rw [List.getLast?_append_of_ne_nil _ (by simp)]
    exact ht.runs_childHasSpare (by simp)

theorem Subtree.runs_rightSpare
    (ht : Subtree tree H (h + 1) par lo ⟨a, es, cs₁ ++ c :: cs₂⟩) :
    Runs (if cs₁.length < es.length then childHasSpare tree a (cs₁.length + 1)
      else pure false : NodeProg K Bool) H (spare tree.layout.minKeys cs₂.head?) H := by
  have hlen := ht.fits.children_length
  simp only [List.length_append, List.length_cons] at hlen
  cases cs₂ with
  | nil =>
    rw [List.length_nil] at hlen
    exact Runs.ite_neg (by omega) (Runs.pure _ _)
  | cons r cs₂ =>
    rw [List.length_cons] at hlen
    refine Runs.ite_pos (by omega) (ht.runs_childHasSpare ?_)
    simp

variable (ht : Subtree tree H (h + 1) par lo ⟨a, es, cs₁ ++ c :: cs₂⟩)

include ht

theorem Subtree.ensure_spare (hc : tree.layout.minKeys < c.entries.length) :
    Runs (ensureMinKeys tree a cs₁.length) H () H := by
  refine Runs.bind (ht.runs_childHasSpare (c := c) (by simp)) (Runs.ite_pos ?_ (Runs.pure _ _))
  simpa [spare] using hc

/-- Where the left neighbour has an entry to give, it does. -/
theorem Subtree.run_ensure_left (hc : ¬tree.layout.minKeys < c.entries.length)
    (hl : cs₁.getLast? = some l) (hspare : spare tree.layout.minKeys cs₁.getLast? = true) :
    (ensureMinKeys tree a cs₁.length).run H
      = (btreeStealLeft a (cs₁.length - 1) c.label l.label).run H := by
  have hchild : (cs₁ ++ c :: cs₂)[cs₁.length - 1]? = some l := by
    have hpos : 0 < cs₁.length := by
      cases cs₁ with
      | nil => simp at hl
      | cons x xs => simp
    rw [List.getElem?_append_left (by omega), ← hl, List.getLast?_eq_getElem?]
  unfold ensureMinKeys
  refine (ht.runs_childHasSpare (c := c) (by simp)).run_bind.trans ?_
  rw [if_neg (by simpa [spare] using hc)]
  refine ht.runs_leftSpare.run_bind.trans ?_
  rw [if_pos hspare]
  refine (ht.runs_childAt (c := c) (by simp)).run_bind.trans ?_
  exact (ht.runs_childAt hchild).run_bind

/-- Otherwise the right neighbour gives one, if it has one to give. -/
theorem Subtree.run_ensure_right (hc : ¬tree.layout.minKeys < c.entries.length)
    (hleft : spare tree.layout.minKeys cs₁.getLast? = false)
    (hr : cs₂.head? = some r) (hspare : spare tree.layout.minKeys cs₂.head? = true) :
    (ensureMinKeys tree a cs₁.length).run H
      = (btreeStealRight a cs₁.length c.label r.label).run H := by
  have hchild : (cs₁ ++ c :: cs₂)[cs₁.length + 1]? = some r := by
    rw [List.head?_eq_getElem?] at hr
    rw [List.getElem?_append_right (by omega)]
    simpa using hr
  obtain ⟨p, hp, hpn⟩ := ht.rep.root
  have hright := ht.runs_rightSpare
  rw [show es.length = p.keyCount from hpn.count_eq.symm] at hright
  unfold ensureMinKeys
  refine (ht.runs_childHasSpare (c := c) (by simp)).run_bind.trans ?_
  rw [if_neg (by simpa [spare] using hc)]
  refine ht.runs_leftSpare.run_bind.trans ?_
  rw [if_neg (by simp [hleft])]
  refine (Runs.load hp).run_bind.trans (hright.run_bind.trans ?_)
  rw [if_pos hspare]
  refine (ht.runs_childAt (c := c) (by simp)).run_bind.trans ?_
  exact (ht.runs_childAt hchild).run_bind

/-- And where neither has, two nodes are merged. -/
theorem Subtree.run_ensure_merge (hc : ¬tree.layout.minKeys < c.entries.length)
    (hleft : spare tree.layout.minKeys cs₁.getLast? = false)
    (hright : spare tree.layout.minKeys cs₂.head? = false) :
    (ensureMinKeys tree a cs₁.length).run H
      = (btreeMerge a (if cs₁.length > 0 then cs₁.length - 1 else cs₁.length)).run H := by
  obtain ⟨p, hp, hpn⟩ := ht.rep.root
  have hrs := ht.runs_rightSpare
  rw [show es.length = p.keyCount from hpn.count_eq.symm] at hrs
  unfold ensureMinKeys
  refine (ht.runs_childHasSpare (c := c) (by simp)).run_bind.trans ?_
  rw [if_neg (by simpa [spare] using hc)]
  refine ht.runs_leftSpare.run_bind.trans ?_
  rw [if_neg (by simp [hleft])]
  refine (Runs.load hp).run_bind.trans (hrs.run_bind.trans ?_)
  rw [if_neg (by simp [hright])]

/-- They are the child and its left neighbour, or, at the first child, its right one, and both
have as few entries as they may. -/
theorem Subtree.run_ensure_two (hes : es = es₁ ++ es₂) (hpos : 0 < es.length)
    (hcs₁ : cs₁.length = es₁.length) (hcs₂ : cs₂.length = es₂.length)
    (hc : ¬tree.layout.minKeys < c.entries.length)
    (hleft : spare tree.layout.minKeys cs₁.getLast? = false)
    (hright : spare tree.layout.minKeys cs₂.head? = false) :
    ∃ as₁ s as₂ ds₁ l r ds₂, es = as₁ ++ s :: as₂ ∧ cs₁ ++ c :: cs₂ = ds₁ ++ [l, r] ++ ds₂ ∧
      ds₁.length = as₁.length ∧ ds₂.length = as₂.length ∧
      l.entries.length = tree.layout.minKeys ∧ r.entries.length = tree.layout.minKeys ∧
      (ensureMinKeys tree a cs₁.length).run H = (btreeMerge a as₁.length).run H := by
  have hrun := ht.run_ensure_merge hc hleft hright
  have hcmin := (ht.fits.child (c := c) (by simp)).lo_le
  subst hes
  rcases List.eq_nil_or_concat cs₁ with rfl | ⟨cs, l, rfl⟩
  · have hes₁ : es₁ = [] := List.eq_nil_of_length_eq_zero (by simpa using hcs₁.symm)
    subst hes₁
    cases es₂ with
    | nil => simp at hpos
    | cons s es₂ =>
      cases cs₂ with
      | nil => simp at hcs₂
      | cons r cs₂ =>
        have hr : ¬tree.layout.minKeys < r.entries.length := by simpa [spare] using hright
        have hrmin := (ht.fits.child (c := r) (by simp)).lo_le
        exact ⟨[], s, es₂, [], c, r, cs₂, rfl, rfl, rfl, by simpa using hcs₂, by omega, by omega,
          hrun⟩
  · rcases List.eq_nil_or_concat es₁ with rfl | ⟨es, s, rfl⟩
    · simp at hcs₁
    simp only [List.concat_eq_append] at *
    simp only [List.getLast?_append, List.getLast?_singleton, Option.some_or] at hleft
    have hl : ¬tree.layout.minKeys < l.entries.length := by simpa [spare] using hleft
    have hlmin := (ht.fits.child (c := l) (by simp)).lo_le
    have hlen : cs.length = es.length := by simpa using hcs₁
    refine ⟨es, s, es₂, cs, l, c, cs₂, by simp, by simp, hlen, hcs₂, by omega, by omega, ?_⟩
    rw [hrun]
    simp [hlen]

end Choice

end Maxql.Index
