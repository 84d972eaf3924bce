import Maxql.Index.BtreeMap

/-!
# Releasing a B-tree

`free_node_recurse` and `btree_free`.  The children of a node are released
before the node itself, so a node is read while it is still there.

* `Freed H H' as`: from `H` to `H'` the cells `as` were released;
* `runs_freeChildren`, `freeNodeRecurse_spec`: one node and what hangs below it;
* `runs_btreeFree`: a tree.
-/

namespace Maxql.Index

open Program Multiway SortedEntries

variable {K : Type}

/-! ## The functions of the source -/

/-- `for (i = 0; i <= key_count; i++) free_node_recurse(node->children[i])` -/
def freeChildren (visit : Option Addr → NodeProg K Unit) (children : List (Option Addr)) :
    (rem i : Nat) → NodeProg K Unit
  | 0, _ => pure ()
  | rem + 1, i => do
    let child ← readAt children i
    visit child
    freeChildren visit children rem (i + 1)

/-- `free_node_recurse`.  The arrays of a node are part of its cell. -/
def freeNodeRecurse : (fuel : Nat) → Option Addr → NodeProg K Unit
  | 0, _ => throw .outOfFuel
  | _ + 1, none => pure ()
  | fuel + 1, some node => do
    let n ← load node
    if btreeNodeIsLeaf n then free node
    else
      freeChildren (freeNodeRecurse fuel) n.children (n.keyCount + 1) 0
      free node

/-- `btree_free` of the nodes. -/
def btreeFree (tree : Btree K) : NodeProg K Unit := do
  let H ← get
  freeNodeRecurse (H.size + 1) tree.root

/-! ## Released cells -/

/-- The cells `as` are gone, and every other cell is as before. -/
structure Freed (H H' : Heap (BtreeNode K)) (as : List Addr) : Prop where
  size_eq : H'.size = H.size
  gone : ∀ a ∈ as, H'.get a = none
  same : ∀ a, a ∉ as → H'.get a = H.get a

variable {H H' H'' : Heap (BtreeNode K)} {as bs : List Addr}

theorem Freed.refl (H : Heap (BtreeNode K)) : Freed H H [] :=
  ⟨rfl, nofun, fun _ _ => rfl⟩

theorem Freed.trans (h : Freed H H' as) (h' : Freed H' H'' bs) : Freed H H'' (as ++ bs) := by
  refine ⟨h'.size_eq.trans h.size_eq, fun a ha => ?_, fun a ha => ?_⟩
  · by_cases hb : a ∈ bs
    · exact h'.gone a hb
    · rw [h'.same a hb]
      apply h.gone
      exact (List.mem_append.1 ha).resolve_right hb
  · rw [List.mem_append, not_or] at ha
    rw [h'.same a ha.2, h.same a ha.1]

theorem Freed.of_perm (h : Freed H H' as) (hperm : as.Perm bs) : Freed H H' bs :=
  ⟨h.size_eq, fun a ha => h.gone a (hperm.mem_iff.2 ha),
    fun a ha => h.same a fun hmem => ha (hperm.mem_iff.1 hmem)⟩

theorem freed_put {a : Addr} {n : BtreeNode K} (hget : H.get a = some n) :
    Freed H (H.put a none) [a] := by
  refine ⟨Heap.size_put _ _ _, fun b hb => ?_, fun b hb => ?_⟩
  · rw [List.mem_singleton.1 hb, Heap.get_put_self (Heap.lt_size_of_get hget)]
  · exact Heap.get_put_ne (by simpa using hb) _

/-! ## Nodes and trees -/

variable {L : BtreeLayout} {h : Nat} {par : Option Addr}

/-- The children that are left are released one after the other. -/
theorem runs_freeChildren (visit : Option Addr → NodeProg K Unit)
    {children : List (Option Addr)} {par : Option Addr} (cs : List (AddrTree K h))
    (hvisit : ∀ c ∈ cs, ∀ {H : Heap (BtreeNode K)}, Rep L H h par c → (labels h c).Nodup →
      ∃ H', Runs (visit (some c.label)) H () H' ∧ Freed H H' (labels h c)) :
    ∀ {H : Heap (BtreeNode K)} (start : Nat),
      (∀ j c, cs[j]? = some c → readAt children (start + j) = .ok (some c.label)) →
      (∀ c ∈ cs, Rep L H h par c) → (cs.flatMap (labels h)).Nodup →
      ∃ H', Runs (freeChildren visit children cs.length start) H () H' ∧
        Freed H H' (cs.flatMap (labels h)) := by
  induction cs with
  | nil =>
    intro H start _ _ _
    exact ⟨H, Runs.pure () H, Freed.refl H⟩
  | cons c cs ih =>
    intro H start hread hrep hnodup
    rw [List.flatMap_cons, List.nodup_append] at hnodup
    obtain ⟨hc, hcs, hdis⟩ := hnodup
    obtain ⟨H₁, hrun, hfreed⟩ := hvisit c (by simp) (hrep c (by simp)) hc
    have hrep₁ : ∀ d ∈ cs, Rep L H₁ h par d := by
      intro d hd
      apply (hrep d (List.mem_cons_of_mem _ hd)).frame
      intro a ha
      apply hfreed.same
      intro hac
      exact hdis a hac a (List.mem_flatMap.2 ⟨d, hd, ha⟩) rfl
    obtain ⟨H₂, hrest, hfreed₂⟩ := ih (fun d hd => hvisit d (List.mem_cons_of_mem _ hd))
      (start + 1) (fun j d hj => by
        have := hread (j + 1) d (by simpa using hj)
        rwa [Nat.add_assoc, Nat.add_comm 1]) hrep₁ hcs
    refine ⟨H₂, ?_, hfreed.trans hfreed₂⟩
    rw [List.length_cons, freeChildren]
    exact Runs.bind (Runs.lift (hread 0 c rfl) H) (Runs.bind hrun hrest)

/-- `free_node_recurse` releases every node of a tree once, and nothing else. -/
theorem freeNodeRecurse_spec {min max lo : Nat} {t : AddrTree K h} (ht : Rep L H h par t)
    (hfits : Fits min max h lo t) (hnodup : (labels h t).Nodup) {fuel : Nat} (hfuel : h < fuel) :
    ∃ H', Runs (freeNodeRecurse fuel (some t.label)) H () H' ∧ Freed H H' (labels h t) := by
  induction h generalizing par lo fuel H with
  | zero =>
    obtain ⟨n, hget, hn⟩ := ht
    obtain ⟨f, rfl⟩ : ∃ f, fuel = f + 1 := ⟨fuel - 1, by omega⟩
    refine ⟨H.put t.label none, ?_, freed_put hget⟩
    exact Runs.bind (Runs.load hget) (Runs.ite_pos hn.leaf_eq (Runs.free hget))
  | succ h ih =>
    obtain ⟨n, hget, hn⟩ := ht.root
    obtain ⟨f, rfl⟩ : ∃ f, fuel = f + 1 := ⟨fuel - 1, by omega⟩
    obtain ⟨hroot, hkids⟩ := List.nodup_cons.1 hnodup
    have hcount : n.keyCount + 1 = t.children.length := by
      rw [hn.count_eq, hfits.children_length]
    have hread : ∀ j c, t.children[j]? = some c → readAt n.children (0 + j) = .ok (some c.label) :=
      fun j c hj => hn.read_child (by simp [childAddrs, hj])
    obtain ⟨H₁, hrun, hfreed⟩ := runs_freeChildren (freeNodeRecurse f) t.children
      (fun c hc _ hrep hlabels => ih hrep (hfits.child hc) hlabels (by omega)) 0 hread
      (fun c hc => ht.child hc) hkids
    have hget₁ : H₁.get t.label = some n := (hfreed.same _ hroot).trans hget
    refine ⟨H₁.put t.label none, ?_, ?_⟩
    · refine Runs.bind (Runs.load hget) (Runs.ite_neg (by simp [hn.leaf_eq]) ?_)
      rw [hcount]
      exact Runs.bind hrun (Runs.free hget₁)
    · exact (hfreed.trans (freed_put hget₁)).of_perm List.perm_append_comm

/-- The tree holds `entries`, and `as` are the cells of its nodes. -/
def HoldsIn (tree : Btree K) (H : Heap (BtreeNode K)) (entries : List (Entry K))
    (as : List Addr) : Prop :=
  match tree.root with
  | none => entries = [] ∧ as = []
  | some root => ∃ h, ∃ t : AddrTree K h, t.label = root ∧
      Subtree tree H h none (rootMin h) t ∧ toList h t = entries ∧ labels h t = as

variable {tree : Btree K} {entries : List (Entry K)}

theorem HoldsIn.holds (hH : HoldsIn tree H entries as) : Holds tree H entries := by
  unfold HoldsIn at hH
  unfold Holds
  cases hroot : tree.root with
  | none =>
    rw [hroot] at hH
    exact hH.1
  | some root =>
    rw [hroot] at hH
    obtain ⟨h, t, hlabel, ht, htoList, -⟩ := hH
    exact ⟨h, t, hlabel, ht, htoList⟩

theorem Holds.cells (hH : Holds tree H entries) : ∃ as, HoldsIn tree H entries as := by
  unfold Holds at hH
  unfold HoldsIn
  cases hroot : tree.root with
  | none =>
    rw [hroot] at hH
    exact ⟨[], hH, rfl⟩
  | some root =>
    rw [hroot] at hH
    obtain ⟨h, t, hlabel, ht, htoList⟩ := hH
    exact ⟨labels h t, h, t, hlabel, ht, htoList, rfl⟩

/-- `btree_free` releases the nodes of the tree and nothing else. -/
theorem runs_btreeFree (hH : HoldsIn tree H entries as) :
    ∃ H', Runs (btreeFree tree) H () H' ∧ Freed H H' as := by
  unfold HoldsIn at hH
  split at hH
  · next hroot =>
    obtain ⟨-, rfl⟩ := hH
    refine ⟨H, Runs.bind (Runs.get H) ?_, Freed.refl H⟩
    rw [hroot]
    exact Runs.pure () H
  · next root hroot =>
    obtain ⟨h, t, rfl, ht, -, rfl⟩ := hH
    have hheight := ht.rep.height_lt_size ht.fits ht.nodup
    obtain ⟨H', hrun, hfreed⟩ := freeNodeRecurse_spec ht.rep ht.fits ht.nodup
      (show h < H.size + 1 by omega)
    refine ⟨H', Runs.bind (Runs.get H) ?_, hfreed⟩
    rw [hroot]
    exact hrun

end Maxql.Index
