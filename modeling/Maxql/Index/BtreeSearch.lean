import Maxql.Index.BtreeRep

/-!
# Search in the B-tree

`btree_search` on a tree that holds some entries is `lookup` in them.  The
induction is on the height: a node either holds the key itself, or the key can
only be below the child that the scan of the node ends at.
-/

namespace Maxql.Index

open Program SortedEntries Multiway

variable {K : Type} {tree : Btree K} (hL : tree.layout.Sound)
  (hc : TotalCmp tree.compare) {H : Heap (BtreeNode K)}

include hL hc

theorem searchFrom_spec {h : Nat} {par : Option Addr} {lo : Nat} {t : AddrTree K h}
    (ht : Subtree tree H h par lo t) (k : K) (steps : Nat) (hsteps : h < steps) :
    Runs (searchFrom tree k steps t.label) H (lookup tree.compare (toList h t) k) H := by
  induction h generalizing par lo steps with
  | zero =>
    obtain ⟨n, hget, hn⟩ := ht.rep
    obtain ⟨s, rfl⟩ : ∃ s, steps = s + 1 := ⟨steps - 1, by omega⟩
    obtain ⟨a, es, cs⟩ := t
    refine Runs.bind (Runs.load hget) ?_
    by_cases hk : k ∈ es.map Prod.fst
    · obtain ⟨⟨k, v⟩, hmem, rfl⟩ := List.mem_map.1 hk
      obtain ⟨es₁, es₂, rfl⟩ := List.append_of_mem hmem
      have hsplit := ht.asc.split
      refine Runs.bind (Runs.lift (hn.scan_hit hc hsplit.1) H) ?_
      refine Runs.bind (Runs.lift (hn.read_offset (e := (k, v)) (by simp)) H) ?_
      have hlookup : lookup tree.compare (toList 0 ⟨a, es₁ ++ (k, v) :: es₂, cs⟩) k = some v :=
        lookup_at hc hsplit.1
      rw [hlookup]
      exact Runs.pure _ _
    · obtain ⟨es₁, es₂, rfl, hk₁, hk₂⟩ := exists_split hc ht.asc hk
      have hcount : (es₁ ++ es₂).length ≤ tree.layout.maxKeys := hn.count_le
      obtain ⟨slot, hslot⟩ := hn.read_slot hL (i := es₁.length)
        (by rw [List.length_append] at hcount; omega)
      refine Runs.bind (Runs.lift (hn.scan_miss hc hk₁ hk₂) H) ?_
      refine Runs.bind (Runs.lift hslot H) (Runs.ite_pos hn.leaf_eq ?_)
      have hlookup : lookup tree.compare (toList 0 ⟨a, es₁ ++ es₂, cs⟩) k = none :=
        lookup_eq_none hc hk
      rw [hlookup]
      exact Runs.pure _ _
  | succ h ih =>
    obtain ⟨n, hget, hn⟩ := ht.rep.root
    have hfit := (fits_iff.1 ht.fits).2.2
    have hsub := entries_sublist_toList hfit
    obtain ⟨s, rfl⟩ : ∃ s, steps = s + 1 := ⟨steps - 1, by omega⟩
    by_cases hk : k ∈ t.entries.map Prod.fst
    · obtain ⟨⟨k, v⟩, hmem, rfl⟩ := List.mem_map.1 hk
      rw [lookup_of_mem hc ht.asc (hsub.subset hmem)]
      obtain ⟨es₁, es₂, hes⟩ := List.append_of_mem hmem
      have hasc := ht.asc.sublist hsub
      rw [hes] at hasc hn
      refine Runs.bind (Runs.load hget) ?_
      refine Runs.bind (Runs.lift (hn.scan_hit hc hasc.split.1) H) ?_
      refine Runs.bind (Runs.lift (hn.read_offset (e := (k, v)) (by simp)) H) ?_
      exact Runs.pure _ _
    · obtain ⟨es₁, es₂, cs₁, c, cs₂, heq, hcs₁, hcs₂, hk₁, hk₂⟩ :=
        exists_child hc hfit ht.asc hk
      generalize t.label = a at heq
      subst heq
      obtain ⟨hl, hr, hascc⟩ := context_bounds hc hcs₁.symm hcs₂.symm ht.asc hk₁ hk₂
      have hread : readAt n.children es₁.length = .ok (some c.label) :=
        hn.read_child (by simp [childAddrs, hcs₁])
      rw [toList_focus a c hcs₁.symm, lookup_context hc hl hr]
      refine Runs.bind (Runs.load hget) ?_
      refine Runs.bind (Runs.lift (hn.scan_miss hc hk₁ hk₂) H) ?_
      refine Runs.bind (Runs.lift hread H) (Runs.ite_neg (by simp [hn.leaf_eq]) ?_)
      exact Runs.bind (Runs.deref _ H) (ih (ht.child hascc) s (by omega))

/-- `btree_search` finds exactly the entries that the tree holds. -/
theorem runs_btreeSearch {entries : List (Entry K)} (hH : Holds tree H entries) (k : K) :
    Runs (btreeSearch tree k) H (lookup tree.compare entries k) H := by
  unfold Holds at hH
  cases hroot : tree.root with
  | none =>
    rw [hroot] at hH
    rw [btreeSearch, hroot, hH]
    exact Runs.pure _ _
  | some root =>
    rw [hroot] at hH
    obtain ⟨h, t, rfl, ht, rfl⟩ := hH
    rw [btreeSearch, hroot]
    refine Runs.bind (Runs.get H) ?_
    exact searchFrom_spec hL hc ht k H.size (ht.rep.height_lt_size ht.fits ht.nodup)

end Maxql.Index
