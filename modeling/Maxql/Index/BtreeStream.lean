import Maxql.Index.BtreeMap
import Maxql.Index.BtreeSave

/-!
# Search in the index file

`btree_search_stream` goes down the blocks of the file as `btree_search` goes
down the nodes in memory.  In the file of a tree with nodes it gives the same
result.  The file of a tree without nodes is empty, and there the search reads
its buffer although nothing was read into it.
-/

namespace Maxql.Index

open Program SortedEntries Multiway Bytes

/-! ## Files with nodes -/

section Search

variable {s h : Nat} {L : BtreeLayout} {H : Heap (BtreeNode (Fixed s))}
  {compare : Fixed s → Fixed s → Int} {file buf : List UInt8} {pos : Nat} {slots : List Nat}

/-- One round on a block of the file. -/
theorem searchStreamFrom_block (hP : L.Packed s) {n : BtreeNode (Fixed s)}
    (hsized : Sized L n slots) (hcount : n.keyCount < 65536) (hslots : ∀ p ∈ slots, p < 2 ^ 63)
    (hb : BlockAt L file pos n slots) (hpos : pos < 2 ^ 63) (hbuf : buf.length = L.nodeSize)
    (key : Fixed s) (fuel p : Nat) :
    searchStreamFrom L compare file key (fuel + 1) p pos buf = (do
      let (found, pick) ← scanKeys compare key n.keys n.keyCount 0
      if found then
        let offset ← readAt n.offsets pick
        .ok (some offset)
      else
        let next ← readAt slots pick
        if btreeNodeIsLeaf n then .ok none
        else
          searchStreamFrom L compare file key fuel (pos + L.nodeSize) next (nodeImage L n slots)
      : Checked (Option FileOffset)) := by
  have hlen := length_nodeImage hP hsized
  obtain ⟨pre, post, rfl, rfl⟩ := hb
  have hread : freadAt (pre ++ (nodeImage L n slots ++ post)) pre.length L.nodeSize buf
      = nodeImage L n slots := freadAt_parts rfl hlen hbuf
  have hsize : (((pre ++ (nodeImage L n slots ++ post)).drop pre.length).take
      L.nodeSize).length = L.nodeSize := by
    rw [List.drop_left' rfl, List.take_left' hlen, hlen]
  have hself : BlockAt L (nodeImage L n slots) 0 n slots := ⟨[], [], by simp, rfl⟩
  have hnode := readBuffer_eq hP hsized hcount
    (fun p hp => Nat.lt_trans (hslots p hp) (by decide)) (hself.fields hP hsized)
  rw [searchStreamFrom]
  simp only [if_pos hpos, hread, hsize, hnode, Checked.ok_bind]

variable {par : Option Addr} {lo : Nat} {tree : Btree (Fixed s)}

/-- `searchFrom_spec` in the file. -/
theorem searchStreamFrom_spec (hL : tree.layout.Sound) (hP : tree.layout.Packed s)
    (hc : TotalCmp tree.compare) {t : AddrTree (Fixed s) h} (ht : Subtree tree H h par lo t)
    (hf : FileRep tree.layout H file h pos t) (hpos : pos < 2 ^ 63)
    (hbuf : buf.length = tree.layout.nodeSize) (key : Fixed s) (fuel p : Nat)
    (hfuel : h < fuel) :
    searchStreamFrom tree.layout tree.compare file key fuel p pos buf
      = .ok (lookup tree.compare (toList h t) key) := by
  have hmax := hL.maxKeys_le
  induction h generalizing par lo pos buf fuel p with
  | zero =>
    obtain ⟨slots, n, hget, hsized, hslots, hb⟩ := hf
    obtain ⟨n', hget', hn⟩ := ht.rep
    obtain rfl : n = n' := Option.some.inj (hget.symm.trans hget')
    obtain ⟨f, rfl⟩ : ∃ f, fuel = f + 1 := ⟨fuel - 1, by omega⟩
    obtain ⟨a, es, cs⟩ := t
    have hcount := hn.count_le
    have hkeys : n.keyCount < 65536 := by
      rw [hn.count_eq]
      exact Nat.lt_of_le_of_lt hcount (by omega)
    rw [searchStreamFrom_block hP hsized hkeys hslots hb hpos hbuf]
    by_cases hk : key ∈ es.map Prod.fst
    · obtain ⟨⟨k, v⟩, hmem, rfl⟩ := List.mem_map.1 hk
      obtain ⟨es₁, es₂, rfl⟩ := List.append_of_mem hmem
      have hsplit := ht.asc.split
      have hlookup : lookup tree.compare (toList 0 ⟨a, es₁ ++ (k, v) :: es₂, cs⟩) k = some v :=
        lookup_at hc hsplit.1
      rw [hlookup, hn.scan_hit hc hsplit.1, Checked.ok_bind]
      simp only [if_true]
      rw [hn.read_offset (e := (k, v)) (by simp)]
      rfl
    · obtain ⟨es₁, es₂, rfl, hk₁, hk₂⟩ := exists_split hc ht.asc hk
      have hlookup : lookup tree.compare (toList 0 ⟨a, es₁ ++ es₂, cs⟩) key = none :=
        lookup_eq_none hc hk
      have hslot : es₁.length < slots.length := by
        rw [hsized.slots_len, hL.childCount_eq]
        rw [List.length_append] at hcount
        omega
      have hleaf : btreeNodeIsLeaf n = true := hn.leaf_eq
      rw [hlookup, hn.scan_miss hc hk₁ hk₂, Checked.ok_bind]
      simp only [hleaf, if_true]
      rw [readAt_of_getElem? (List.getElem?_eq_getElem hslot)]
      rfl
  | succ h ih =>
    obtain ⟨ps, junk, ⟨n, hget, hsized, hslots, hb⟩, hps⟩ := hf
    obtain ⟨n', hget', hn⟩ := ht.rep.root
    obtain rfl : n = n' := Option.some.inj (hget.symm.trans hget')
    obtain ⟨f, rfl⟩ : ∃ f, fuel = f + 1 := ⟨fuel - 1, by omega⟩
    have hkeys : n.keyCount < 65536 := by
      rw [hn.count_eq]
      exact Nat.lt_of_le_of_lt hn.count_le (by omega)
    have hfit := (fits_iff.1 ht.fits).2.2
    have hsub := entries_sublist_toList hfit
    rw [searchStreamFrom_block hP hsized hkeys hslots hb hpos hbuf]
    by_cases hk : key ∈ t.entries.map Prod.fst
    · obtain ⟨⟨k, v⟩, hmem, rfl⟩ := List.mem_map.1 hk
      rw [lookup_of_mem hc ht.asc (hsub.subset hmem)]
      obtain ⟨es₁, es₂, hes⟩ := List.append_of_mem hmem
      have hasc := ht.asc.sublist hsub
      rw [hes] at hasc hn
      rw [hn.scan_hit hc hasc.split.1, Checked.ok_bind]
      simp only [if_true]
      rw [hn.read_offset (e := (k, v)) (by simp)]
      rfl
    · obtain ⟨es₁, es₂, cs₁, c, cs₂, heq, hcs₁, hcs₂, hk₁, hk₂⟩ :=
        exists_child hc hfit ht.asc hk
      generalize t.label = a at heq
      subst heq
      obtain ⟨hl, hr, hascc⟩ := context_bounds hc hcs₁.symm hcs₂.symm ht.asc hk₁ hk₂
      have hi : es₁.length < (cs₁ ++ c :: cs₂).length := by simp [hcs₁]
      have hp : es₁.length < ps.length := by
        rw [hps.length_eq]
        exact hi
      have hchild : FileRep tree.layout H file h ps[es₁.length] c := by
        have hget := hps.get hp hi
        simpa [hcs₁] using hget
      have hslot : ps[es₁.length] < 2 ^ 63 :=
        hslots _ (List.mem_append_left _ (List.getElem_mem hp))
      have hread : readAt (ps ++ junk) es₁.length = .ok ps[es₁.length] := by
        apply readAt_of_getElem?
        rw [List.getElem?_append_left hp, List.getElem?_eq_getElem hp]
      rw [toList_focus a c hcs₁.symm, lookup_context hc hl hr, hn.scan_miss hc hk₁ hk₂,
        Checked.ok_bind]
      have hinner : btreeNodeIsLeaf n = false := hn.leaf_eq
      simp only [hinner, hread, Checked.ok_bind, Bool.false_eq_true, if_false]
      exact ih (ht.child hascc) hchild hslot (length_nodeImage hP hsized) f _ (by omega)

end Search

/-! ## Files without nodes -/

section Empty

variable {s : Nat} {L : BtreeLayout} {compare : Fixed s → Fixed s → Int}

/-- The scans that end without a hit: the keys before the end are smaller, and the one
at the end, if the scan has not come to the last one, is greater. -/
theorem scanKeys_eq_miss {key : Fixed s} {keys : List (Fixed s)} {p : Nat} (rem : Nat) :
    ∀ i, scanKeys compare key keys rem i = .ok (false, p) ↔
      i ≤ p ∧ p ≤ i + rem ∧ (∀ j, i ≤ j → j < p → ∃ k, keys[j]? = some k ∧ 0 < compare key k) ∧
        (p = i + rem ∨ ∃ k, keys[p]? = some k ∧ compare key k < 0) := by
  induction rem with
  | zero =>
    intro i
    rw [scanKeys]
    refine ⟨fun h => ?_, fun h => ?_⟩
    · obtain rfl : i = p := by simpa using h
      exact ⟨Nat.le_refl _, Nat.le_refl _, fun j hj hlt => absurd hj (Nat.not_le.2 hlt),
        Or.inl rfl⟩
    · obtain ⟨hle, hge, _⟩ := h
      rw [show i = p by omega]
  | succ rem ih =>
    intro i
    rw [scanKeys]
    cases hkey : keys[i]? with
    | none =>
      rw [show readAt keys i = .error .outOfBounds by simp [readAt, hkey], Checked.error_bind]
      refine ⟨fun h => absurd h (by simp), fun h => ?_⟩
      obtain ⟨hle, _, hbefore, hend⟩ := h
      rcases Nat.lt_or_eq_of_le hle with hlt | rfl
      · obtain ⟨k, hk, _⟩ := hbefore i (Nat.le_refl i) hlt
        rw [hkey] at hk
        cases hk
      · rcases hend with hend | ⟨k, hk, _⟩
        · omega
        · rw [hkey] at hk
          cases hk
    | some k =>
      rw [readAt_of_getElem? hkey, Checked.ok_bind]
      -- what the conditions say about the key at `i`
      have hnow : i ≤ p → p ≤ i + (rem + 1) →
          (∀ j, i ≤ j → j < p → ∃ k, keys[j]? = some k ∧ 0 < compare key k) →
          (p = i + (rem + 1) ∨ ∃ k, keys[p]? = some k ∧ compare key k < 0) →
          (i < p ∧ 0 < compare key k) ∨ (i = p ∧ compare key k < 0) := by
        intro hle _ hbefore hend
        rcases Nat.lt_or_eq_of_le hle with hlt | rfl
        · obtain ⟨k', hk', hpos⟩ := hbefore i (Nat.le_refl i) hlt
          rw [hkey, Option.some.injEq] at hk'
          exact Or.inl ⟨hlt, hk' ▸ hpos⟩
        · rcases hend with hend | ⟨k', hk', hneg⟩
          · omega
          · rw [hkey, Option.some.injEq] at hk'
            exact Or.inr ⟨rfl, hk' ▸ hneg⟩
      split
      · next hzero =>
        refine ⟨fun h => by simp at h, fun h => ?_⟩
        obtain ⟨hle, hge, hbefore, hend⟩ := h
        rcases hnow hle hge hbefore hend with ⟨_, hpos⟩ | ⟨_, hneg⟩ <;> omega
      · split
        · next hneg =>
          refine ⟨fun h => ?_, fun h => ?_⟩
          · obtain rfl : i = p := by simpa using h
            exact ⟨Nat.le_refl _, Nat.le_add_right _ _,
              fun j hj hlt => absurd hj (Nat.not_le.2 hlt), Or.inr ⟨k, hkey, hneg⟩⟩
          · obtain ⟨hle, hge, hbefore, hend⟩ := h
            rcases hnow hle hge hbefore hend with ⟨_, hpos⟩ | ⟨rfl, _⟩
            · omega
            · rfl
        · next hnz hnn =>
          have hpos : 0 < compare key k := by omega
          rw [ih (i + 1)]
          refine ⟨fun h => ?_, fun h => ?_⟩
          · obtain ⟨hle, hge, hbefore, hend⟩ := h
            refine ⟨by omega, by omega, fun j hj hlt => ?_, hend.imp (fun h => by omega) id⟩
            rcases Nat.lt_or_eq_of_le hj with hj | rfl
            · exact hbefore j hj hlt
            · exact ⟨k, hkey, hpos⟩
          · obtain ⟨hle, hge, hbefore, hend⟩ := h
            refine ⟨?_, by omega, fun j hj hlt => hbefore j (by omega) hlt,
              hend.imp (fun h => by omega) id⟩
            rcases hnow hle hge hbefore hend with ⟨hlt, _⟩ | ⟨_, hneg⟩
            · exact hlt
            · omega

/-- A search that takes its node from `work` ends there without a hit. -/
def MissesIn (L : BtreeLayout) (compare : Fixed s → Fixed s → Int) (key : Fixed s)
    (work : List UInt8) : Prop :=
  ∃ node : NodeBuffer s, readBuffer L work = .ok node ∧ node.isLeaf = true ∧
    ∃ p ≤ node.keyCount, (∀ j < p, ∃ k, node.keys[j]? = some k ∧ 0 < compare key k) ∧
      (p = node.keyCount ∨ ∃ k, node.keys[p]? = some k ∧ compare key k < 0)

theorem readBuffer_lengths {work : List UInt8} {node : NodeBuffer s}
    (h : readBuffer L work = .ok node) :
    node.keys.length = L.maxKeys ∧ node.children.length = L.childCount := by
  simp only [readBuffer, Checked.bind_eq_ok] at h
  obtain ⟨_, _, _, _, _, _, _, _, _, _, h⟩ := h
  cases h
  exact ⟨by simp [length_chunks], by simp [length_chunks]⟩

/-- One round on an empty file leaves the buffer as it was. -/
theorem searchStreamFrom_empty (key : Fixed s) (work : List UInt8) (fuel pos next : Nat) :
    searchStreamFrom L compare [] key (fuel + 1) pos next work = (do
      let node : NodeBuffer s ← readBuffer L work
      let (found, pick) ← scanKeys compare key node.keys node.keyCount 0
      if found then
        let offset ← readAt node.offsets pick
        .ok (some offset)
      else
        let child ← readAt node.children pick
        if node.isLeaf then .ok none
        else
          searchStreamFrom L compare [] key fuel (if next < 2 ^ 63 then next else pos) child work
      : Checked (Option FileOffset)) := by
  rw [searchStreamFrom]
  simp [freadAt]

/-- On an empty file the search ends without a hit only if the buffer looks like a leaf
without the key. -/
theorem searchStreamFrom_empty_iff (hL : L.Sound) {key : Fixed s} {work : List UInt8} :
    ∀ pos next, (∃ fuel, searchStreamFrom L compare [] key fuel pos next work = .ok none) ↔
      MissesIn L compare key work := by
  refine fun pos next => ⟨fun h => ?_, fun ⟨node, hread, hleaf, p, hle, hbefore, hend⟩ => ?_⟩
  · obtain ⟨fuel, h⟩ := h
    induction fuel generalizing pos next with
    | zero => simp [searchStreamFrom] at h
    | succ fuel ih =>
      rw [searchStreamFrom_empty] at h
      obtain ⟨node, hread, h⟩ := Checked.bind_eq_ok.1 h
      obtain ⟨⟨found, pick⟩, hscan, h⟩ := Checked.bind_eq_ok.1 h
      cases found with
      | true =>
        obtain ⟨offset, _, h⟩ := Checked.bind_eq_ok.1 h
        simp at h
      | false =>
        obtain ⟨child, _, h⟩ := Checked.bind_eq_ok.1 h
        obtain ⟨_, hge, hbefore, hend⟩ := (scanKeys_eq_miss node.keyCount 0).1 hscan
        rw [Nat.zero_add] at hge hend
        by_cases hleaf : node.isLeaf = true
        · exact ⟨node, hread, hleaf, pick, hge, fun j hj => hbefore j (Nat.zero_le j) hj, hend⟩
        · rw [if_neg hleaf] at h
          exact ih _ _ h
  · have hlens := readBuffer_lengths hread
    have hp : p ≤ node.keys.length := by
      cases p with
      | zero => exact Nat.zero_le _
      | succ p =>
        obtain ⟨k, hk, _⟩ := hbefore p (Nat.lt_succ_self p)
        exact (List.getElem?_eq_some_iff.1 hk).1
    have hchild : p < node.children.length := by
      rw [hlens.2, hL.childCount_eq, ← hlens.1]
      exact Nat.lt_succ_of_le hp
    have hscan : scanKeys compare key node.keys node.keyCount 0 = .ok (false, p) := by
      rw [scanKeys_eq_miss, Nat.zero_add]
      exact ⟨Nat.zero_le p, hle, fun j _ hj => hbefore j hj, hend⟩
    refine ⟨1, ?_⟩
    rw [searchStreamFrom_empty, hread, Checked.ok_bind, hscan, Checked.ok_bind]
    simp only [Bool.false_eq_true, if_false]
    rw [readAt_of_getElem? (List.getElem?_eq_getElem hchild), Checked.ok_bind, if_pos hleaf]

end Empty

/-! ## Every file that a run saves -/

section Saved

variable {s nodeSize : Nat} {compare : Fixed s → Fixed s → Int} {tree : Btree (Fixed s)}
  {H : Heap (BtreeNode (Fixed s))} {work : List UInt8}

/-- The search in the saved file ends with the result of the search in memory if the
tree has nodes, and otherwise exactly if the buffer happens to look like a leaf without
the key. -/
theorem btreeSearchStream_agrees_iff (hlow : 11 ≤ nodeSize) (hhigh : nodeSize < 65536)
    (hmax : 3 ≤ (btreeLayoutCreate nodeSize s).maxKeys) (hc : TotalCmp compare)
    (hi : Inserted nodeSize compare tree H) (hwork : work.length = nodeSize) (key : Fixed s) :
    ∃ file result, Runs (btreeSave tree) H file H ∧ Runs (btreeSearch tree key) H result H ∧
      ((∃ fuel, btreeSearchStream nodeSize compare file work key fuel = .ok result) ↔
        (tree.root = none → MissesIn (btreeLayoutCreate nodeSize s) compare key work)) := by
  have hL := sound_btreeLayoutCreate hmax
  have hP : (btreeLayoutCreate nodeSize s).Packed s := packed_btreeLayoutCreate hlow hhigh
  obtain ⟨hlayout, rfl, hfit, entries, hH⟩ := hi.holds hmax hc
  have hsearch := runs_btreeSearch (hlayout ▸ hL) hc hH key
  unfold btreeSearchStream
  unfold Holds at hH
  split at hH
  · next hroot =>
    subst hH
    refine ⟨[], _, runs_btreeSave_empty hroot H, hsearch, ?_⟩
    rw [show lookup tree.compare ([] : List (Entry (Fixed s))) key = none from rfl,
      searchStreamFrom_empty_iff hL]
    exact ⟨fun h _ => h, fun h => h hroot⟩
  · next root hroot =>
    obtain ⟨h, t, rfl, ht, rfl⟩ := hH
    rw [← hlayout] at hL hP ⊢
    have hnode : tree.layout.nodeSize = nodeSize := by rw [hlayout]; rfl
    obtain ⟨file, hsave, _, hfile⟩ := runs_btreeSave hL hP ht hroot (hnode ▸ hfit)
    have hstream := searchStreamFrom_spec hL hP hc ht hfile (Nat.two_pow_pos 63)
      (hwork.trans hnode.symm) key (h + 1) 0 (Nat.lt_succ_self h)
    refine ⟨file, _, hsave, hsearch, fun _ hnone => ?_, fun _ => ⟨h + 1, hstream⟩⟩
    rw [hroot] at hnone
    cases hnone

end Saved

/-- A buffer in which an earlier search left the block of a leaf with the key 1. -/
def staleBuffer : List UInt8 :=
  [1, 1, 0] ++ (longKey 1).1 ++ List.replicate 2040 0 ++ [10] ++ List.replicate 1032 0

theorem length_staleBuffer : staleBuffer.length = 4096 := by
  rw [staleBuffer, List.length_append, List.length_append, List.length_append,
    List.length_append, List.length_replicate, List.length_replicate, (longKey 1).2]
  rfl

/-- A key in a leaf of a tree that has split. -/
theorem btreeSearchStream_agrees_iff_fourKeys : ∃ tree H file,
    Runs (insertKeys 4) Heap.empty tree H ∧ tree.root.bind (heightAt H H.size) = some 1 ∧
      Runs (btreeSave tree) H file H ∧ Runs (btreeSearch tree (longKey 3)) H (some 30) H ∧
      ∃ fuel, btreeSearchStream 4096 (fun a b => memcmp a.1 b.1) file staleBuffer (longKey 3)
        fuel = .ok (some 30) := by
  obtain ⟨tree, H, hkeys, -⟩ := insertKeys_reached (Nat.le_refl 4)
  obtain ⟨hheight, -⟩ := insertKeys_height hkeys
  obtain ⟨file, result, hsave, hresult, hiff⟩ := btreeSearchStream_agrees_iff (by decide)
    (by decide) (three_le_maxKeys (Nat.le_refl _)) (totalCmp_memcmp 1020)
    (insertKeys_inserted (Nat.le_refl 4) hkeys) length_staleBuffer (longKey 3)
  have hfound := insertKeys_search (Nat.le_refl 4) hkeys (longKey 3)
  rw [keysMap_three] at hfound
  obtain ⟨rfl, -⟩ := hresult.unique hfound
  refine ⟨tree, H, file, hkeys, hheight, hsave, hfound, hiff.2 fun hnone => ?_⟩
  rw [hnone] at hheight
  cases hheight

/-- The search in the empty file of a tree without nodes finds a key that is only in
the buffer. -/
theorem btreeSearchStream_stale :
    Runs (btreeSave longKeyTree) Heap.empty [] Heap.empty ∧
      Runs (btreeSearch longKeyTree (longKey 1)) Heap.empty none Heap.empty ∧
      btreeSearchStream 4096 (fun a b => memcmp a.1 b.1) [] staleBuffer (longKey 1) 1
        = .ok (some 10) := by
  refine ⟨rfl, rfl, ?_⟩
  decide +kernel

end Maxql.Index
