import Maxql.Index.BtreeLoad
import Maxql.Index.BtreeRelease

/-!
# B-trees across files

Every statement loads the indexes of its table, and a statement that changes
rows writes them back and releases them.  `Carried` are the states of the runs in
which this happens at any point, in the same heap or in that of another
process.

* `builds_parseTree`: what `parse_tree` builds is a tree again, made of the
  cells handed out for it and of no others;
* `Carried.holds`: the invariant of the runs;
* `carried_is_map`: what the operations do in every state of such a run.
-/

namespace Maxql.Index

open Program SortedEntries Multiway Bytes

variable {s h : Nat} {L : BtreeLayout} {H : Heap (BtreeNode (Fixed s))}

/-! ## What is loaded is a tree -/

/-- `load` builds a copy of `t` out of the cells that it is handed, in this order. -/
def Builds (L : BtreeLayout) (load : NodeProg (Fixed s) Addr) (par : Option Addr)
    (t : AddrTree (Fixed s) h) : Prop :=
  ∀ H₀, ∃ t' H₁, Runs load H₀ t'.label H₁ ∧ H₀.size ≤ H₁.size ∧
    (∀ b < H₀.size, H₁.get b = H₀.get b) ∧ Rep L H₁ h par t' ∧ Alike h t t' ∧
    labels h t' = List.range' H₀.size (H₁.size - H₀.size)

theorem range'_append_sub {a b c : Nat} (hab : a ≤ b) (hbc : b ≤ c) :
    List.range' a (b - a) ++ List.range' b (c - b) = List.range' a (c - a) := by
  have hb : a + (b - a) = b := by omega
  have happend := @List.range'_append_1 a (b - a) (c - b)
  rw [hb] at happend
  rw [happend]
  congr 1
  omega

/-- The child positions that are left are followed one after the other. -/
theorem builds_parseChildren {visit : Nat → NodeProg (Fixed s) Addr} {file : List UInt8}
    {a childrenOffset : Nat} {ps : List Nat} {cs : List (AddrTree (Fixed s) h)}
    (hbuilds : List.Forall₂ (fun p c => p < 2 ^ 63 ∧ Builds L (visit p) (some a) c) ps cs) :
    ∀ (done rest : List (Option Addr)) (n : BtreeNode (Fixed s)) (H₀ : Heap (BtreeNode (Fixed s))),
      H₀.get a = some n → n.children = done ++ rest → cs.length ≤ rest.length →
      (∀ j p, ps[j]? = some p →
        slice file (childrenOffset + (done.length + j) * 8) 8 = .ok (le 8 p)) →
      ∃ (cs' : List (AddrTree (Fixed s) h)) (H₁ : Heap (BtreeNode (Fixed s))),
        Runs (parseChildren visit file a childrenOffset cs.length done.length) H₀ () H₁ ∧
        H₀.size ≤ H₁.size ∧ (∀ b < H₀.size, b ≠ a → H₁.get b = H₀.get b) ∧
        H₁.get a = some
          { n with children := done ++ ((cs'.map Node.label).map some ++ rest.drop cs.length) } ∧
        (∀ c' ∈ cs', Rep L H₁ h (some a) c') ∧ List.Forall₂ (Alike h) cs cs' ∧
        cs'.flatMap (labels h) = List.range' H₀.size (H₁.size - H₀.size) := by
  induction hbuilds with
  | nil =>
    intro done rest n H₀ hget hn _ _
    refine ⟨[], H₀, Runs.pure () H₀, Nat.le_refl _, fun _ _ _ => rfl, ?_, nofun, .nil, ?_⟩
    · rw [hget, List.map_nil, List.map_nil, List.nil_append, List.length_nil, List.drop_zero, ← hn]
    · rw [Nat.sub_self]
      rfl
  | @cons p c ps cs hfirst _ ih =>
    intro done rest n H₀ hget hn hroom hslice
    obtain ⟨x, rest, rfl⟩ := List.exists_cons_of_length_pos (l := rest)
      (by rw [List.length_cons] at hroom; omega)
    obtain ⟨c', H₁, hrun, hsize, hsame, hrep, halike, hlabels⟩ := hfirst.2 H₀
    have ha : a < H₀.size := Heap.lt_size_of_get hget
    have hget₁ : H₁.get a = some n := (hsame a ha).trans hget
    have hwrite := writeAt_append_cons done rest x (some c'.label)
    rw [← hn] at hwrite
    obtain ⟨cs', H₂, hrest, hsize₂, hsame₂, hget₂, hreps, halikes, hranges⟩ :=
      ih (done ++ [some c'.label]) rest
        { n with children := done ++ some c'.label :: rest }
        (H₁.put a (some { n with children := done ++ some c'.label :: rest }))
        (Heap.get_put_self (Heap.lt_size_of_get hget₁) _) (by simp)
        (by simpa using hroom) (fun j q hj => by
          have := hslice (j + 1) q (by simpa using hj)
          simpa [Nat.add_assoc, Nat.add_comm 1] using this)
    rw [Heap.size_put] at hsize₂ hsame₂ hranges
    have hkeep : ∀ b ∈ labels h c', H₂.get b = H₁.get b := by
      intro b hb
      have hlt : b < H₁.size := hrep.lt_size b hb
      rw [hlabels, List.mem_range'_1] at hb
      have hne : b ≠ a := Nat.ne_of_gt (Nat.lt_of_lt_of_le ha hb.1)
      rw [hsame₂ b hlt hne, Heap.get_put_ne hne]
    refine ⟨c' :: cs', H₂, ?_, Nat.le_trans hsize hsize₂, fun b hb hne => ?_, ?_, ?_,
      .cons halike halikes, ?_⟩
    · have hread := hslice 0 p rfl
      have hpos : ofLe (le 8 p) = p := ofLe_le_of_lt (Nat.lt_trans hfirst.1 (by decide))
      rw [List.length_cons, parseChildren]
      refine Runs.bind (Runs.lift hread _) ?_
      rw [hpos]
      refine Runs.bind hrun (Runs.bind (Runs.load hget₁) ?_)
      refine Runs.bind (Runs.lift hwrite _) (Runs.bind (Runs.store hget₁ _) ?_)
      simpa using hrest
    · rw [hsame₂ b (Nat.lt_of_lt_of_le hb hsize) hne, Heap.get_put_ne hne, hsame b hb]
    · rw [hget₂]
      simp
    · intro d hd
      rcases List.mem_cons.1 hd with rfl | hd
      · exact hrep.frame hkeep
      · exact hreps d hd
    · rw [List.flatMap_cons, hlabels, hranges]
      exact range'_append_sub hsize hsize₂

/-- The node that the source builds from the fields of a block. -/
theorem NodeRep.rebuilt {n : BtreeNode (Fixed s)} {leaf : Bool} {par : Option Addr}
    {es : List (Entry (Fixed s))} {as as' : List Addr} (hn : NodeRep L n leaf par es as)
    (par' : Option Addr) {children : List (Option Addr)}
    (hchildren : Slots children (as'.map some) L.childCount) :
    NodeRep L { n with parent := par', children } leaf par' es as' where
  parent_eq := rfl
  leaf_eq := hn.leaf_eq
  count_eq := hn.count_eq
  keys_eq := hn.keys_eq
  offsets_eq := hn.offsets_eq
  children_eq := hchildren.eq
  keys_len := hn.keys_len
  offsets_len := hn.offsets_len
  children_len := hchildren.len

/-- `parse_tree` on a file that holds a tree builds that tree. -/
theorem builds_parseTree (hL : L.Sound) (hP : L.Packed s) {file : List UInt8} {pos lo : Nat}
    {par par' : Option Addr} {t : AddrTree (Fixed s) h} (ht : Rep L H h par t)
    (hfits : Fits L.minKeys L.maxKeys h lo t) (hf : FileRep L H file h pos t) {fuel : Nat}
    (hfuel : h < fuel) : Builds L (parseTree L file fuel par' pos) par' t := by
  have hmax := hL.maxKeys_le
  induction h generalizing par par' lo pos fuel with
  | zero =>
    intro H₀
    obtain ⟨slots, n, hget, hsized, -, hb⟩ := hf
    obtain ⟨n', hget', hn⟩ := ht
    obtain rfl : n = n' := Option.some.inj (hget.symm.trans hget')
    obtain ⟨f, rfl⟩ : ∃ f, fuel = f + 1 := ⟨fuel - 1, by omega⟩
    have hkeys : n.keyCount < 65536 := by
      rw [hn.count_eq]
      exact Nat.lt_of_le_of_lt hn.count_le (by omega)
    have hparse := parseNode_eq hP hsized hkeys (hb.fields hP hsized) par'
    have hn' : NodeRep L { n with parent := par', children := List.replicate L.childCount none }
        true par' t.entries [] := hn.rebuilt par' ⟨⟨_, rfl⟩, List.length_replicate⟩
    generalize { n with parent := par', children := List.replicate L.childCount none } = m
      at hparse hn'
    refine ⟨⟨H₀.size, t.entries, []⟩, H₀.push m, ?_, by simp,
      fun b hb => Heap.get_push_ne (Nat.ne_of_lt hb) m, ?_, rfl, ?_⟩
    · exact Runs.bind (Runs.lift hparse H₀) (Runs.bind (Runs.alloc H₀ m)
        (Runs.ite_pos hn'.leaf_eq (Runs.pure _ _)))
    · exact ⟨m, Heap.get_push_self H₀ m, hn'⟩
    · rw [Heap.size_push, Nat.add_sub_cancel_left]
      rfl
  | succ h ih =>
    intro H₀
    obtain ⟨ps, junk, ⟨n, hget, hsized, hslots, hb⟩, hps⟩ := hf
    obtain ⟨n', hget', hn⟩ := ht.root
    obtain rfl : n = n' := Option.some.inj (hget.symm.trans hget')
    obtain ⟨f, rfl⟩ : ∃ f, fuel = f + 1 := ⟨fuel - 1, by omega⟩
    have hcount := hfits.children_length
    have hle := hfits.le_max
    have hkids : n.keyCount + 1 = t.children.length := by rw [hn.count_eq, hcount]
    have hkeys : n.keyCount < 65536 := by omega
    have hfields := hb.fields hP hsized
    have hparse := parseNode_eq hP hsized hkeys hfields par'
    have hinner : btreeNodeIsLeaf n = false := hn.leaf_eq
    -- the fresh node, then its children
    obtain ⟨m, hm⟩ : ∃ m : BtreeNode (Fixed s), m = { n with
        parent := par', children := List.replicate L.childCount none } := ⟨_, rfl⟩
    rw [← hm] at hparse
    have hmget : (H₀.push m).get H₀.size = some m := Heap.get_push_self H₀ m
    have hbuilds : List.Forall₂ (fun p c => p < 2 ^ 63 ∧
        Builds L (parseTree L file f (some H₀.size) p) (some H₀.size) c) ps t.children := by
      rw [List.forall₂_iff_zip] at hps ⊢
      refine ⟨hps.1, fun {p c} hmem =>
        ⟨hslots p (List.mem_append_left _ (List.of_mem_zip hmem).1), ?_⟩⟩
      have hc := (List.of_mem_zip hmem).2
      exact ih (ht.child hc) (hfits.child hc) (hps.2 hmem) (by omega)
    have hslice : ∀ j p, ps[j]? = some p → slice file
        (pos + L.childrenOffset + (([] : List (Option Addr)).length + j) * 8) 8
          = .ok (le 8 p) := by
      intro j p hj
      rw [List.length_nil, Nat.zero_add]
      apply hfields.child
      rw [List.getElem?_append_left (List.getElem?_eq_some_iff.1 hj).1, hj]
    have hroom : t.children.length ≤ (List.replicate L.childCount (none : Option Addr)).length := by
      rw [List.length_replicate, hL.childCount_eq]
      omega
    obtain ⟨cs', H₁, hrun, hsize, hsame, hget₁, hreps, halikes, hranges⟩ :=
      builds_parseChildren hbuilds [] (List.replicate L.childCount none) m (H₀.push m) hmget
        (by rw [hm]; rfl) hroom hslice
    rw [Heap.size_push] at hsize hsame hranges
    rw [List.nil_append] at hget₁
    have hlen := halikes.length_eq
    refine ⟨⟨H₀.size, t.entries, cs'⟩, H₁, ?_, by omega, fun b hb => ?_, ⟨?_, hreps⟩,
      ⟨rfl, halikes⟩, ?_⟩
    · refine Runs.bind (Runs.lift hparse H₀) ?_
      have hminner : ¬btreeNodeIsLeaf m = true := by
        rw [hm]
        exact Bool.eq_false_iff.1 hinner
      have hmkids : m.keyCount + 1 = t.children.length := by rw [hm, ← hkids]
      refine Runs.bind (Runs.alloc H₀ m) (Runs.ite_neg hminner ?_)
      rw [hmkids]
      exact Runs.bind hrun (Runs.pure _ _)
    · rw [hsame b (by omega) (Nat.ne_of_lt hb), Heap.get_push_ne (Nat.ne_of_lt hb)]
    · refine ⟨_, hget₁, ?_⟩
      rw [hm]
      refine hn.rebuilt par' ⟨⟨_, rfl⟩, ?_⟩
      rw [List.length_append, List.length_map, List.length_map, List.length_drop, ← hlen]
      rw [List.length_replicate] at hroom ⊢
      omega
    · rw [labels, hranges, show H₁.size - H₀.size = H₁.size - (H₀.size + 1) + 1 by omega,
        List.range'_succ]

/-! ## One statement after the other -/

/-- The tree of a loaded index.  What the cleanup has released must not be used. -/
def LoadResult.usable {K : Type} (result : LoadResult K) : Checked (Btree K) :=
  match result.released, result.data with
  | false, some tree => .ok tree
  | _, _ => .error .badAddress

/-- `btree_load` with the first use of what it leaves. -/
def openIndex (nodeSize : Nat) (compare : Fixed s → Fixed s → Int) (file : List UInt8) :
    NodeProg (Fixed s) (Btree (Fixed s)) := do
  let result ← btreeLoad nodeSize compare file
  result.usable

section Reopened

variable {nodeSize : Nat} {compare : Fixed s → Fixed s → Int} {tree : Btree (Fixed s)}
  {entries : List (Entry (Fixed s))}

/-- The tree `tree'` in `H'` holds what `tree` holds in `H`, in the cells that were handed out
since `H₀`. -/
structure Reopened (tree : Btree (Fixed s)) (entries : List (Entry (Fixed s)))
    (H₀ : Heap (BtreeNode (Fixed s))) (tree' : Btree (Fixed s))
    (H' : Heap (BtreeNode (Fixed s))) : Prop where
  layout_eq : tree'.layout = tree.layout
  compare_eq : tree'.compare = tree.compare
  size_le : H₀.size ≤ H'.size
  same : ∀ b < H₀.size, H'.get b = H₀.get b
  cells : HoldsIn tree' H' entries (List.range' H₀.size (H'.size - H₀.size))

/-- The file of a tree without nodes cannot be used. -/
theorem openIndex_empty {H₀ H' : Heap (BtreeNode (Fixed s))} {tree' : Btree (Fixed s)} :
    ¬Runs (openIndex nodeSize compare ([] : List UInt8)) H₀ tree' H' := by
  intro hrun
  cases hrun

/-- The file of any other tree gives the tree back, into whatever heap. -/
theorem runs_reopen (hL : tree.layout.Sound) (hP : tree.layout.Packed s)
    (hlayout : tree.layout = btreeLayoutCreate nodeSize s) (hH : Holds tree H entries)
    (hroot : tree.root ≠ none) (hfit : H.size * nodeSize ≤ 2 ^ 63) :
    ∃ file, Runs (btreeSave tree) H file H ∧ ∀ H₀, ∃ tree' H',
      Runs (openIndex nodeSize tree.compare file) H₀ tree' H' ∧
        Reopened tree entries H₀ tree' H' := by
  unfold Holds at hH
  split at hH
  · next hnone => exact absurd hnone hroot
  · next root hsome =>
    obtain ⟨h, t, rfl, ht, rfl⟩ := hH
    have hnode : tree.layout.nodeSize = nodeSize := by rw [hlayout]; rfl
    obtain ⟨file, hsave, hlen, hfile⟩ := runs_btreeSave hL hP ht hsome (hnode ▸ hfit)
    refine ⟨file, hsave, fun H₀ => ?_⟩
    have hbuilds : Builds tree.layout (parseTree tree.layout file file.length none 0) none t :=
      builds_parseTree hL hP ht.rep ht.fits hfile hlen
    obtain ⟨t', H₁, hrun, hsize, hsame, hrep, halike, hlabels⟩ := hbuilds H₀
    have hlayout' : (btreeCreate nodeSize s tree.compare).layout = tree.layout := hlayout.symm
    rw [← hlayout'] at hrun
    obtain ⟨tree', htree'⟩ : ∃ tree', tree' =
      { btreeCreate nodeSize s tree.compare with root := some t'.label } := ⟨_, rfl⟩
    have hlayout₁ : tree'.layout = tree.layout := by rw [htree', ← hlayout']
    have hcompare₁ : tree'.compare = tree.compare := by rw [htree']; rfl
    have hroot₁ : tree'.root = some t'.label := by rw [htree']
    rw [← hlayout₁] at hrep
    refine ⟨tree', H₁, ?_, hlayout₁, hcompare₁, hsize, hsame, ?_⟩
    · have hload : Runs (btreeLoad nodeSize tree.compare file) H₀
          { data := some tree', released := false } H₁ := by
        refine Runs.ite_neg (by omega) (Runs.bind hrun ?_)
        rw [htree']
        exact Runs.pure _ _
      exact Runs.bind hload (Runs.lift rfl H₁)
    · unfold HoldsIn
      rw [hroot₁]
      refine ⟨h, t', rfl, ⟨hrep, ?_, ?_, ?_⟩, halike.toList_eq, hlabels⟩
      · rw [hlabels]
        exact List.nodup_range'
      · rw [hlayout₁]
        exact halike.fits ht.fits
      · rw [hcompare₁, halike.toList_eq]
        exact ht.asc

end Reopened

/-! ## Runs -/

section Runs

variable {nodeSize : Nat} {compare : Fixed s → Fixed s → Int} {tree : Btree (Fixed s)}
  {m : Fixed s → Option FileOffset}

/-- The states of the runs from `btree_create` on: absent keys are inserted, keys are deleted
where `deleteOk` holds, and the tree is saved at any point and goes on as what a later
`btree_load` of its file makes of it, in any heap.  The nodes that one process has made have at
most `2 ^ 63` bytes when it saves. -/
inductive Carried (nodeSize : Nat) (compare : Fixed s → Fixed s → Int) :
    Btree (Fixed s) → Heap (BtreeNode (Fixed s)) → (Fixed s → Option FileOffset) → Prop where
  | create (H : Heap (BtreeNode (Fixed s))) :
      Carried nodeSize compare (btreeCreate nodeSize s compare) H fun _ => none
  | insert {tree tree' : Btree (Fixed s)} {H H' : Heap (BtreeNode (Fixed s))}
      {m : Fixed s → Option FileOffset} {k : Fixed s} {v : FileOffset}
      (hk : Carried nodeSize compare tree H m) (habsent : m k = none)
      (hrun : Runs (btreeInsert tree k v) H tree' H') :
      Carried nodeSize compare tree' H' (Function.update m k (some v))
  | delete {tree tree' : Btree (Fixed s)} {H H' : Heap (BtreeNode (Fixed s))}
      {m : Fixed s → Option FileOffset} {k : Fixed s} {deleted : Bool}
      (hk : Carried nodeSize compare tree H m) (hok : m k ≠ none → deleteOk tree H k)
      (hrun : Runs (btreeDelete tree k) H (deleted, tree') H') :
      Carried nodeSize compare tree' H' (Function.update m k none)
  | reload {tree tree' : Btree (Fixed s)} {H H₀ H₁ H' : Heap (BtreeNode (Fixed s))}
      {m : Fixed s → Option FileOffset} {file : List UInt8}
      (hk : Carried nodeSize compare tree H m) (hfit : H.size * nodeSize ≤ 2 ^ 63)
      (hsave : Runs (btreeSave tree) H file H₁)
      (hopen : Runs (openIndex nodeSize compare file) H₀ tree' H') :
      Carried nodeSize compare tree' H' m

/-- The invariant of the runs: the tree in memory holds the entries of the map. -/
theorem Carried.holds (hlow : 11 ≤ nodeSize) (hhigh : nodeSize < 65536)
    (hmax : 3 ≤ (btreeLayoutCreate nodeSize s).maxKeys) (hc : TotalCmp compare)
    (hk : Carried nodeSize compare tree H m) :
    tree.layout = btreeLayoutCreate nodeSize s ∧ tree.compare = compare ∧
      ∃ entries, Holds tree H entries ∧ m = lookup compare entries := by
  have hL := sound_btreeLayoutCreate hmax
  have hP : (btreeLayoutCreate nodeSize s).Packed s := packed_btreeLayoutCreate hlow hhigh
  induction hk with
  | create H => exact ⟨rfl, rfl, [], rfl, rfl⟩
  | @insert tree tree' H H' m k v _ habsent hrun ih =>
    obtain ⟨hlayout, rfl, entries, hH, rfl⟩ := ih
    have hk : k ∉ entries.map Prod.fst := fun hmem => (mem_keys_iff hc).1 hmem habsent
    obtain ⟨hlayout', hcompare', hH'⟩ := hH.inserted (hlayout ▸ hL) hc hk hrun
    exact ⟨hlayout'.trans hlayout, hcompare', _, hH',
      (lookup_insertEntry hc hH.ascending hk).symm⟩
  | @delete tree tree' H H' m k deleted _ hok hrun ih =>
    obtain ⟨hlayout, rfl, entries, hH, rfl⟩ := ih
    obtain ⟨hlayout', hcompare', hH'⟩ := hH.deleted (hlayout ▸ hL) hc
      (fun hmem => hok ((mem_keys_iff hc).1 hmem)) hrun
    exact ⟨hlayout'.trans hlayout, hcompare', _, hH', (lookup_eraseKey hc hH.ascending).symm⟩
  | @reload tree tree' H H₀ H₁ H' m file _ hfit hsave hopen ih =>
    obtain ⟨hlayout, rfl, entries, hH, rfl⟩ := ih
    by_cases hroot : tree.root = none
    · obtain ⟨rfl, -⟩ := hsave.unique (runs_btreeSave_empty hroot H)
      exact absurd hopen openIndex_empty
    · obtain ⟨file', hsave', hreopen⟩ := runs_reopen (hlayout ▸ hL) (hlayout ▸ hP) hlayout hH
        hroot hfit
      obtain ⟨rfl, -⟩ := hsave.unique hsave'
      obtain ⟨tree₁, H₁, hopen', hreopened⟩ := hreopen H₀
      obtain ⟨rfl, rfl⟩ := hopen.unique hopen'
      exact ⟨hreopened.layout_eq.trans hlayout, hreopened.compare_eq, entries,
        hreopened.cells.holds, rfl⟩

/-- In every state of such a run, across any number of statements and processes, a search gives
what the map gives; an absent key can be inserted; a key can be deleted under `deleteOk`; the
saved file can be opened, in any heap, exactly if the tree has nodes; and `btree_free` releases
the nodes of the tree, each once, and nothing else. -/
theorem carried_is_map (hlow : 11 ≤ nodeSize) (hhigh : nodeSize < 65536)
    (hmax : 3 ≤ (btreeLayoutCreate nodeSize s).maxKeys) (hc : TotalCmp compare)
    (hk : Carried nodeSize compare tree H m) :
    (∀ k, Runs (btreeSearch tree k) H (m k) H) ∧
      (∀ k v, m k = none → ∃ tree' H', Runs (btreeInsert tree k v) H tree' H') ∧
      (∀ k, (m k ≠ none → deleteOk tree H k) →
        ∃ tree' H', Runs (btreeDelete tree k) H ((m k).isSome, tree') H') ∧
      (H.size * nodeSize ≤ 2 ^ 63 → ∃ file, Runs (btreeSave tree) H file H ∧
        ∀ H₀, (∃ tree' H', Runs (openIndex nodeSize compare file) H₀ tree' H') ↔
          tree.root ≠ none) ∧
      ∃ entries as H', HoldsIn tree H entries as ∧ m = lookup compare entries ∧
        Runs (btreeFree tree) H () H' ∧ Freed H H' as := by
  have hL := sound_btreeLayoutCreate hmax
  have hP : (btreeLayoutCreate nodeSize s).Packed s := packed_btreeLayoutCreate hlow hhigh
  obtain ⟨hlayout, rfl, entries, hH, rfl⟩ := hk.holds hlow hhigh hmax hc
  rw [← hlayout] at hL hP
  obtain ⟨as, hcells⟩ := hH.cells
  obtain ⟨H', hfree, hfreed⟩ := runs_btreeFree hcells
  refine ⟨runs_btreeSearch hL hc hH, fun k v hk => ?_, fun k hok => ?_, fun hfit => ?_,
    entries, as, H', hcells, rfl, hfree, hfreed⟩
  · have hnot : k ∉ entries.map Prod.fst := fun hmem => (mem_keys_iff hc).1 hmem hk
    obtain ⟨root, H', hrun, -⟩ := runs_btreeInsert (v := v) hL hc hH hnot
    exact ⟨_, H', hrun⟩
  · obtain ⟨root, H', hrun, -⟩ := runs_btreeDelete hL hc hH
      fun hmem => hok ((mem_keys_iff hc).1 hmem)
    exact ⟨_, H', hrun⟩
  · by_cases hroot : tree.root = none
    · refine ⟨[], runs_btreeSave_empty hroot H, fun H₀ => iff_of_false ?_ (not_not.2 hroot)⟩
      rintro ⟨tree', H', hopen⟩
      exact openIndex_empty hopen
    · obtain ⟨file, hsave, hreopen⟩ := runs_reopen hL hP hlayout hH hroot hfit
      refine ⟨file, hsave, fun H₀ => iff_of_true ?_ hroot⟩
      obtain ⟨tree', H', hopen, -⟩ := hreopen H₀
      exact ⟨tree', H', hopen⟩

/-- A statement that only searches leaves no cell behind: after `btree_load`, any searches and
`btree_free`, the cells that were there are as before and all others are gone. -/
theorem openIndex_free_restores (hlow : 11 ≤ nodeSize) (hhigh : nodeSize < 65536)
    (hmax : 3 ≤ (btreeLayoutCreate nodeSize s).maxKeys) (hc : TotalCmp compare)
    (hk : Carried nodeSize compare tree H m) (hfit : H.size * nodeSize ≤ 2 ^ 63)
    (hroot : tree.root ≠ none) (ks : List (Fixed s)) (H₀ : Heap (BtreeNode (Fixed s))) :
    ∃ file H', Runs (btreeSave tree) H file H ∧
      Runs (do
        let tree ← openIndex nodeSize compare file
        let offsets ← ks.mapM (btreeSearch tree)
        btreeFree tree
        return offsets) H₀ (ks.map m) H' ∧
      ∀ a, H'.get a = H₀.get a := by
  have hL := sound_btreeLayoutCreate hmax
  have hP : (btreeLayoutCreate nodeSize s).Packed s := packed_btreeLayoutCreate hlow hhigh
  obtain ⟨hlayout, rfl, entries, hH, rfl⟩ := hk.holds hlow hhigh hmax hc
  rw [← hlayout] at hL hP
  obtain ⟨file, hsave, hreopen⟩ := runs_reopen hL hP hlayout hH hroot hfit
  obtain ⟨tree', H₁, hopen, hreopened⟩ := hreopen H₀
  obtain ⟨H', hfree, hfreed⟩ := runs_btreeFree hreopened.cells
  have hsearches : Runs (ks.mapM (btreeSearch tree')) H₁
      (ks.map (lookup tree.compare entries)) H₁ := by
    have hL' : tree'.layout.Sound := hreopened.layout_eq ▸ hL
    have hc' : TotalCmp tree'.compare := hreopened.compare_eq ▸ hc
    induction ks with
    | nil => exact Runs.pure _ _
    | cons k ks ih =>
      have hfirst := runs_btreeSearch hL' hc' hreopened.cells.holds k
      rw [hreopened.compare_eq] at hfirst
      rw [List.mapM_cons]
      exact Runs.bind hfirst (Runs.bind ih (Runs.pure _ _))
  refine ⟨file, H', hsave, Runs.bind hopen (Runs.bind hsearches (Runs.bind hfree (Runs.pure _ _))),
    fun a => ?_⟩
  by_cases hmem : a ∈ List.range' H₀.size (H₁.size - H₀.size)
  · rw [hfreed.gone a hmem]
    rw [List.mem_range'_1] at hmem
    exact (Heap.get_eq_none hmem.1).symm
  · rw [hfreed.same a hmem]
    by_cases hlt : a < H₀.size
    · exact hreopened.same a hlt
    · have hle : H₀.size ≤ a := Nat.le_of_not_lt hlt
      have hge : H₁.size ≤ a := by
        by_contra hlt₁
        apply hmem
        rw [List.mem_range'_1]
        omega
      rw [Heap.get_eq_none hge, Heap.get_eq_none hle]

end Runs

/-- A run of one process is a run. -/
theorem Reached.carried {nodeSize : Nat} {compare : Fixed s → Fixed s → Int}
    {tree : Btree (Fixed s)} {H : Heap (BtreeNode (Fixed s))}
    {m : Fixed s → Option FileOffset} (hr : Reached nodeSize s compare tree H m) :
    Carried nodeSize compare tree H m := by
  induction hr with
  | create => exact .create Heap.empty
  | insert _ habsent hrun ih => exact .insert ih habsent hrun
  | delete _ hok hrun ih => exact .delete ih hok hrun

/-- The second of four keys, in a root and two leaves, is deleted. -/
def deleteSecond : NodeProg (Fixed 1020) (Bool × Btree (Fixed 1020)) := do
  let tree ← insertKeys 4
  btreeDelete tree (longKey 2)

theorem deleteSecond_run : (deleteSecond.run Heap.empty).toOption.all (fun r =>
    decide (r.2.size ≤ 3) && decide (r.1.2.root.bind (heightAt r.2 r.2.size) = some 1)) := by
  decide +kernel

/-- The tree that is left, with the map of its keys, and room for its file. -/
theorem deleteSecond_carried : ∃ tree H, Runs deleteSecond Heap.empty (true, tree) H ∧
    Carried 4096 longKeyTree.compare tree H (Function.update (keysMap 4) (longKey 2) none) ∧
    H.size * 4096 ≤ 2 ^ 63 ∧ tree.root.bind (heightAt H H.size) = some 1 := by
  obtain ⟨tree, H, hkeys, hr⟩ := insertKeys_reached (Nat.le_refl 4)
  obtain ⟨-, hok⟩ := insertKeys_height hkeys
  have hmax : 3 ≤ (btreeLayoutCreate 4096 1020).maxKeys := three_le_maxKeys (Nat.le_refl _)
  have hc := totalCmp_memcmp 1020
  obtain ⟨hlayout, hcompare, entries, hH, hmap⟩ := hr.holds hmax hc
  obtain ⟨root, H', hrun, -⟩ := runs_btreeDelete (hlayout ▸ sound_btreeLayoutCreate hmax)
    (hcompare ▸ hc) hH fun _ => hok
  rw [hcompare, ← hmap, keysMap_two, ← hcompare] at hrun
  have hsecond : Runs deleteSecond Heap.empty (true, { tree with root }) H' :=
    Runs.bind hkeys hrun
  have hleft := deleteSecond_run
  rw [show deleteSecond.run Heap.empty = .ok ((true, { tree with root }), H') from hsecond] at hleft
  obtain ⟨hsize, hheight⟩ := Bool.and_eq_true_iff.1 hleft
  exact ⟨_, H', hsecond, .delete hr.carried (fun _ => hok) hrun,
    Nat.le_trans (Nat.mul_le_mul_right _ (of_decide_eq_true hsize)) (by decide),
    of_decide_eq_true hheight⟩

/-- What one process has inserted and not deleted another one finds. -/
theorem carried_is_map_fourKeys : ∃ tree H file tree' H',
    Runs deleteSecond Heap.empty (true, tree) H ∧
      Runs (btreeSave tree) H file H ∧
      Runs (openIndex 4096 longKeyTree.compare file) Heap.empty tree' H' ∧
      Runs (btreeSearch tree' (longKey 2)) H' none H' ∧
      Runs (btreeSearch tree' (longKey 3)) H' (some 30) H' := by
  have hmax : 3 ≤ (btreeLayoutCreate 4096 1020).maxKeys := three_le_maxKeys (Nat.le_refl _)
  obtain ⟨tree, H, hrun, hk, hfit, hheight⟩ := deleteSecond_carried
  have hroot : tree.root ≠ none := by
    intro hnone
    rw [hnone] at hheight
    cases hheight
  obtain ⟨-, -, -, hsaves, -⟩ :=
    carried_is_map (by decide) (by decide) hmax (totalCmp_memcmp 1020) hk
  obtain ⟨file, hsave, hopens⟩ := hsaves hfit
  obtain ⟨tree', H', hopen⟩ := (hopens Heap.empty).2 hroot
  obtain ⟨hsearch, -⟩ := carried_is_map (by decide) (by decide) hmax (totalCmp_memcmp 1020)
    (Carried.reload hk hfit hsave hopen)
  have hgone := hsearch (longKey 2)
  have hkept := hsearch (longKey 3)
  rw [Function.update_self] at hgone
  rw [Function.update_of_ne (longKey_inj.not.2 (by decide)), keysMap_three] at hkept
  exact ⟨tree, H, file, tree', H', hrun, hsave, hopen, hgone, hkept⟩

/-- The nodes of the tree that is loaded come and go next to those of the tree that was saved. -/
theorem openIndex_free_restores_fourKeys : ∃ tree H file H',
    Runs deleteSecond Heap.empty (true, tree) H ∧
      tree.root.bind (heightAt H H.size) = some 1 ∧
      Runs (btreeSave tree) H file H ∧
      Runs (do
        let tree ← openIndex 4096 longKeyTree.compare file
        let offsets ← [longKey 2, longKey 3, longKey 1].mapM (btreeSearch tree)
        btreeFree tree
        return offsets) H [none, some 30, some 10] H' ∧
      ∀ a, H'.get a = H.get a := by
  obtain ⟨tree, H, hrun, hk, hfit, hheight⟩ := deleteSecond_carried
  have hroot : tree.root ≠ none := by
    intro hnone
    rw [hnone] at hheight
    cases hheight
  obtain ⟨file, H', hsave, hread, hsame⟩ := openIndex_free_restores (by decide) (by decide)
    (three_le_maxKeys (Nat.le_refl _)) (totalCmp_memcmp 1020) hk hfit hroot
    [longKey 2, longKey 3, longKey 1] H
  have hmap : [longKey 2, longKey 3, longKey 1].map
      (Function.update (keysMap 4) (longKey 2) none) = [none, some 30, some 10] := by
    simp [keysMap, longKey_inj]
  rw [hmap] at hread
  exact ⟨tree, H, file, H', hrun, hheight, hsave, hread, hsame⟩

end Maxql.Index
