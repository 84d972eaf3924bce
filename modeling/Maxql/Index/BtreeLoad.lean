import Maxql.Index.BtreeSave

/-!
# Loading a saved B-tree

`parse_tree` builds the saved tree out of fresh nodes.  What it has built does
not depend on the cells that are handed out later, so the induction carries
every heap that agrees with the result on the cells of the loaded part.
-/

namespace Maxql.Index

open Program SortedEntries Multiway Bytes

variable {s h : Nat} {L : BtreeLayout} {H : Heap (BtreeNode (Fixed s))}

/-! ## Equal trees -/

/-- The node `n'` below `par'` has what the node `n` has. -/
structure SameNode {K : Type} (par' : Option Addr) (n n' : BtreeNode K) : Prop where
  parent_eq : n'.parent = par'
  flags_eq : n'.flags = n.flags
  keyCount_eq : n'.keyCount = n.keyCount
  keys_eq : n'.keys = n.keys
  offsets_eq : n'.offsets = n.offsets

/-- The nodes at and below `a'` in `H'` are the nodes at and below `a` in `H`, in the
same shape, each below its parent. -/
inductive SameTree {K : Type} (H H' : Heap (BtreeNode K)) :
    (par' : Option Addr) → (a a' : Addr) → Prop where
  | leaf {par' : Option Addr} {a a' : Addr} {n n' : BtreeNode K} (hget : H.get a = some n)
      (hget' : H'.get a' = some n') (hsame : SameNode par' n n')
      (hleaf : btreeNodeIsLeaf n = true) : SameTree H H' par' a a'
  | inner {par' : Option Addr} {a a' : Addr} {n n' : BtreeNode K} (c c' : Nat → Addr)
      (hget : H.get a = some n) (hget' : H'.get a' = some n') (hsame : SameNode par' n n')
      (hinner : btreeNodeIsLeaf n = false)
      (hchild : ∀ i ≤ n.keyCount, n.children[i]? = some (some (c i)))
      (hchild' : ∀ i ≤ n.keyCount, n'.children[i]? = some (some (c' i)))
      (hrest : ∀ i ≤ n.keyCount, SameTree H H' (some a') (c i) (c' i)) :
      SameTree H H' par' a a'

/-! ## Loading a tree -/

/-- `load` builds a copy of the tree at `a` out of fresh cells. -/
def Loads (load : NodeProg (Fixed s) Addr) (H : Heap (BtreeNode (Fixed s)))
    (par' : Option Addr) (a : Addr) : Prop :=
  ∀ H₀, ∃ a' H₁, Runs load H₀ a' H₁ ∧ H₀.size ≤ H₁.size ∧
    (∀ b < H₀.size, H₁.get b = H₀.get b) ∧
    ∀ H'', (∀ b, H₀.size ≤ b → b < H₁.size → H''.get b = H₁.get b) →
      SameTree H H'' par' a a'

/-- The child positions that are left are followed one after the other. -/
theorem runs_parseChildren {visit : Nat → NodeProg (Fixed s) Addr} {file : List UInt8}
    {a childrenOffset : Nat} {ps : List Nat} {cs : List (AddrTree (Fixed s) h)}
    (hloads : List.Forall₂ (fun p c => p < 2 ^ 63 ∧ Loads (visit p) H (some a) c.label) ps cs) :
    ∀ (done rest : List (Option Addr)) (n : BtreeNode (Fixed s)) (H₀ : Heap (BtreeNode (Fixed s))),
      H₀.get a = some n → n.children = done ++ rest → cs.length ≤ rest.length →
      (∀ j p, ps[j]? = some p →
        slice file (childrenOffset + (done.length + j) * 8) 8 = .ok (le 8 p)) →
      ∃ (cs' : List Addr) (H₁ : Heap (BtreeNode (Fixed s))),
        Runs (parseChildren visit file a childrenOffset cs.length done.length) H₀ () H₁ ∧
        H₀.size ≤ H₁.size ∧ (∀ b < H₀.size, b ≠ a → H₁.get b = H₀.get b) ∧
        H₁.get a = some
          { n with children := done ++ (cs'.map some ++ rest.drop cs.length) } ∧
        ∀ H'', (∀ b, H₀.size ≤ b → b < H₁.size → H''.get b = H₁.get b) →
          List.Forall₂ (fun c c' => SameTree H H'' (some a) c.label c') cs cs' := by
  induction hloads with
  | nil =>
    intro done rest n H₀ hget hn _ _
    refine ⟨[], H₀, Runs.pure () H₀, Nat.le_refl _, fun _ _ _ => rfl, ?_, fun _ _ => .nil⟩
    rw [hget, List.map_nil, List.nil_append, List.length_nil, List.drop_zero, ← hn]
  | @cons p c ps cs hfirst _ ih =>
    intro done rest n H₀ hget hn hroom hslice
    obtain ⟨x, rest, rfl⟩ := List.exists_cons_of_length_pos (l := rest)
      (by rw [List.length_cons] at hroom; omega)
    obtain ⟨c', H₁, hrun, hsize, hsame, hcopy⟩ := hfirst.2 H₀
    have ha : a < H₀.size := Heap.lt_size_of_get hget
    have hget₁ : H₁.get a = some n := (hsame a ha).trans hget
    have hwrite := writeAt_append_cons done rest x (some c')
    rw [← hn] at hwrite
    obtain ⟨cs', H₂, hrest, hsize₂, hsame₂, hget₂, hcopies⟩ := ih (done ++ [some c']) rest
      { n with children := done ++ some c' :: rest }
      (H₁.put a (some { n with children := done ++ some c' :: rest }))
      (Heap.get_put_self (Heap.lt_size_of_get hget₁) _) (by simp)
      (by simpa using hroom) (fun j q hj => by
        have := hslice (j + 1) q (by simpa using hj)
        simpa [Nat.add_assoc, Nat.add_comm 1] using this)
    rw [Heap.size_put] at hsize₂ hsame₂ hcopies
    refine ⟨c' :: cs', H₂, ?_, Nat.le_trans hsize hsize₂, fun b hb hne => ?_, ?_,
      fun H'' hagree => .cons (hcopy H'' fun b hlow hhigh => ?_)
        (hcopies H'' fun b hlow hhigh => ?_)⟩
    · have hread := hslice 0 p rfl
      have hpos : ofLe (le 8 p) = p :=
        ofLe_le_of_lt (Nat.lt_trans hfirst.1 (by decide))
      rw [List.length_cons, parseChildren]
      refine Runs.bind (Runs.lift hread _) ?_
      rw [hpos]
      refine Runs.bind hrun (Runs.bind (Runs.load hget₁) ?_)
      refine Runs.bind (Runs.lift hwrite _) (Runs.bind (Runs.store hget₁ _) ?_)
      simpa using hrest
    · rw [hsame₂ b (Nat.lt_of_lt_of_le hb hsize) hne, Heap.get_put_ne hne, hsame b hb]
    · rw [hget₂]
      simp
    · have hne : b ≠ a := (Nat.lt_of_lt_of_le ha hlow).ne'
      rw [hagree b hlow (Nat.lt_of_lt_of_le hhigh hsize₂), hsame₂ b hhigh hne, Heap.get_put_ne hne]
    · exact hagree b (Nat.le_trans hsize hlow) hhigh

/-- The position of one child. -/
theorem FieldsAt.child {file : List UInt8} {pos j p : Nat} {n : BtreeNode (Fixed s)}
    {slots : List Nat} (hf : FieldsAt L file pos n slots) (hj : slots[j]? = some p) :
    slice file (pos + L.childrenOffset + j * 8) 8 = .ok (le 8 p) := by
  have hlt := (List.getElem?_eq_some_iff.1 hj).1
  obtain ⟨A, B, rfl, rfl⟩ : ∃ A B, slots = A ++ p :: B ∧ A.length = j :=
    ⟨slots.take j, slots.drop (j + 1), eq_take_cons_drop hj, by simp; omega⟩
  have hslots := hf.slots
  rw [List.map_append, List.map_cons, List.flatten_append, List.flatten_cons] at hslots
  have hinner := slice_inner hslots
  rwa [length_flatten_map (length_le 8), length_le] at hinner

/-- `parse_tree` on a file that holds a tree loads that tree. -/
theorem loads_parseTree (hL : L.Sound) (hP : L.Packed s) {file : List UInt8} {pos lo : Nat}
    {par par' : Option Addr} {t : AddrTree (Fixed s) h} (ht : Rep L H h par t)
    (hfits : Fits L.minKeys L.maxKeys h lo t) (hf : FileRep L H file h pos t) {fuel : Nat}
    (hfuel : h < fuel) : Loads (parseTree L file fuel par' pos) H par' t.label := by
  have hmax := hL.maxKeys_le
  induction h generalizing par par' lo pos fuel with
  | zero =>
    intro H₀
    obtain ⟨slots, n, hget, hsized, _, hb⟩ := hf
    obtain ⟨n', hget', hn⟩ := ht
    obtain rfl : n = n' := Option.some.inj (hget.symm.trans hget')
    obtain ⟨f, rfl⟩ : ∃ f, fuel = f + 1 := ⟨fuel - 1, by omega⟩
    have hkeys : n.keyCount < 65536 := by
      rw [hn.count_eq]
      exact Nat.lt_of_le_of_lt hn.count_le (by omega)
    have hparse := parseNode_eq hP hsized hkeys (hb.fields hP hsized) par'
    have hleaf : btreeNodeIsLeaf n = true := hn.leaf_eq
    obtain ⟨m, hm⟩ : ∃ m : BtreeNode (Fixed s), m = { n with
        parent := par', children := List.replicate L.childCount none } := ⟨_, rfl⟩
    rw [← hm] at hparse
    have hsame : SameNode par' n m := by
      rw [hm]
      exact ⟨rfl, rfl, rfl, rfl, rfl⟩
    have hmleaf : btreeNodeIsLeaf m = true := by
      rw [hm]
      exact hleaf
    refine ⟨H₀.size, H₀.push m, ?_, by simp, fun b hb => Heap.get_push_ne (Nat.ne_of_lt hb) m,
      fun H'' hagree => ?_⟩
    · exact Runs.bind (Runs.lift hparse H₀) (Runs.bind (Runs.alloc H₀ m)
        (Runs.ite_pos hmleaf (Runs.pure _ _)))
    · have hcopy : H''.get H₀.size = some m := by
        rw [hagree H₀.size (Nat.le_refl _) (by simp), Heap.get_push_self]
      exact .leaf hget hcopy hsame hleaf
  | succ h ih =>
    intro H₀
    obtain ⟨ps, junk, ⟨n, hget, hsized, hslots, hb⟩, hps⟩ := hf
    obtain ⟨n', hget', hn⟩ := ht.root
    obtain rfl : n = n' := Option.some.inj (hget.symm.trans hget')
    obtain ⟨f, rfl⟩ : ∃ f, fuel = f + 1 := ⟨fuel - 1, by omega⟩
    have hcount := hfits.children_length
    have hle := hfits.le_max
    have hkids : n.keyCount + 1 = t.children.length := by rw [hn.count_eq, hcount]
    have hkeys : n.keyCount < 65536 := by omega
    have hfields := hb.fields hP hsized
    have hparse := parseNode_eq hP hsized hkeys hfields par'
    have hinner : btreeNodeIsLeaf n = false := hn.leaf_eq
    -- the fresh node, then its children
    obtain ⟨m, hm⟩ : ∃ m : BtreeNode (Fixed s), m = { n with
        parent := par', children := List.replicate L.childCount none } := ⟨_, rfl⟩
    have hmget : (H₀.push m).get H₀.size = some m := Heap.get_push_self H₀ m
    have hloads : List.Forall₂ (fun p c => p < 2 ^ 63 ∧
        Loads (parseTree L file f (some H₀.size) p) H (some H₀.size) c.label) ps t.children := by
      rw [List.forall₂_iff_zip] at hps ⊢
      refine ⟨hps.1, fun {p c} hmem =>
        ⟨hslots p (List.mem_append_left _ (List.of_mem_zip hmem).1), ?_⟩⟩
      have hc := (List.of_mem_zip hmem).2
      exact ih (ht.child hc) (hfits.child hc) (hps.2 hmem) (by omega)
    have hslice : ∀ j p, ps[j]? = some p → slice file
        (pos + L.childrenOffset + (([] : List (Option Addr)).length + j) * 8) 8
          = .ok (le 8 p) := by
      intro j p hj
      rw [List.length_nil, Nat.zero_add]
      refine hfields.child ?_
      rw [List.getElem?_append_left (List.getElem?_eq_some_iff.1 hj).1, hj]
    have hroom : t.children.length ≤ (List.replicate L.childCount (none : Option Addr)).length := by
      rw [List.length_replicate, hL.childCount_eq]
      omega
    obtain ⟨cs', H₁, hrun, hsize, hsame, hget₁, hcopies⟩ := runs_parseChildren hloads []
      (List.replicate L.childCount none) m (H₀.push m) hmget (by rw [hm]; rfl) hroom hslice
    rw [Heap.size_push] at hsize hsame hcopies
    refine ⟨H₀.size, H₁, ?_, by omega, fun b hb => ?_, fun H'' hagree => ?_⟩
    · refine Runs.bind (Runs.lift hparse H₀) ?_
      rw [← hm]
      have hminner : btreeNodeIsLeaf m = false := by
        rw [hm]
        exact hinner
      refine Runs.bind (Runs.alloc H₀ m) (Runs.ite_neg (by simp [hminner]) ?_)
      have hmkids : m.keyCount + 1 = t.children.length := by rw [hm, ← hkids]
      rw [hmkids]
      exact Runs.bind hrun (Runs.pure _ _)
    · rw [hsame b (by omega) (Nat.ne_of_lt hb), Heap.get_push_ne (Nat.ne_of_lt hb)]
    · have hcopies := hcopies H'' fun b hlow hhigh => hagree b (by omega) hhigh
      have hlen := hcopies.length_eq
      have hget₂ : H''.get H₀.size = H₁.get H₀.size :=
        hagree H₀.size (Nat.le_refl _) (by omega)
      rw [hget₁] at hget₂
      obtain ⟨junk', hchildren⟩ := hn.children_eq
      have hold : ∀ i ≤ n.keyCount, ∃ c, t.children[i]? = some c := fun i hi =>
        ⟨_, List.getElem?_eq_getElem (by omega)⟩
      have hnew : ∀ i ≤ n.keyCount, ∃ c', cs'[i]? = some c' := fun i hi =>
        ⟨_, List.getElem?_eq_getElem (by omega)⟩
      refine .inner (fun i => (t.children.map Node.label).getD i 0) (fun i => cs'.getD i 0)
        hget hget₂ ?_ hinner ?_ ?_ ?_
      · rw [hm]
        exact ⟨rfl, rfl, rfl, rfl, rfl⟩
      · intro i hi
        obtain ⟨c, hc⟩ := hold i hi
        have hlt : i < ((childAddrs (h + 1) t).map some).length := by
          simp [childAddrs]
          omega
        rw [hchildren, List.getElem?_append_left hlt]
        simp [childAddrs, hc]
      · intro i hi
        obtain ⟨c', hc'⟩ := hnew i hi
        have hlt : i < (cs'.map some).length := by
          rw [List.length_map]
          omega
        rw [List.nil_append, List.getElem?_append_left hlt]
        simp [hc']
      · intro i hi
        obtain ⟨c, hc⟩ := hold i hi
        obtain ⟨c', hc'⟩ := hnew i hi
        have hpair := hcopies.get (i := i) (by omega) (by omega)
        rw [List.get_eq_getElem, List.get_eq_getElem,
          (List.getElem?_eq_some_iff.1 hc).2, (List.getElem?_eq_some_iff.1 hc').2] at hpair
        simpa [hc, hc'] using hpair

/-! ## Every file that a run saves -/

section Saved

variable {nodeSize : Nat} {compare : Fixed s → Fixed s → Int} {tree : Btree (Fixed s)}

/-- `btree_load` succeeds: it hands out a tree that it has not released, and that tree
is a copy of the saved one. -/
def LoadsBack (tree : Btree (Fixed s)) (H : Heap (BtreeNode (Fixed s))) (nodeSize : Nat)
    (file : List UInt8) (H₀ : Heap (BtreeNode (Fixed s))) : Prop :=
  ∃ loaded H₁, Runs (btreeLoad nodeSize tree.compare file) H₀
      { data := some loaded, released := false } H₁ ∧
    loaded.layout = tree.layout ∧ loaded.compare = tree.compare ∧
    Option.Rel (SameTree H H₁ none) tree.root loaded.root

/-- A saved tree is loaded back, into whatever heap, if and only if it has nodes. -/
theorem btreeLoad_loadsBack_iff (hlow : 11 ≤ nodeSize) (hhigh : nodeSize < 65536)
    (hmax : 3 ≤ (btreeLayoutCreate nodeSize s).maxKeys) (hc : TotalCmp compare)
    (hi : Inserted nodeSize compare tree H) (H₀ : Heap (BtreeNode (Fixed s))) :
    ∃ file, Runs (btreeSave tree) H file H ∧
      (LoadsBack tree H nodeSize file H₀ ↔ tree.root ≠ none) := by
  have hL := sound_btreeLayoutCreate hmax
  have hP : (btreeLayoutCreate nodeSize s).Packed s := packed_btreeLayoutCreate hlow hhigh
  obtain ⟨hlayout, rfl, hfit, entries, hH⟩ := hi.holds hmax hc
  unfold Holds at hH
  split at hH
  · next hroot =>
    refine ⟨[], runs_btreeSave_empty hroot H, fun ⟨loaded, H₁, hrun, _⟩ => ?_,
      fun h => absurd hroot h⟩
    have hempty : Runs (btreeLoad nodeSize tree.compare ([] : List UInt8)) H₀
        { data := some (btreeCreate nodeSize s tree.compare), released := true } H₀ := rfl
    have heq := congrArg LoadResult.released (hrun.unique hempty).1
    cases heq
  · next root hroot =>
    obtain ⟨h, t, rfl, ht, rfl⟩ := hH
    rw [← hlayout] at hL hP
    have hnode : tree.layout.nodeSize = nodeSize := by rw [hlayout]; rfl
    obtain ⟨file, hsave, hlen, hfile⟩ := runs_btreeSave hL hP ht hroot (hnode ▸ hfit)
    refine ⟨file, hsave, fun _ hnone => ?_, fun _ => ?_⟩
    · rw [hroot] at hnone
      cases hnone
    · obtain ⟨a', H₁, hrun, _, _, hcopy⟩ := loads_parseTree hL hP ht.rep ht.fits
        hfile hlen H₀
      rw [hlayout] at hrun
      refine ⟨{ btreeCreate nodeSize s tree.compare with root := some a' }, H₁, ?_, hlayout.symm,
        rfl, ?_⟩
      · refine Runs.ite_neg (by omega) ?_
        exact Runs.bind hrun (Runs.pure _ _)
      · rw [hroot]
        exact .some (hcopy H₁ fun _ _ _ => rfl)

end Saved

/-- A tree that has split is loaded back. -/
theorem btreeLoad_loadsBack_iff_fourKeys : ∃ tree H file,
    Runs (insertKeys 4) Heap.empty tree H ∧ tree.root.bind (heightAt H H.size) = some 1 ∧
      Runs (btreeSave tree) H file H ∧ LoadsBack tree H 4096 file Heap.empty := by
  obtain ⟨tree, H, hkeys, -⟩ := insertKeys_reached (Nat.le_refl 4)
  obtain ⟨hheight, -⟩ := insertKeys_height hkeys
  obtain ⟨file, hsave, hiff⟩ := btreeLoad_loadsBack_iff (by decide) (by decide)
    (three_le_maxKeys (Nat.le_refl _)) (totalCmp_memcmp 1020)
    (insertKeys_inserted (Nat.le_refl 4) hkeys) Heap.empty
  refine ⟨tree, H, file, hkeys, hheight, hsave, hiff.2 fun hnone => ?_⟩
  rw [hnone] at hheight
  cases hheight

/-- `btree_load` of the file of a tree without nodes hands out a tree that its cleanup
has released. -/
theorem btreeLoad_released :
    Runs (btreeSave longKeyTree) Heap.empty [] Heap.empty ∧
      Runs (btreeLoad 4096 longKeyTree.compare ([] : List UInt8)) Heap.empty
        { data := some longKeyTree, released := true } Heap.empty := ⟨rfl, rfl⟩

end Maxql.Index
