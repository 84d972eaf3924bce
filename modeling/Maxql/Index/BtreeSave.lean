import Maxql.Index.BtreeFileRep
import Maxql.Index.BtreeMap

/-!
# Saving a B-tree

`btree_save` writes a file that holds the tree.  A node takes the next free
position first, then its children are written behind it, and its own block
goes into the gap last.
-/

namespace Maxql.Index

open Program Bytes Multiway SortedEntries

variable {s h : Nat} {L : BtreeLayout} {H : Heap (BtreeNode (Fixed s))}

/-- A run of `btree_to_bin` on the node `a`: it writes `body` to position `pos`. -/
def Writes (visit : Option Addr → List UInt8 → Nat → NodeProg (Fixed s) (Nat × List UInt8 × Nat))
    (H : Heap (BtreeNode (Fixed s))) (a : Addr) (file : List UInt8) (pos : Nat)
    (body : List UInt8) : Prop :=
  Runs (visit (some a) file pos) H (pos, padTo file pos ++ body, pos + body.length) H

/-- The children that are left are written one behind the other. -/
theorem runs_writeChildren {visit : Option Addr → List UInt8 → Nat →
      NodeProg (Fixed s) (Nat × List UInt8 × Nat)} {children : List (Option Addr)}
    (cs : List (AddrTree (Fixed s) h)) :
    ∀ (done rest : List Nat) (file : List UInt8),
      (∀ j c, cs[j]? = some c → readAt children (done.length + j) = .ok (some c.label)) →
      (∀ c ∈ cs, ∀ file pos, file.length ≤ pos →
        ∃ body, Writes visit H c.label file pos body ∧ WrittenAt L H h pos c body) →
      cs.length ≤ rest.length →
      ∃ ps body, WrittenAll L H h file.length ps cs body ∧
        Runs (writeChildren visit children cs.length done.length (done ++ rest) file file.length)
          H (done ++ (ps ++ rest.drop cs.length), file ++ body, file.length + body.length) H := by
  induction cs with
  | nil =>
    intro done rest file _ _ _
    exact ⟨[], [], .nil, by simpa [writeChildren] using Runs.pure _ H⟩
  | cons c cs ih =>
    intro done rest file hread hvisit hroom
    obtain ⟨x, rest, rfl⟩ := List.exists_cons_of_length_pos (l := rest)
      (by rw [List.length_cons] at hroom; omega)
    obtain ⟨body, hrun, hbody⟩ := hvisit c (by simp) file file.length (Nat.le_refl _)
    rw [Writes, padTo_of_length rfl] at hrun
    obtain ⟨ps, bodies, hall, hrest⟩ := ih (done ++ [file.length]) rest (file ++ body)
      (fun j c' hj => by
        have := hread (j + 1) c' (by simpa using hj)
        simpa [Nat.add_assoc, Nat.add_comm 1] using this)
      (fun c' hc' => hvisit c' (List.mem_cons_of_mem _ hc')) (by simpa using hroom)
    rw [List.length_append] at hall
    refine ⟨_, _, .cons hbody hall, ?_⟩
    have hwrite := writeAt_append_cons done rest x file.length
    rw [List.length_cons, writeChildren]
    refine Runs.bind (Runs.lift (hread 0 c rfl) H) (Runs.bind hrun ?_)
    refine Runs.bind (Runs.lift hwrite H) ?_
    simpa [Nat.add_assoc] using hrest

variable {par : Option Addr} {t : AddrTree (Fixed s) h} {n : BtreeNode (Fixed s)}

theorem NodeRep.sized {leaf : Bool} {es : List (Entry (Fixed s))} {cs : List Addr}
    (hn : NodeRep L n leaf par es cs) {slots : List Nat} (hslots : slots.length = L.childCount) :
    Sized L n slots := ⟨hn.keys_len, hn.offsets_len, hslots⟩

theorem BtreeLayout.Packed.nodeSize_pos (hP : L.Packed s) : 0 < L.nodeSize := by
  have := hP.inside
  omega

/-- `btree_to_bin` writes the tree to the next free position. -/
theorem btreeToBin_spec (hL : L.Sound) (hP : L.Packed s) {lo : Nat}
    (ht : Rep L H h par t) (hfits : Fits L.minKeys L.maxKeys h lo t) {fuel : Nat}
    (hfuel : h < fuel) {file : List UInt8} {pos : Nat} (hpos : file.length ≤ pos) :
    ∃ body, Writes (btreeToBin L fuel) H t.label file pos body ∧ WrittenAt L H h pos t body := by
  induction h generalizing par lo fuel file pos with
  | zero =>
    obtain ⟨n, hget, hn⟩ := ht
    obtain ⟨f, rfl⟩ : ∃ f, fuel = f + 1 := ⟨fuel - 1, by omega⟩
    have hsized : Sized L n (List.replicate L.childCount 0) := hn.sized (by simp)
    have hlen := length_nodeImage hP hsized
    refine ⟨nodeImage L n (List.replicate L.childCount 0), ?_, ?_, ?_⟩
    · refine Runs.bind (Runs.load hget) (Runs.bind (Runs.ite_pos hn.leaf_eq (Runs.pure _ H)) ?_)
      refine Runs.bind (Runs.lift (nodeToBin_eq hP hsized) H) ?_
      rw [fwriteAt_end hpos, hlen]
      exact Runs.pure _ H
    · rw [hlen]
      simp [labels]
    · intro pre post hpre _
      refine ⟨_, n, hget, hsized, ?_, pre, post, rfl, hpre⟩
      intro p hp
      rw [List.eq_of_mem_replicate hp]
      omega
  | succ h ih =>
    obtain ⟨n, hget, hn⟩ := ht.root
    obtain ⟨f, rfl⟩ : ∃ f, fuel = f + 1 := ⟨fuel - 1, by omega⟩
    have hcount := hfits.children_length
    have hmax := hfits.le_max
    obtain ⟨c, cs, hcs⟩ := List.exists_cons_of_length_pos (l := t.children) (by omega)
    have hvisit : ∀ c ∈ t.children, ∀ file pos, file.length ≤ pos →
        ∃ body, Writes (btreeToBin L f) H c.label file pos body ∧ WrittenAt L H h pos c body :=
      fun c hc file pos hpos => ih (ht.child hc) (hfits.child hc) (by omega) hpos
    have hread : ∀ j d, t.children[j]? = some d → readAt n.children j = .ok (some d.label) :=
      fun j d hj => hn.read_child (by simp [childAddrs, hj])
    rw [hcs] at hcount hvisit hread
    -- the first child goes behind the gap that the node leaves
    have hgap : file.length ≤ pos + L.nodeSize := by omega
    obtain ⟨body, hfirst, hbody⟩ := hvisit c (by simp) file (pos + L.nodeSize) hgap
    have hend : (padTo file (pos + L.nodeSize) ++ body).length
        = pos + L.nodeSize + body.length := by
      rw [List.length_append, length_padTo hgap]
    obtain ⟨ps, bodies, hall, hrest⟩ := runs_writeChildren cs [pos + L.nodeSize]
      (List.replicate L.maxKeys 0) (padTo file (pos + L.nodeSize) ++ body)
      (fun j d hj => by
        rw [List.length_singleton, Nat.add_comm]
        exact hread (j + 1) d hj)
      (fun d hd => hvisit d (List.mem_cons_of_mem _ hd))
      (by rw [List.length_replicate]; rw [List.length_cons] at hcount; omega)
    rw [hend] at hall hrest
    have hall := WrittenAll.cons hbody hall
    generalize hjunk : (List.replicate L.maxKeys 0).drop cs.length = junk at hrest
    have hps : ((pos + L.nodeSize) :: ps).length = cs.length + 1 := hall.length_ps
    rw [List.length_cons] at hcount
    have hsized : Sized L n ((pos + L.nodeSize) :: ps ++ junk) := by
      refine hn.sized ?_
      rw [List.length_append, hps, ← hjunk, List.length_drop, List.length_replicate,
        hL.childCount_eq]
      omega
    have hlen := length_nodeImage hP hsized
    have hbodies := hall.length_body
    rw [← hcs] at hbodies
    refine ⟨nodeImage L n ((pos + L.nodeSize) :: ps ++ junk) ++ (body ++ bodies), ?_, ?_, ?_⟩
    · have hchildren : Runs (writeChildren (btreeToBin L f) n.children (n.keyCount + 1) 0
          (List.replicate L.childCount 0) file (pos + L.nodeSize)) H
          ((pos + L.nodeSize) :: ps ++ junk, padTo file (pos + L.nodeSize) ++ body ++ bodies,
            pos + L.nodeSize + body.length + bodies.length) H := by
        have hwrite : writeAt (List.replicate L.childCount 0) 0 (pos + L.nodeSize)
            = .ok ((pos + L.nodeSize) :: List.replicate L.maxKeys 0) := by
          rw [hL.childCount_eq, List.replicate_succ]
          exact writeAt_append_cons [] _ 0 _
        have hkids : n.keyCount = cs.length := by
          rw [hn.count_eq]
          omega
        rw [hkids, writeChildren]
        refine Runs.bind (Runs.lift (hread 0 c rfl) H) (Runs.bind hfirst ?_)
        exact Runs.bind (Runs.lift hwrite H) hrest
      refine Runs.bind (Runs.load hget) ?_
      refine Runs.bind (Runs.ite_neg (by simp [hn.leaf_eq]) hchildren) ?_
      refine Runs.bind (Runs.lift (nodeToBin_eq hP hsized) H) ?_
      have hwrite := @fwriteAt_gap file (nodeImage L n ((pos + L.nodeSize) :: ps ++ junk))
        (body ++ bodies) pos hpos
      rw [hlen] at hwrite
      rw [List.append_assoc, hwrite, List.append_assoc]
      rw [List.length_append, List.length_append, hlen, ← Nat.add_assoc, ← Nat.add_assoc]
      exact Runs.pure _ H
    · rw [List.length_append, hlen, hbodies, labels, List.length_cons, Nat.succ_mul,
        Nat.add_comm]
    · intro pre post hpre hle
      rw [List.length_append, hlen, ← Nat.add_assoc] at hle
      refine ⟨_, junk, ⟨n, hget, hsized, ?_, pre, body ++ bodies ++ post, ?_, hpre⟩, ?_⟩
      · intro p hp
        rcases List.mem_append.1 hp with hp | hp
        · exact Nat.lt_of_lt_of_le (hall.lt_of_mem hP.nodeSize_pos p hp) hle
        · have hzero : p ∈ List.replicate L.maxKeys 0 := by
            rw [← hjunk] at hp
            exact List.mem_of_mem_drop hp
          rw [List.eq_of_mem_replicate hzero]
          omega
      · rw [List.append_assoc]
      · rw [hcs, List.append_assoc, ← List.append_assoc pre]
        exact hall.fileRep _ post (by rw [List.length_append, hlen, hpre]) hle

/-- `btree_save` of a tree without nodes leaves an empty file. -/
theorem runs_btreeSave_empty {tree : Btree (Fixed s)} (hroot : tree.root = none)
    (H : Heap (BtreeNode (Fixed s))) : Runs (btreeSave tree) H [] H := by
  unfold btreeSave
  rw [hroot]
  exact Runs.bind (Runs.get H) (Runs.bind (Runs.pure _ H) (Runs.pure _ H))

/-- `btree_save` of any other tree leaves a file that holds the tree. -/
theorem runs_btreeSave {tree : Btree (Fixed s)} (hL : tree.layout.Sound)
    (hP : tree.layout.Packed s) {lo : Nat} (ht : Subtree tree H h par lo t)
    (hroot : tree.root = some t.label) (hfit : H.size * tree.layout.nodeSize ≤ 2 ^ 63) :
    ∃ file, Runs (btreeSave tree) H file H ∧ h < file.length ∧
      FileRep tree.layout H file h 0 t := by
  have hsize : (labels h t).length ≤ H.size := by
    have hsub : labels h t ⊆ List.range H.size :=
      fun a ha => List.mem_range.2 (ht.rep.lt_size a ha)
    have hcard := (List.subperm_of_subset ht.nodup hsub).length_le
    rwa [List.length_range] at hcard
  have hheight := height_lt_labels_length ht.fits
  have hfuel : h < H.size + 1 := by omega
  have hstart : ([] : List UInt8).length ≤ 0 := Nat.le_refl 0
  obtain ⟨body, hrun, hlen, hfile⟩ := btreeToBin_spec hL hP ht.rep ht.fits hfuel hstart
  have hle : (labels h t).length * tree.layout.nodeSize ≤ H.size * tree.layout.nodeSize :=
    Nat.mul_le_mul_right _ hsize
  have hfile := hfile [] [] rfl (by omega)
  have hpos : (labels h t).length * 1 ≤ (labels h t).length * tree.layout.nodeSize :=
    Nat.mul_le_mul_left _ hP.nodeSize_pos
  have hempty : padTo [] 0 = [] := rfl
  rw [Writes, hempty, List.nil_append, Nat.zero_add] at hrun
  refine ⟨body, ?_, by omega, by simpa using hfile⟩
  unfold btreeSave
  rw [hroot]
  exact Runs.bind (Runs.get H) (Runs.bind hrun (Runs.pure _ H))

/-! ## Runs of insertions -/

/-- The states that insertions of absent keys reach from `btree_create`.  The nodes are
in memory, so all of them together have less than `2 ^ 63` bytes. -/
inductive Inserted {s : Nat} (nodeSize : Nat) (compare : Fixed s → Fixed s → Int) :
    Btree (Fixed s) → Heap (BtreeNode (Fixed s)) → Prop where
  | create : Inserted nodeSize compare (btreeCreate nodeSize s compare) Heap.empty
  | insert {tree tree' : Btree (Fixed s)} {H H' : Heap (BtreeNode (Fixed s))} {k : Fixed s}
      {v : FileOffset} (hi : Inserted nodeSize compare tree H)
      (habsent : Runs (btreeSearch tree k) H none H)
      (hrun : Runs (btreeInsert tree k v) H tree' H')
      (hfit : H'.size * nodeSize ≤ 2 ^ 63) : Inserted nodeSize compare tree' H'

theorem Inserted.holds {nodeSize : Nat} {compare : Fixed s → Fixed s → Int}
    {tree : Btree (Fixed s)} (hmax : 3 ≤ (btreeLayoutCreate nodeSize s).maxKeys)
    (hc : TotalCmp compare) (hi : Inserted nodeSize compare tree H) :
    tree.layout = btreeLayoutCreate nodeSize s ∧ tree.compare = compare ∧
      H.size * nodeSize ≤ 2 ^ 63 ∧ ∃ entries, Holds tree H entries := by
  have hL := sound_btreeLayoutCreate hmax
  induction hi with
  | create => exact ⟨rfl, rfl, by simp [Heap.size, Heap.empty], [], rfl⟩
  | @insert tree tree' H H' k v _ habsent hrun hfit ih =>
    obtain ⟨hlayout, rfl, _, entries, hH⟩ := ih
    have hsearch := runs_btreeSearch (hlayout ▸ hL) hc hH k
    have hnone : lookup tree.compare entries k = none := (hsearch.unique habsent).1
    have hk : k ∉ entries.map Prod.fst := fun hmem => (mem_keys_iff hc).1 hmem hnone
    obtain ⟨hlayout', hcompare', hH'⟩ := hH.inserted (hlayout ▸ hL) hc hk hrun
    exact ⟨hlayout'.trans hlayout, hcompare', hfit, _, hH'⟩

theorem size_insertKeys : ∀ n ≤ 4,
    ((insertKeys n).run Heap.empty).toOption.all (fun r => decide (r.2.size ≤ 3)) := by
  decide +kernel

theorem insertKeys_inserted {n : Nat} (hn : n ≤ 4) {tree : Btree (Fixed 1020)}
    {H : Heap (BtreeNode (Fixed 1020))} (h : Runs (insertKeys n) Heap.empty tree H) :
    Inserted 4096 (fun a b => memcmp a.1 b.1) tree H := by
  induction n generalizing tree H with
  | zero =>
    cases h
    exact .create
  | succ n ih =>
    have hsize := size_insertKeys (n + 1) hn
    rw [show (insertKeys (n + 1)).run Heap.empty = .ok (tree, H) from h] at hsize
    have hsize : H.size ≤ 3 := of_decide_eq_true hsize
    obtain ⟨tree₀, H₀, hkeys, hrun⟩ := h.exists_of_bind
    have hsearch := insertKeys_search (Nat.le_of_succ_le hn) hkeys (longKey (n + 1).toUInt8)
    rw [keysMap_next hn] at hsearch
    exact .insert (ih (Nat.le_of_succ_le hn) hkeys) hsearch hrun (by omega)

end Maxql.Index
