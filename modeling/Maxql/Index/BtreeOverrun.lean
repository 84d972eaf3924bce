import Maxql.Index.BtreeBounds
import Maxql.Index.BtreeEnsure
import Maxql.Index.BtreeInvariant

/-!
# Where deletion leaves the arrays

`deleteEnd` follows the descent of `delete_recursive` on the tree before the
call and says how it ends: in a leaf, with every access inside the arrays; in a
move past the end of an array, where a full right neighbour gives up an entry
or where the children of two inner nodes, copied one slot too far, need a slot
more than there is; or in a merge of two inner nodes that has that slot and
leaves a stray one between the children.  The last can only happen where
`max_keys` is even.

One level of the descent is an equation between runs (`Descended`): the
deletion below a node with room to shift is the deletion of some key that is
there below the shifted child.  The induction on the height follows from it.
-/

namespace Maxql.Index

open Program SortedEntries Multiway Bytes

/-! ## How the descent ends -/

/-- The ends of a descent. -/
inductive DescentEnd where
  /-- In a leaf, without leaving an array. -/
  | leaf
  /-- In a move past the end of an array. -/
  | overrun
  /-- In a merge of two inner nodes with a stray slot between their children. -/
  | stray
  deriving DecidableEq, Repr

section Ends

variable {ι K V : Type}

/-- The key to delete below the child `d` at the key `k`: the last one of `d`, where `k` is
an entry of the node. -/
def nextKey {h : Nat} (cmp : K → K → Int) (k : K) (es₂ : List (K × V))
    (d : Tree ι (K × V) h) : K :=
  if startsWith cmp k es₂ then (d.entries.getLast?.map Prod.fst).getD k else k

/-- One level of `deleteEnd`: the entries and children left of the position, the child there,
and those right of it. -/
def endAt (cmp : K → K → Int) (min max : Nat) (k : K) (h : Nat)
    (below : K → Tree ι (K × V) h → DescentEnd) (es₁ es₂ : List (K × V))
    (cs₁ : List (Tree ι (K × V) h)) (c : Tree ι (K × V) h)
    (cs₂ : List (Tree ι (K × V) h)) : DescentEnd :=
  if RoomToShift min max h cs₁ c cs₂ then
    let d := shifted min es₁ es₂ cs₁ c cs₂
    below (nextKey cmp k es₂ d) d
  else if spare min cs₂.head? ∨ max < 2 * min + 2 then .overrun
  else .stray

/-- How the deletion of `k`, which the tree holds, ends. -/
def deleteEnd (cmp : K → K → Int) (min max : Nat) :
    (h : Nat) → K → Tree ι (K × V) h → DescentEnd
  | 0, _, _ => .leaf
  | h + 1, k, t =>
    let i := position cmp k t.entries
    match t.children.drop i with
    | [] => .stray
    | c :: cs₂ =>
      endAt cmp min max k h (deleteEnd cmp min max h) (t.entries.take i)
        (t.entries.drop i) (t.children.take i) c cs₂

/-- `deleteEnd` at the child that the key belongs to. -/
theorem deleteEnd_focus {cmp : K → K → Int} {min max : Nat} {k : K} {h : Nat} {a : ι}
    {es₁ es₂ : List (K × V)} {cs₁ cs₂ : List (Tree ι (K × V) h)} {c : Tree ι (K × V) h}
    (hcs₁ : cs₁.length = es₁.length) (h₁ : Below cmp es₁ k)
    (h₂ : ∀ e ∈ es₂.head?, ¬cmp e.1 k < 0) :
    deleteEnd cmp min max (h + 1) k ⟨a, es₁ ++ es₂, cs₁ ++ c :: cs₂⟩
      = endAt cmp min max k h (deleteEnd cmp min max h) es₁ es₂ cs₁ c cs₂ := by
  have hpos := position_eq h₁ h₂
  simp only [deleteEnd, hpos]
  rw [List.drop_left' hcs₁]
  simp [hcs₁.symm]

end Ends

/-- How the deletion of `key` ends in this state. -/
def deleteEnds {K : Type} (tree : Btree K) (H : Heap (BtreeNode K)) (key : K) : DescentEnd :=
  match tree.root with
  | none => .leaf
  | some root =>
    match heightAt H H.size root with
    | none => .stray
    | some h =>
      match treeAt H h root with
      | none => .stray
      | some t =>
        if (lookup tree.compare (toList h t) key).isSome then
          deleteEnd tree.compare tree.layout.minKeys tree.layout.maxKeys h key t
        else .leaf

section Descent

variable {K : Type} {tree : Btree K} (hL : tree.layout.Sound) (hc : TotalCmp tree.compare)
  {H : Heap (BtreeNode K)} {h : Nat} {par : Option Addr} {lo : Nat} {a : Addr} {k : K}
  {es₁ es₂ : List (Entry K)} {s : Entry K}

/-! ## Without room to shift -/

include hL

/-- Two inner nodes whose entries and separator use up a node have children for one slot more
than `btree_merge` has room for. -/
theorem Subtree.overruns_merge {cs₁ cs₂ : List (AddrTree K (h + 1))} {l r : AddrTree K (h + 1)}
    (ht : Subtree tree H (h + 2) par lo ⟨a, es₁ ++ s :: es₂, cs₁ ++ [l, r] ++ cs₂⟩)
    (hcs₁ : cs₁.length = es₁.length)
    (hroom : l.entries.length + 1 + r.entries.length = tree.layout.maxKeys) :
    Overruns (btreeMerge a es₁.length) H := by
  have hchild := hL.childCount_eq
  have hlmem : l ∈ cs₁ ++ [l, r] ++ cs₂ := by simp
  have hrmem : r ∈ cs₁ ++ [l, r] ++ cs₂ := by simp
  obtain ⟨p, hp, hpn⟩ := ht.rep.root
  obtain ⟨ln, hl, hln⟩ := (ht.rep.child hlmem).root
  obtain ⟨rn, hr, hrn⟩ := (ht.rep.child hrmem).root
  have hpn' : NodeRep tree.layout p false par (es₁ ++ s :: es₂)
      (cs₁.map Node.label ++ l.label :: r.label :: cs₂.map Node.label) := by
    simpa [childAddrs] using hpn
  obtain ⟨_, hnodup, _⟩ := ht.window
  have hne : r.label ≠ l.label := by
    have hlabels : [l, r].flatMap (labels (h + 1)) = labels (h + 1) l ++ labels (h + 1) r := by
      simp
    rw [hlabels] at hnodup
    exact fun heq => (List.nodup_append.1 hnodup).2.2 l.label (label_mem_labels _ l) r.label
      (label_mem_labels _ r) heq.symm
  obtain ⟨ks, os, _, _, hrun⟩ := run_btreeMerge_entries hL hp hl hr hpn'
    (by simpa using hcs₁) hln hrn (Nat.le_of_eq hroom)
  have hover : Overruns (mergeChildren l.label r.label) (H.put l.label
      (some { ln with keys := ks, offsets := os, keyCount := l.entries.length + 1 })) := by
    refine overruns_mergeChildren (Heap.get_put_self (Heap.lt_size_of_get hl) _)
      ((Heap.get_put_ne hne _).trans hr) hln.leaf_eq ?_
    show ln.children.length < l.entries.length + 1 + 1 + _
    rw [hln.children_len, hrn.count_eq]
    omega
  exact hrun.trans hover.bind

/-- Without room to shift, `ensure_min_keys` leaves the arrays at a full right neighbour, and
at two inner nodes that together fill a node. -/
theorem Subtree.overruns_ensure {cs₁ cs₂ : List (AddrTree K h)} {c : AddrTree K h}
    (ht : Subtree tree H (h + 1) par lo ⟨a, es₁ ++ es₂, cs₁ ++ c :: cs₂⟩)
    (hpos : 0 < (es₁ ++ es₂).length) (hcs₁ : cs₁.length = es₁.length)
    (hcs₂ : cs₂.length = es₂.length)
    (hroom : ¬RoomToShift tree.layout.minKeys tree.layout.maxKeys h cs₁ c cs₂)
    (hover : spare tree.layout.minKeys cs₂.head? = true ∨
      tree.layout.maxKeys < 2 * tree.layout.minKeys + 2) :
    Overruns (ensureMinKeys tree a cs₁.length) H := by
  have hthree := hL.three_le
  have hmin := hL.minKeys_eq
  rcases ht.overruns_or_merges hL hcs₁ hcs₂ hroom with ⟨_, hens⟩ | ⟨hnot, hleft, hright, hheight⟩
  · exact hens
  have hfull : tree.layout.maxKeys < 2 * tree.layout.minKeys + 2 :=
    hover.resolve_left (by simp [hright])
  obtain ⟨as₁, s, as₂, ds₁, l, r, ds₂, hes, hcs, hds₁, _, hl, hr, hmerge⟩ :=
    ht.run_ensure_two rfl hpos hcs₁ hcs₂ hnot hleft hright
  cases h with
  | zero => exact absurd rfl hheight
  | succ h =>
    rw [hes, hcs] at ht
    exact hmerge.trans (ht.overruns_merge hL hds₁ (by omega))

end Descent

/-! ## One level -/

/-- The deletion in `t` goes on below it: in the child `d` of a changed heap, with a key that
is there. -/
structure Descended {K : Type} (tree : Btree K) (H H' : Heap (BtreeNode K)) (h : Nat)
    (t : AddrTree K (h + 1)) (d : AddrTree K h) (k : K) : Prop where
  subtree : Subtree tree H' h (some t.label) (tree.layout.minKeys + 1) d
  mem : k ∈ (toList h d).map Prod.fst
  root : ∃ n, H'.get t.label = some n ∧ n.children.length = tree.layout.childCount
  apart : t.label ∉ labels h d
  sub : ∀ q ∈ labels h d, q ∈ labels (h + 1) t
  same : ∀ q, q ∉ labels (h + 1) t → H'.get q = H.get q

section Levels

variable {K : Type} {tree : Btree K} (hL : tree.layout.Sound) (hc : TotalCmp tree.compare)
  {H H' : Heap (BtreeNode K)} {h : Nat} {par : Option Addr} {lo : Nat} {a : Addr} {k : K}
  {es₁ es₂ : List (Entry K)} {cs₁ cs₂ : List (AddrTree K h)} {c : AddrTree K h}

/-- The shifted child, in the heap after the rebalancing. -/
theorem Prepared.descended {t : AddrTree K (h + 1)} {as₁ as₂ : List (Entry K)}
    {ds₁ ds₂ : List (AddrTree K h)} {d : AddrTree K h} {k' : K}
    (hprep : Prepared tree H H' h par lo t as₁ as₂ ds₁ d ds₂ k)
    (hmem : k' ∈ (toList h d).map Prod.fst) : Descended tree H H' h t d k' := by
  have ht := hprep.subtree
  have hsub : ∀ q ∈ labels h d, q ∈ (ds₁ ++ d :: ds₂).flatMap (labels h) := fun q hq =>
    List.mem_flatMap.2 ⟨d, by simp, hq⟩
  have hasc : Ascending tree.compare (toList h d) := by
    have hall := ht.asc
    rw [toList_focus t.label d hprep.left_len.symm] at hall
    exact (ascending_append.1 (ascending_append.1 hall).1).2.1
  obtain ⟨n, hget, hn⟩ := ht.rep.root
  refine ⟨(ht.child hasc).of_le hprep.spare, hmem, ⟨n, hget, hn.children_len⟩, fun hlabel => ?_,
    fun q hq => ?_, hprep.shrunk.same⟩
  · exact (List.nodup_cons.1 ht.nodup).1 (hsub t.label hlabel)
  · exact hprep.shrunk.sub q (List.mem_cons_of_mem _ (hsub q hq))

/-- Another node in the cell of the root. -/
theorem Descended.put {t : AddrTree K (h + 1)} {d : AddrTree K h} {n : BtreeNode K}
    (hd : Descended tree H H' h t d k) (hn : n.children.length = tree.layout.childCount) :
    Descended tree H (H'.put t.label (some n)) h t d k := by
  obtain ⟨n', hget, _⟩ := hd.root
  have hput : ∀ q, q ≠ t.label → (H'.put t.label (some n)).get q = H'.get q := fun q hq =>
    Heap.get_put_ne hq _
  have ht := hd.subtree
  refine ⟨⟨ht.rep.frame fun q hq => hput q fun heq => hd.apart (heq ▸ hq), ht.nodup, ht.fits,
    ht.asc⟩, hd.mem, ⟨n, Heap.get_put_self (Heap.lt_size_of_get hget) _, hn⟩, hd.apart, hd.sub,
    fun q hq => ?_⟩
  rw [hput q fun heq => hq (heq ▸ label_mem_labels (h + 1) t), hd.same q hq]

include hL hc

/-- The key is not in the node: the deletion goes on with it. -/
theorem descend_miss (ht : Subtree tree H (h + 1) par lo ⟨a, es₁ ++ es₂, cs₁ ++ c :: cs₂⟩)
    (hpos : 0 < (es₁ ++ es₂).length) (hcs₁ : cs₁.length = es₁.length)
    (hcs₂ : cs₂.length = es₂.length) (hk₁ : Below tree.compare es₁ k)
    (hk₂ : Above tree.compare es₂ k)
    (hk : k ∈ (toList (h + 1) ⟨a, es₁ ++ es₂, cs₁ ++ c :: cs₂⟩).map Prod.fst)
    (hroom : RoomToShift tree.layout.minKeys tree.layout.maxKeys h cs₁ c cs₂) (steps : Nat) :
    ∃ H', (deleteRecursive tree (steps + 1) a k).run H
        = (deleteRecursive tree steps
            (shifted tree.layout.minKeys es₁ es₂ cs₁ c cs₂).label k).run H' ∧
      Descended tree H H' h ⟨a, es₁ ++ es₂, cs₁ ++ c :: cs₂⟩
        (shifted tree.layout.minKeys es₁ es₂ cs₁ c cs₂) k := by
  obtain ⟨n, hget, hn⟩ := ht.rep.root
  obtain ⟨H', as₁, as₂, ds₁, ds₂, hens, hprep, _, _, hright⟩ := exists_prepared hL hc ht hpos hcs₁
    hcs₂ hk₁ (fun e he => Int.le_of_lt (hk₂ e he)) hroom
  have habove : Above tree.compare as₂ k := fun e he => by
    rcases hright e he with hold | hgt
    · exact hk₂ e hold
    · exact hgt
  generalize shifted tree.layout.minKeys es₁ es₂ cs₁ c cs₂ = d at hprep ⊢
  have ht' := hprep.subtree
  obtain ⟨n', hget', hn'⟩ := ht'.rep.root
  have hkd : k ∈ (toList h d).map Prod.fst :=
    mem_child hc hprep.left_len.symm hprep.right_len.symm ht'.asc hprep.below habove
      (hprep.toList_eq.symm ▸ hk)
  refine ⟨H', ?_, hprep.descended hkd⟩
  refine (run_deleteRecursive_miss (runs_nodeKeyPosition_miss hc hget hn hk₁ hk₂)).trans ?_
  refine hens.run_bind.trans ?_
  refine (runs_nodeKeyPosition_miss hc hget' hn' hprep.below habove).run_bind.trans ?_
  exact (ht'.runs_childAt (c := d) (by simp [← hprep.left_len])).run_bind

/-- The key is in the node: the deletion goes on with the last key of the child, whether or
not the key is still in the node when it is overwritten. -/
theorem descend_hit {v : FileOffset}
    (ht : Subtree tree H (h + 1) par lo ⟨a, es₁ ++ (k, v) :: es₂, cs₁ ++ c :: cs₂⟩)
    (hcs₁ : cs₁.length = es₁.length) (hcs₂ : cs₂.length = ((k, v) :: es₂).length)
    (hk₁ : Below tree.compare es₁ k) (hk₂ : Above tree.compare es₂ k)
    (hroom : RoomToShift tree.layout.minKeys tree.layout.maxKeys h cs₁ c cs₂) (steps : Nat) :
    ∃ H', (deleteRecursive tree (steps + 1) a k).run H
        = (deleteRecursive tree steps
            (shifted tree.layout.minKeys es₁ ((k, v) :: es₂) cs₁ c cs₂).label
            (nextKey tree.compare k ((k, v) :: es₂)
              (shifted tree.layout.minKeys es₁ ((k, v) :: es₂) cs₁ c cs₂))).run H' ∧
      Descended tree H H' h ⟨a, es₁ ++ (k, v) :: es₂, cs₁ ++ c :: cs₂⟩
        (shifted tree.layout.minKeys es₁ ((k, v) :: es₂) cs₁ c cs₂)
        (nextKey tree.compare k ((k, v) :: es₂)
          (shifted tree.layout.minKeys es₁ ((k, v) :: es₂) cs₁ c cs₂)) := by
  obtain ⟨n, hget, hn⟩ := ht.rep.root
  have hmax : (es₁ ++ (k, v) :: es₂).length ≤ tree.layout.maxKeys := ht.fits.le_max
  rw [List.length_append, List.length_cons] at hmax
  have hnotlt : ∀ e ∈ (k, v) :: es₂, tree.compare k e.1 ≤ 0 := by
    intro e he
    rcases List.mem_cons.1 he with rfl | he
    · exact Int.le_of_eq (hc.self k)
    · exact Int.le_of_lt (hk₂ e he)
  obtain ⟨H', as₁, as₂, ds₁, ds₂, hens, hprep, _, hle, hright⟩ := exists_prepared hL hc ht
    (by simp) hcs₁ hcs₂ hk₁ hnotlt hroom
  have hhead : ∀ e ∈ as₂.head?, tree.compare k e.1 ≤ 0 := fun e he => by
    rcases hright e (List.mem_of_head? he) with hold | hgt
    · exact hnotlt e hold
    · exact Int.le_of_lt hgt
  generalize shifted tree.layout.minKeys es₁ ((k, v) :: es₂) cs₁ c cs₂ = d at hprep ⊢
  have hne : d.entries ≠ [] := List.length_pos_iff.1 (Nat.zero_lt_of_lt hprep.spare)
  obtain ⟨de, y, hde⟩ : ∃ de y, d.entries = de ++ [y] :=
    ⟨_, _, (List.dropLast_append_getLast hne).symm⟩
  have hnext : nextKey tree.compare k ((k, v) :: es₂) d = y.1 := by
    unfold nextKey
    rw [if_pos (startsWith_self hc v es₂), hde]
    simp
  have ht' := hprep.subtree
  have hdfit : Fits tree.layout.minKeys tree.layout.maxKeys h tree.layout.minKeys d :=
    ht'.fits.child (by simp)
  have hymem : y.1 ∈ (toList h d).map Prod.fst := by
    refine List.mem_map_of_mem ((entries_sublist_toList (fits_iff.1 hdfit).2.2).subset ?_)
    simp [hde]
  obtain ⟨p, hget', hp⟩ := ht'.rep.root
  obtain ⟨ks, os, _, _, hreplace⟩ := runs_replaceKey_at hL hc hens ht' hprep.left_len hprep.below
    hhead (by omega) hde hget'
  rw [hnext]
  refine ⟨_, ?_, (hprep.descended hymem).put (n := { p with keys := ks, offsets := os })
    hp.children_len⟩
  refine (run_deleteRecursive_hit (runs_nodeKeyPosition_hit hc hget hn hk₁) hget
    hn.leaf_eq).trans ?_
  exact hreplace.run_bind

end Levels

/-! ## The descent -/

section Induction

variable {K : Type} {tree : Btree K} (hL : tree.layout.Sound) (hc : TotalCmp tree.compare)
  {H : Heap (BtreeNode K)}

/-- What `delete_recursive` does below `t`, by the end of its descent. -/
def EndsAs (tree : Btree K) (H : Heap (BtreeNode K)) (h : Nat) (t : AddrTree K h) (k : K)
    (steps : Nat) : DescentEnd → Prop
  | .leaf => ∃ H', Runs (deleteRecursive tree steps t.label k) H () H' ∧
      (∃ n, H'.get t.label = some n ∧ n.children.length = tree.layout.childCount) ∧
      ∀ q, q ∉ labels h t → H'.get q = H.get q
  | .overrun => Overruns (deleteRecursive tree steps t.label k) H
  | .stray => tree.layout.maxKeys % 2 = 0

/-- What holds below the child holds of the node. -/
theorem Descended.endsAs {H' : Heap (BtreeNode K)} {h : Nat} {t : AddrTree K (h + 1)}
    {d : AddrTree K h} {k k' : K} {steps : Nat} {e : DescentEnd}
    (hd : Descended tree H H' h t d k')
    (hrun : (deleteRecursive tree (steps + 1) t.label k).run H
      = (deleteRecursive tree steps d.label k').run H')
    (hbelow : EndsAs tree H' h d k' steps e) : EndsAs tree H (h + 1) t k (steps + 1) e := by
  cases e with
  | leaf =>
    obtain ⟨H'', hrest, _, hsame⟩ := hbelow
    obtain ⟨n, hget, hn⟩ := hd.root
    refine ⟨H'', hrun.trans hrest, ⟨n, (hsame _ hd.apart).trans hget, hn⟩, fun q hq => ?_⟩
    rw [hsame q fun hqd => hq (hd.sub q hqd), hd.same q hq]
  | overrun => exact hrun.trans hbelow
  | stray => exact hbelow

include hL hc

/-- The descent ends as `deleteEnd` says. -/
theorem deleteRecursive_endsAs {h : Nat} {par : Option Addr} {lo : Nat} {t : AddrTree K h} {k : K}
    (ht : Subtree tree H h par lo t) (hlo : rootMin h ≤ lo) (hk : k ∈ (toList h t).map Prod.fst)
    (steps : Nat) (hsteps : h < steps) :
    EndsAs tree H h t k steps
      (deleteEnd tree.compare tree.layout.minKeys tree.layout.maxKeys h k t) := by
  induction h generalizing H par lo k steps with
  | zero =>
    obtain ⟨H', t', hrun, he⟩ := runs_delete_leaf hL hc ht hk hsteps
    obtain ⟨n, hget, hn⟩ := he.subtree.rep
    exact ⟨H', hrun, ⟨n, he.label_eq ▸ hget, hn.children_len⟩, he.shrunk.same⟩
  | succ h ih =>
    have hthree := hL.three_le
    have hmin := hL.minKeys_eq
    have hfit := (fits_iff.1 ht.fits).2.2
    have hsub := entries_sublist_toList hfit
    have hentries : 0 < t.entries.length := Nat.lt_of_lt_of_le hlo ht.fits.lo_le
    have hnext : rootMin h ≤ tree.layout.minKeys + 1 := by
      cases h
      · exact Nat.zero_le _
      · exact Nat.le_add_left 1 _
    obtain ⟨s, rfl⟩ : ∃ s, steps = s + 1 := ⟨steps - 1, by omega⟩
    obtain ⟨n, hget, hn⟩ := ht.rep.root
    -- without room to shift, `ensure_min_keys` decides
    have hover : ∀ {es₁ es₂ : List (Entry K)} {cs₁ cs₂ : List (AddrTree K h)} {c : AddrTree K h},
        t = ⟨t.label, es₁ ++ es₂, cs₁ ++ c :: cs₂⟩ → cs₁.length = es₁.length →
        cs₂.length = es₂.length →
        ¬RoomToShift tree.layout.minKeys tree.layout.maxKeys h cs₁ c cs₂ →
        (Overruns (ensureMinKeys tree t.label es₁.length) H →
          Overruns (deleteRecursive tree (s + 1) t.label k) H) →
        EndsAs tree H (h + 1) t k (s + 1)
          (if spare tree.layout.minKeys cs₂.head? = true ∨
            tree.layout.maxKeys < 2 * tree.layout.minKeys + 2 then .overrun else .stray) := by
      intro es₁ es₂ cs₁ cs₂ c heq hcs₁ hcs₂ hroom hstart
      by_cases hfull : spare tree.layout.minKeys cs₂.head? = true ∨
          tree.layout.maxKeys < 2 * tree.layout.minKeys + 2
      · rw [if_pos hfull]
        rw [heq] at ht hentries
        exact hstart (hcs₁ ▸ ht.overruns_ensure hL hentries hcs₁ hcs₂ hroom hfull)
      · rw [if_neg hfull]
        show tree.layout.maxKeys % 2 = 0
        omega
    by_cases hhit : k ∈ t.entries.map Prod.fst
    · obtain ⟨a, es, cs⟩ := t
      obtain ⟨⟨k, v⟩, hmem, rfl⟩ := List.mem_map.1 hhit
      obtain ⟨es₁, es₂, rfl⟩ := List.append_of_mem (show (k, v) ∈ es from hmem)
      obtain ⟨cs₁, c, cs₂, rfl, hcs₁, hcs₂⟩ := exists_focus hfit.1
      obtain ⟨hk₁, hk₂⟩ := (ht.asc.sublist hsub).split
      rw [deleteEnd_focus hcs₁ hk₁ (by simp [hc.self])]
      unfold endAt
      by_cases hroom : RoomToShift tree.layout.minKeys tree.layout.maxKeys h cs₁ c cs₂
      · rw [if_pos hroom]
        obtain ⟨H', hrun, hd⟩ := descend_hit hL hc ht hcs₁ hcs₂ hk₁ hk₂ hroom s
        exact hd.endsAs hrun (ih hd.subtree hnext hd.mem s (by omega))
      · rw [if_neg hroom]
        refine hover rfl hcs₁ hcs₂ hroom fun hens => ?_
        refine (run_deleteRecursive_hit (runs_nodeKeyPosition_hit hc hget hn hk₁) hget
          hn.leaf_eq).trans ?_
        exact hens.bind.bind
    · obtain ⟨es₁, es₂, cs₁, c, cs₂, heq, hcs₁, hcs₂, hk₁, hk₂⟩ :=
        exists_child hc hfit ht.asc hhit
      generalize t.label = a at heq
      subst heq
      have hnotlt : ∀ e ∈ es₂.head?, ¬tree.compare e.1 k < 0 := fun e he =>
        hc.asymm (hk₂ e (List.mem_of_head? he))
      rw [deleteEnd_focus hcs₁ hk₁ hnotlt]
      unfold endAt
      by_cases hroom : RoomToShift tree.layout.minKeys tree.layout.maxKeys h cs₁ c cs₂
      · rw [if_pos hroom]
        obtain ⟨H', hrun, hd⟩ := descend_miss hL hc ht hentries hcs₁ hcs₂ hk₁ hk₂ hk hroom s
        have hkey : nextKey tree.compare k es₂
            (shifted tree.layout.minKeys es₁ es₂ cs₁ c cs₂) = k := by
          unfold nextKey
          rw [startsWith_of_above hk₂]
          rfl
        simp only [hkey]
        exact hd.endsAs hrun (ih hd.subtree hnext hd.mem s (by omega))
      · rw [if_neg hroom]
        refine hover rfl hcs₁ hcs₂ hroom fun hens => ?_
        refine (run_deleteRecursive_miss (runs_nodeKeyPosition_miss hc hget hn hk₁ hk₂)).trans ?_
        exact hens.bind

end Induction

/-! ## The three operations -/

section Operations

variable {K : Type} {tree : Btree K} {H : Heap (BtreeNode K)} {entries : List (Entry K)}

/-- Reading the end off the heap gives the end of the represented tree. -/
theorem deleteEnds_eq {h : Nat} {par : Option Addr} {lo : Nat} {t : AddrTree K h}
    (hroot : tree.root = some t.label) (ht : Subtree tree H h par lo t) (k : K) :
    deleteEnds tree H k = if (lookup tree.compare (toList h t) k).isSome then
      deleteEnd tree.compare tree.layout.minKeys tree.layout.maxKeys h k t else .leaf := by
  have hheight := ht.rep.height_lt_size ht.fits ht.nodup
  simp only [deleteEnds, hroot, ht.rep.heightAt ht.fits H.size hheight, ht.rep.treeAt ht.fits]

/-- The end of `btree_delete`. -/
theorem inBounds_newRoot {root : Addr} {r : BtreeNode K} (hget : H.get root = some r)
    (hlen : 0 < r.children.length) :
    InBounds (do
      let r ← load root
      if r.keyCount = 0 ∧ ¬btreeNodeIsLeaf r then
        let newRoot ← readAt r.children 0
        let newRoot ← deref newRoot
        setParent newRoot none
        free root
        pure (true, { tree with root := some newRoot })
      else pure (true, tree) : NodeProg K (Bool × Btree K)) H := by
  refine (Runs.load hget).inBounds_bind ?_
  split
  · have hread : readAt r.children 0 = .ok r.children[0] :=
      readAt_of_getElem? (List.getElem?_eq_getElem hlen)
    refine (Runs.lift hread H).inBounds_bind ((InBounds.deref _ H).bind fun newRoot H₁ _ => ?_)
    refine InBounds.bind ?_ fun _ H₂ _ => ?_
    · exact (InBounds.load newRoot H₁).bind fun n H' _ => InBounds.store newRoot _ H'
    · exact (InBounds.free root H₂).bind fun _ H₃ _ => (Runs.pure _ H₃).inBounds
  · exact (Runs.pure _ H).inBounds

/-- What `btree_delete` does, by the end of its descent. -/
def DeletesAs (tree : Btree K) (H : Heap (BtreeNode K)) (k : K) : DescentEnd → Prop
  | .leaf => InBounds (btreeDelete tree k) H
  | .overrun => Overruns (btreeDelete tree k) H
  | .stray => tree.layout.maxKeys % 2 = 0

variable (hL : tree.layout.Sound) (hc : TotalCmp tree.compare)

include hL hc

theorem btreeDelete_ends (hH : Holds tree H entries) (k : K) :
    DeletesAs tree H k (deleteEnds tree H k) := by
  have hsearch := runs_btreeSearch hL hc hH k
  have hchild := hL.childCount_eq
  unfold Holds at hH
  cases hroot : tree.root with
  | none =>
    rw [hroot] at hH
    subst hH
    have hend : deleteEnds tree H k = .leaf := by
      unfold deleteEnds
      rw [hroot]
    rw [hend]
    exact (runs_btreeDelete_absent hsearch).inBounds
  | some root =>
    rw [hroot] at hH
    obtain ⟨h, t, rfl, ht, rfl⟩ := hH
    rw [deleteEnds_eq hroot ht k]
    by_cases hk : k ∈ (toList h t).map Prod.fst
    · obtain ⟨⟨k, v⟩, hmem, rfl⟩ := List.mem_map.1 hk
      rw [lookup_of_mem hc ht.asc hmem] at hsearch ⊢
      rw [Option.isSome_some, if_pos rfl]
      have hheight := ht.rep.height_lt_size ht.fits ht.nodup
      have hends := deleteRecursive_endsAs hL hc ht (Nat.le_refl _) hk H.size hheight
      have hderef : Runs (liftM (deref tree.root) : NodeProg K Addr) H t.label H := by
        rw [hroot]
        exact Runs.deref _ H
      generalize deleteEnd tree.compare tree.layout.minKeys tree.layout.maxKeys h k t = e at hends ⊢
      cases e with
      | leaf =>
        obtain ⟨H', hrun, ⟨n, hget, hn⟩, _⟩ := hends
        refine hsearch.inBounds_bind (hderef.inBounds_bind ((Runs.get H).inBounds_bind ?_))
        exact hrun.inBounds_bind (inBounds_newRoot hget (by omega))
      | overrun =>
        refine hsearch.overruns_bind (hderef.overruns_bind ((Runs.get H).overruns_bind ?_))
        exact Overruns.bind hends
      | stray => exact hends
    · rw [lookup_eq_none hc hk] at hsearch ⊢
      exact (runs_btreeDelete_absent hsearch).inBounds

theorem overruns_btreeDelete (hH : Holds tree H entries) {k : K}
    (hend : deleteEnds tree H k = .overrun) : Overruns (btreeDelete tree k) H := by
  have hends := btreeDelete_ends hL hc hH k
  rw [hend] at hends
  exact hends

variable [Inhabited K]

omit hL hc in
/-- In every tree that satisfies the invariant, search and insertion stay inside the arrays, and
deletion does so exactly when its descent ends in a leaf.  The one end that is left open, a
stray slot between the children of two inner nodes, needs an even `max_keys`. -/
theorem accesses_inBounds_iff {nodeSize keySize : Nat}
    (hmax : 3 ≤ (btreeLayoutCreate nodeSize keySize).maxKeys)
    (hlayout : tree.layout = btreeLayoutCreate nodeSize keySize) (hc : TotalCmp tree.compare)
    (hH : Holds tree H entries) (hlaid : AllLaidOut tree.layout H) :
    (∀ k, InBounds (btreeSearch tree k) H) ∧
    (∀ k v, InBounds (btreeInsert tree k v) H) ∧
    ∀ k, (deleteEnds tree H k = .stray → tree.layout.maxKeys % 2 = 0) ∧
      (deleteEnds tree H k ≠ .stray →
        (InBounds (btreeDelete tree k) H ↔ deleteEnds tree H k = .leaf)) := by
  have hL : tree.layout.Sound := hlayout ▸ sound_btreeLayoutCreate hmax
  refine ⟨fun k => (keeps_btreeSearch hL k H hlaid).1,
    fun k v => (keeps_btreeInsert hL k v H hlaid).1, fun k => ?_⟩
  have hends := btreeDelete_ends hL hc hH k
  cases hend : deleteEnds tree H k with
  | leaf =>
    rw [hend] at hends
    exact ⟨fun h => (by cases h), fun _ => ⟨fun _ => rfl, fun _ => hends⟩⟩
  | overrun =>
    rw [hend] at hends
    have hover : Overruns (btreeDelete tree k) H := hends
    exact ⟨fun h => (by cases h), fun _ => ⟨fun hin => absurd hin hover.not_inBounds,
      fun h => (by cases h)⟩⟩
  | stray =>
    rw [hend] at hends
    exact ⟨fun _ => hends, fun h => absurd rfl h⟩

end Operations

/-- The trees that insertions make have all their nodes laid out. -/
theorem InsertRun.allLaidOut {K : Type} [Inhabited K] {nodeSize keySize : Nat}
    {compare : K → K → Int} {inserted : List (Entry K)} {tree : Btree K} {H : Heap (BtreeNode K)}
    (hmax : 3 ≤ (btreeLayoutCreate nodeSize keySize).maxKeys) (hc : TotalCmp compare)
    (h : InsertRun nodeSize keySize compare inserted tree H) : AllLaidOut tree.layout H := by
  have hL := sound_btreeLayoutCreate hmax
  induction h with
  | create => exact everywhere_empty
  | @insert inserted tree tree' H H' k v hprev hnew hrun ih =>
    obtain ⟨hlayout, _⟩ := hprev.holds hmax hc
    obtain ⟨hlayout', _⟩ := (InsertRun.insert hprev hnew hrun).holds hmax hc
    have hkept := ((keeps_btreeInsert (hlayout ▸ hL) k v H ih).2 tree' H' hrun).1
    rwa [hlayout, ← hlayout'] at hkept

/-! ## A full right neighbour

Keys of 1020 bytes in nodes of three, a leaf with one key left of a full one. -/

def longEntry (b : UInt8) : Entry (Fixed 1020) := (longKey b, 0)

def fullRightTree : Btree (Fixed 1020) := { longKeyTree with root := some 0 }

def fullRightHeap : Heap (BtreeNode (Fixed 1020)) :=
  let node := filledNode fullRightTree.layout
  ⟨[some (node none 0 [longEntry 2] [1, 2]),
    some (node (some 0) btreeNodeLeaf [longEntry 1] []),
    some (node (some 0) btreeNodeLeaf [longEntry 3, longEntry 4, longEntry 5] [])]⟩

theorem longKey_layout : fullRightTree.layout.maxKeys = 3 ∧ fullRightTree.layout.childCount = 4 ∧
    fullRightTree.layout.minKeys = 1 := by decide

theorem longNode_rep (par : Option Addr) (flags : UInt8) {es : List (Entry (Fixed 1020))}
    {cs : List Addr} (hes : es.length ≤ 3) (hcs : cs.length ≤ 4) :
    NodeRep fullRightTree.layout (filledNode fullRightTree.layout par flags es cs)
      (flagIsLeaf flags) par es cs := by
  obtain ⟨hmax, hchild, _⟩ := longKey_layout
  exact nodeRep_filledNode par flags (by omega) (by omega)

theorem fullRight_holds :
    Holds fullRightTree fullRightHeap ([1, 2, 3, 4, 5].map longEntry) := by
  obtain ⟨hmax, _, hmin⟩ := longKey_layout
  refine ⟨1, ⟨0, [longEntry 2], [⟨1, [longEntry 1], []⟩,
    ⟨2, [longEntry 3, longEntry 4, longEntry 5], []⟩]⟩, rfl, ⟨⟨?_, ?_⟩, by decide, ?_, ?_⟩, rfl⟩
  · exact ⟨_, rfl, longNode_rep none 0 (by simp) (by simp)⟩
  · simp only [List.forall_mem_cons, List.not_mem_nil, false_imp_iff, implies_true, and_true]
    exact ⟨⟨_, rfl, longNode_rep _ _ (by simp) (by simp)⟩,
      ⟨_, rfl, longNode_rep _ _ (by simp) (by simp)⟩⟩
  · rw [hmax, hmin]
    simp [Fits, rootMin]
  · apply ascending_longKeys
    · show _ = [1, 2, 3, 4, 5].map longKey
      rfl
    · decide

theorem fullRight_laidOut : AllLaidOut fullRightTree.layout fullRightHeap := by
  apply everywhere_of_cells
  simp only [fullRightHeap, List.forall_mem_cons, List.not_mem_nil, false_imp_iff, implies_true,
    and_true, Option.some.injEq, forall_eq']
  exact ⟨(longNode_rep none 0 (by simp) (by simp)).laidOut,
    (longNode_rep _ _ (by simp) (by simp)).laidOut,
    (longNode_rep _ _ (by simp) (by simp)).laidOut⟩

theorem fullRight_ends : deleteEnds fullRightTree fullRightHeap (longKey 4) = .leaf ∧
    deleteEnds fullRightTree fullRightHeap (longKey 1) = .overrun := by
  decide +kernel

/-- The keys of the full leaf can be deleted, the one left of it cannot. -/
theorem accesses_inBounds_iff_fullRight :
    InBounds (btreeDelete fullRightTree (longKey 4)) fullRightHeap ∧
      ¬InBounds (btreeDelete fullRightTree (longKey 1)) fullRightHeap := by
  have hmax : 3 ≤ (btreeLayoutCreate 4096 1020).maxKeys := by decide
  obtain ⟨hleaf, hover⟩ := fullRight_ends
  obtain ⟨_, _, hdelete⟩ := accesses_inBounds_iff hmax rfl (totalCmp_memcmp 1020) fullRight_holds
    fullRight_laidOut
  refine ⟨((hdelete (longKey 4)).2 (by rw [hleaf]; decide)).2 hleaf, fun hin => ?_⟩
  have hend := ((hdelete (longKey 1)).2 (by rw [hover]; decide)).1 hin
  rw [hover] at hend
  cases hend

/-- The leaf with one key takes an entry from the full one, whose keys are moved by one slot
more than there are. -/
theorem deleteFirst_overruns :
    3 ≤ fullRightTree.layout.maxKeys ∧
      Holds fullRightTree fullRightHeap ([1, 2, 3, 4, 5].map longEntry) ∧
      AllLaidOut fullRightTree.layout fullRightHeap ∧
      ¬InBounds (btreeDelete fullRightTree (longKey 1)) fullRightHeap := by
  have hL : fullRightTree.layout.Sound := sound_btreeLayoutCreate (by decide)
  obtain ⟨-, hover⟩ := fullRight_ends
  have hc : TotalCmp fullRightTree.compare := totalCmp_memcmp 1020
  exact ⟨Nat.le_of_eq longKey_layout.1.symm, fullRight_holds, fullRight_laidOut,
    (overruns_btreeDelete hL hc fullRight_holds hover).not_inBounds⟩

end Maxql.Index
