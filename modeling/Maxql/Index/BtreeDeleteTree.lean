import Maxql.Index.BtreeShift
import Maxql.Index.BtreeSearch

/-!
# Deletion from the tree

`deleteSafe` follows the descent of `delete_recursive` on the tree before the
call and says where it goes wrong: where two inner nodes are merged, where a
full right neighbour gives up an entry, where the key is an entry of a node two
or more levels above the leaves, and where a key just above the leaves is moved
down by the rebalancing that was to make room for its predecessor.  Everywhere
else the deletion removes the key and nothing but the key; the induction is on
the height, and one level is a rebalancing followed by the descent.
-/

namespace Maxql.Index

open Program SortedEntries Multiway

/-! ## Where a deletion is safe -/

section Safe

variable {ι K V : Type}

/-- The position at which the scan of a node ends. -/
def position (cmp : K → K → Int) (k : K) (es : List (K × V)) : Nat :=
  (es.takeWhile fun e => cmp e.1 k < 0).length

/-- One level of `deleteSafe`: the entries and children left of the position, the
child there, and those right of it. -/
def safeAt (cmp : K → K → Int) (min max : Nat) (k : K) (h : Nat)
    (below : Tree ι (K × V) h → Bool) (es₁ es₂ : List (K × V))
    (cs₁ : List (Tree ι (K × V) h)) (c : Tree ι (K × V) h)
    (cs₂ : List (Tree ι (K × V) h)) : Bool :=
  if es₂.head?.any fun e => cmp k e.1 = 0 then
    h == 0 && (spare min (some c) ||
      cs₁ ≠ [] && (spare min cs₁.getLast? || !spare min cs₂.head?))
  else if spare min (some c) then below c
  else if spare min cs₁.getLast? then
    match es₁.getLast?, cs₁.getLast? with
    | some s, some l => below (borrowLeft s l c)
    | _, _ => false
  else if spare min cs₂.head? then
    match es₂.head?, cs₂.head? with
    | some s, some r => r.entries.length < max && below (borrowRight s c r)
    | _, _ => false
  else h == 0

/-- The deletion of `k`, which the tree holds, goes well. -/
def deleteSafe (cmp : K → K → Int) (min max : Nat) (k : K) :
    (h : Nat) → Tree ι (K × V) h → Bool
  | 0, _ => true
  | h + 1, t =>
    let i := position cmp k t.entries
    match t.children.drop i with
    | [] => false
    | c :: cs₂ =>
      safeAt cmp min max k h (deleteSafe cmp min max k h) (t.entries.take i)
        (t.entries.drop i) (t.children.take i) c cs₂

theorem position_eq {cmp : K → K → Int} {k : K} {es₁ es₂ : List (K × V)}
    (h₁ : Below cmp es₁ k) (h₂ : ∀ e ∈ es₂.head?, ¬cmp e.1 k < 0) :
    position cmp k (es₁ ++ es₂) = es₁.length := by
  have hright : es₂.takeWhile (fun e => decide (cmp e.1 k < 0)) = [] := by
    cases es₂ with
    | nil => rfl
    | cons e es => exact List.takeWhile_cons_of_neg (by simpa using h₂ e rfl)
  unfold position
  rw [List.takeWhile_append_of_pos fun e he => decide_eq_true (h₁ e he), hright,
    List.append_nil]

/-- `deleteSafe` at the child that the key belongs to. -/
theorem deleteSafe_focus {cmp : K → K → Int} {min max : Nat} {k : K} {h : Nat} {a : ι}
    {es₁ es₂ : List (K × V)} {cs₁ cs₂ : List (Tree ι (K × V) h)} {c : Tree ι (K × V) h}
    (hcs₁ : cs₁.length = es₁.length) (h₁ : Below cmp es₁ k)
    (h₂ : ∀ e ∈ es₂.head?, ¬cmp e.1 k < 0) :
    deleteSafe cmp min max k (h + 1) ⟨a, es₁ ++ es₂, cs₁ ++ c :: cs₂⟩
      = safeAt cmp min max k h (deleteSafe cmp min max k h) es₁ es₂ cs₁ c cs₂ := by
  have hpos := position_eq h₁ h₂
  simp only [deleteSafe, hpos]
  rw [List.drop_left' hcs₁]
  simp [hcs₁.symm]

/-- Where a safe deletion of a key that is not in the node goes on, there is room to shift. -/
theorem room_of_safeAt {cmp : K → K → Int} {min max : Nat} {k : K} {h : Nat}
    {below : Tree ι (K × V) h → Bool} {es₁ es₂ : List (K × V)} {cs₁ cs₂ : List (Tree ι (K × V) h)}
    {c : Tree ι (K × V) h} (hmiss : startsWith cmp k es₂ = false)
    (hsafe : safeAt cmp min max k h below es₁ es₂ cs₁ c cs₂ = true) :
    RoomToShift min max h cs₁ c cs₂ ∧ (below (shifted min es₁ es₂ cs₁ c cs₂) = true ∨ h = 0) := by
  unfold safeAt at hsafe
  unfold startsWith at hmiss
  unfold RoomToShift shifted
  simp only [hmiss, Bool.false_eq_true, if_false] at hsafe
  by_cases hspare : spare min (some c) = true
  · rw [if_pos hspare] at hsafe ⊢
    exact ⟨Or.inl (by simpa [spare] using hspare), Or.inl hsafe⟩
  rw [if_neg hspare] at hsafe ⊢
  by_cases hleft : spare min cs₁.getLast? = true
  · rw [if_pos hleft] at hsafe ⊢
    refine ⟨Or.inr (Or.inl hleft), Or.inl ?_⟩
    cases hs : es₁.getLast? with
    | none =>
      rw [hs] at hsafe
      cases hsafe
    | some s =>
      cases hl : cs₁.getLast? with
      | none =>
        rw [hs, hl] at hsafe
        cases hsafe
      | some l =>
        rw [hs, hl] at hsafe
        exact hsafe
  rw [if_neg hleft] at hsafe ⊢
  by_cases hright : spare min cs₂.head? = true
  · rw [if_pos hright] at hsafe ⊢
    cases hs : es₂.head? with
    | none =>
      rw [hs] at hsafe
      cases hsafe
    | some s =>
      cases hr : cs₂.head? with
      | none =>
        rw [hs, hr] at hsafe
        cases hsafe
      | some r =>
        rw [hr] at hright
        rw [hs, hr] at hsafe
        obtain ⟨hfree, hbelow⟩ := (Bool.and_eq_true _ _).mp hsafe
        have hspareRight : min < r.entries.length := by simpa [spare] using hright
        have hnotFull : r.entries.length < max := of_decide_eq_true hfree
        exact ⟨Or.inr (Or.inr (Or.inl ⟨r, rfl, hspareRight, hnotFull⟩)), Or.inl hbelow⟩
  rw [if_neg hright] at hsafe
  have hleaf : h = 0 := by simpa using hsafe
  exact ⟨Or.inr (Or.inr (Or.inr ⟨by simpa using hright, hleaf⟩)), Or.inr hleaf⟩

end Safe

/-! ## One level of a safe deletion -/

section Level

variable {K : Type} {tree : Btree K} (hL : tree.layout.Sound) (hc : TotalCmp tree.compare)
  {H : Heap (BtreeNode K)} {h : Nat} {par : Option Addr} {lo : Nat} {a : Addr}
  {es₁ es₂ : List (Entry K)} {cs₁ cs₂ : List (AddrTree K h)} {c : AddrTree K h} {k : K}

include hL hc

/-- The key is not in the node: a safe deletion goes on in a child with an entry to
spare, and is safe there. -/
theorem exists_prepared_miss
    (ht : Subtree tree H (h + 1) par lo ⟨a, es₁ ++ es₂, cs₁ ++ c :: cs₂⟩)
    (hpos : 0 < (es₁ ++ es₂).length)
    (hcs₁ : cs₁.length = es₁.length) (hcs₂ : cs₂.length = es₂.length)
    (hk₁ : Below tree.compare es₁ k) (hk₂ : Above tree.compare es₂ k)
    (hsafe : safeAt tree.compare tree.layout.minKeys tree.layout.maxKeys k h
      (deleteSafe tree.compare tree.layout.minKeys tree.layout.maxKeys k h) es₁ es₂ cs₁ c cs₂) :
    ∃ H' as₁ as₂ ds₁ d ds₂, Runs (ensureMinKeys tree a es₁.length) H () H' ∧
      Prepared tree H H' h par lo ⟨a, es₁ ++ es₂, cs₁ ++ c :: cs₂⟩ as₁ as₂ ds₁ d ds₂ k ∧
      Above tree.compare as₂ k ∧
      deleteSafe tree.compare tree.layout.minKeys tree.layout.maxKeys k h d = true := by
  obtain ⟨hroom, hbelow⟩ := room_of_safeAt (startsWith_of_above hk₂) hsafe
  obtain ⟨H', as₁, as₂, ds₁, ds₂, hrun, hprep, _, _, hright⟩ := exists_prepared hL hc ht hpos hcs₁
    hcs₂ hk₁ (fun e he => Int.le_of_lt (hk₂ e he)) hroom
  refine ⟨H', as₁, as₂, ds₁, _, ds₂, hrun, hprep, fun e he => ?_, ?_⟩
  · rcases hright e he with hold | hgt
    · exact hk₂ e hold
    · exact hgt
  · rcases hbelow with hbelow | rfl
    · exact hbelow
    · rfl

/-- The key is in a node just above the leaves: in a safe deletion it stays where it
is while the child left of it gets an entry to spare. -/
theorem exists_prepared_hit {v : FileOffset}
    (ht : Subtree tree H (h + 1) par lo ⟨a, es₁ ++ (k, v) :: es₂, cs₁ ++ c :: cs₂⟩)
    (hcs₁ : cs₁.length = es₁.length) (hcs₂ : cs₂.length = (((k, v) :: es₂).length))
    (hk₁ : Below tree.compare es₁ k)
    (hsafe : safeAt tree.compare tree.layout.minKeys tree.layout.maxKeys k h
      (deleteSafe tree.compare tree.layout.minKeys tree.layout.maxKeys k h) es₁
      ((k, v) :: es₂) cs₁ c cs₂) :
    h = 0 ∧ ∃ H' as₁ ds₁ d, Runs (ensureMinKeys tree a es₁.length) H () H' ∧
      Prepared tree H H' h par lo ⟨a, es₁ ++ (k, v) :: es₂, cs₁ ++ c :: cs₂⟩ as₁
        ((k, v) :: es₂) ds₁ d cs₂ k := by
  have hhit : (((k, v) :: es₂).head?.any fun e => decide (tree.compare k e.1 = 0)) = true := by
    simp [hc.self]
  unfold safeAt at hsafe
  rw [if_pos hhit, Bool.and_eq_true, beq_iff_eq] at hsafe
  obtain ⟨rfl, hsafe⟩ := hsafe
  refine ⟨rfl, ?_⟩
  by_cases hspare : tree.layout.minKeys < c.entries.length
  · obtain ⟨hrun, hprep⟩ := Prepared.of_spare ht hcs₁ hcs₂ hk₁ hspare
    exact ⟨H, es₁, cs₁, c, hrun, hprep⟩
  have hnot : spare tree.layout.minKeys (some c) = false := by simpa [spare] using hspare
  simp only [hnot, Bool.false_or, Bool.and_eq_true, decide_eq_true_eq, Bool.or_eq_true,
    Bool.not_eq_true'] at hsafe
  obtain ⟨hne, hsafe⟩ := hsafe
  rcases List.eq_nil_or_concat cs₁ with rfl | ⟨cs, l, rfl⟩
  · exact absurd rfl hne
  rcases List.eq_nil_or_concat es₁ with rfl | ⟨es, s, rfl⟩
  · simp at hcs₁
  simp only [List.concat_eq_append] at *
  simp only [List.getLast?_append, List.getLast?_singleton, Option.some_or] at hsafe
  by_cases hl : tree.layout.minKeys < l.entries.length
  · obtain ⟨H', x, l', hrun, hprep, _⟩ := Prepared.of_left hL hc ht (by simpa using hcs₁) hcs₂ hk₁
      hspare hl
    exact ⟨H', _, _, _, by simpa using hrun, hprep⟩
  · have hright : spare tree.layout.minKeys cs₂.head? = false := by
      rcases hsafe with hleft | hright
      · exact absurd (by simpa [spare] using hleft) hl
      · exact hright
    obtain ⟨H', hrun, hprep, _⟩ := Prepared.of_mergeLeft hL ht (by simpa using hcs₁) hcs₂ hk₁
      hspare hl hright
    exact ⟨H', _, _, _, by simpa using hrun, hprep⟩

end Level

/-! ## A hit in an inner node -/

/-- The part of `delete_recursive` from a hit at `pos` in an inner node to the recursive call:
the child to go on in and the key to delete there. -/
def replaceKey {K : Type} (tree : Btree K) (node : Addr) (key : K) (pos : Nat) :
    NodeProg K (Addr × K) := do
  ensureMinKeys tree node pos
  let (_, pos) ← nodeKeyPosition tree node key
  let child ← childAt node pos
  let c ← load child
  let last := u16 ((c.keyCount : Int) - 1)
  let tmpKey ← readAt c.keys last
  let tmpOffset ← readAt c.offsets last
  let n ← load node
  let keys ← writeAt n.keys pos tmpKey
  let offsets ← writeAt n.offsets pos tmpOffset
  store node { n with keys, offsets }
  pure (child, tmpKey)

theorem run_deleteRecursive_hit {K : Type} {tree : Btree K} {H : Heap (BtreeNode K)} {a : Addr}
    {n : BtreeNode K} {k : K} {pos steps : Nat}
    (hpos : Runs (nodeKeyPosition tree a k) H (true, pos) H) (hget : H.get a = some n)
    (hleaf : btreeNodeIsLeaf n = false) :
    (deleteRecursive tree (steps + 1) a k).run H
      = (replaceKey tree a k pos >>= fun r => deleteRecursive tree steps r.1 r.2).run H := by
  have hload : (load a).run H = .ok (n, H) := Runs.load hget
  have hscan : (nodeKeyPosition tree a k).run H = .ok ((true, pos), H) := hpos
  rw [deleteRecursive, StateT.run_bind, hscan, Checked.ok_bind]
  simp only [if_true, replaceKey, bind_assoc, pure_bind]
  rw [StateT.run_bind, hload, Checked.ok_bind, if_neg (by simp [hleaf])]

theorem deleteRecursive_hit {K : Type} {tree : Btree K} {H H' : Heap (BtreeNode K)} {a : Addr}
    {n : BtreeNode K} {k : K} {pos steps : Nat}
    (hpos : Runs (nodeKeyPosition tree a k) H (true, pos) H) (hget : H.get a = some n)
    (hleaf : btreeNodeIsLeaf n = false) :
    Runs (deleteRecursive tree (steps + 1) a k) H () H' ↔
      ∃ r H₁, Runs (replaceKey tree a k pos) H r H₁ ∧
        Runs (deleteRecursive tree steps r.1 r.2) H₁ () H' := by
  unfold Runs
  rw [run_deleteRecursive_hit hpos hget hleaf]
  constructor
  · intro hrun
    exact Runs.exists_of_bind hrun
  · rintro ⟨r, H₁, hrun₁, hrun₂⟩
    exact Runs.bind hrun₁ hrun₂

/-- Without a hit, the descent goes on in the child at the position found after the
rebalancing. -/
theorem run_deleteRecursive_miss {K : Type} {tree : Btree K} {H : Heap (BtreeNode K)} {a : Addr}
    {k : K} {pos steps : Nat} (hpos : Runs (nodeKeyPosition tree a k) H (false, pos) H) :
    (deleteRecursive tree (steps + 1) a k).run H
      = (ensureMinKeys tree a pos >>= fun _ => nodeKeyPosition tree a k >>= fun r =>
          childAt a r.2 >>= fun child => deleteRecursive tree steps child k).run H := by
  rw [deleteRecursive]
  exact hpos.run_bind

/-! ## The induction -/

/-- `t` of `H` became `t'` of `H'`, without the key. -/
structure Erased {K : Type} (tree : Btree K) (H H' : Heap (BtreeNode K)) (h : Nat)
    (par : Option Addr) (lo : Nat) (t t' : AddrTree K h) (k : K) : Prop where
  subtree : Subtree tree H' h par lo t'
  label_eq : t'.label = t.label
  toList_eq : toList h t' = eraseKey tree.compare k (toList h t)
  shrunk : Shrunk H H' (labels h t) (labels h t')

section Induction

variable {K : Type} {tree : Btree K} (hL : tree.layout.Sound) (hc : TotalCmp tree.compare)
  {H H' : Heap (BtreeNode K)} {h : Nat} {par : Option Addr} {lo : Nat} {a : Addr}
  {es₁ es₂ : List (Entry K)} {cs₁ cs₂ : List (AddrTree K h)} {c c' : AddrTree K h} {k : K}

include hc

theorem runs_nodeKeyPosition {n : BtreeNode K} {leaf : Bool} {cs : List Addr}
    (hget : H.get a = some n) (hn : NodeRep tree.layout n leaf par (es₁ ++ es₂) cs)
    (hk₁ : Below tree.compare es₁ k) (hk₂ : ∀ e ∈ es₂.head?, tree.compare k e.1 ≤ 0) :
    Runs (nodeKeyPosition tree a k) H (startsWith tree.compare k es₂, es₁.length) H :=
  Runs.bind (Runs.load hget) (Runs.lift (hn.scan hc hk₁ hk₂) H)

theorem runs_nodeKeyPosition_miss {n : BtreeNode K} {leaf : Bool} {cs : List Addr}
    (hget : H.get a = some n) (hn : NodeRep tree.layout n leaf par (es₁ ++ es₂) cs)
    (hk₁ : Below tree.compare es₁ k) (hk₂ : Above tree.compare es₂ k) :
    Runs (nodeKeyPosition tree a k) H (false, es₁.length) H :=
  Runs.bind (Runs.load hget) (Runs.lift (hn.scan_miss hc hk₁ hk₂) H)

theorem runs_nodeKeyPosition_hit {n : BtreeNode K} {leaf : Bool} {cs : List Addr}
    {v : FileOffset} (hget : H.get a = some n)
    (hn : NodeRep tree.layout n leaf par (es₁ ++ (k, v) :: es₂) cs)
    (hk₁ : Below tree.compare es₁ k) :
    Runs (nodeKeyPosition tree a k) H (true, es₁.length) H :=
  Runs.bind (Runs.load hget) (Runs.lift (hn.scan_hit hc hk₁) H)

/-- The child lost the key. -/
theorem Erased.step (ht : Subtree tree H (h + 1) par lo ⟨a, es₁ ++ es₂, cs₁ ++ c :: cs₂⟩)
    (hcs₁ : cs₁.length = es₁.length) (hcs₂ : cs₂.length = es₂.length)
    (hk₁ : Below tree.compare es₁ k) (hk₂ : Above tree.compare es₂ k)
    (hc' : Erased tree H H' h (some a) tree.layout.minKeys c c' k) :
    Erased tree H H' (h + 1) par lo ⟨a, es₁ ++ es₂, cs₁ ++ c :: cs₂⟩
      ⟨a, es₁ ++ es₂, cs₁ ++ c' :: cs₂⟩ k := by
  obtain ⟨hl, hr, _⟩ := context_bounds hc hcs₁.symm hcs₂.symm ht.asc hk₁ hk₂
  have htoList : toList (h + 1) ⟨a, es₁ ++ es₂, cs₁ ++ c' :: cs₂⟩
      = eraseKey tree.compare k (toList (h + 1) ⟨a, es₁ ++ es₂, cs₁ ++ c :: cs₂⟩) := by
    rw [toList_focus a c hcs₁.symm, toList_focus a c' hcs₁.symm, eraseKey_context hc hl hr,
      hc'.toList_eq]
  have hone : ∀ d : AddrTree K h, cs₁ ++ d :: cs₂ = cs₁ ++ [d] ++ cs₂ := by simp
  have hlabels : ∀ d : AddrTree K h, [d].flatMap (labels h) = labels h d := by simp
  have hasc := ascending_eraseKey (k := k) ht.asc
  rw [← htoList] at hasc
  have hnot := ht.rep.root
  rw [hone c] at ht hnot
  obtain ⟨ha, _, _⟩ := ht.window
  rw [hlabels] at ha
  have hreplace := ht.replace H' lo (es₁ ++ es₂) [c']
    (by
      obtain ⟨n, hget, hn⟩ := hnot
      refine ⟨n, (hc'.shrunk.same a ha).trans hget, ?_⟩
      simpa [childAddrs, hc'.label_eq] using hn)
    (fun d hd => by
      rw [List.mem_singleton] at hd
      subst hd
      exact ⟨hc'.subtree.rep, hc'.subtree.fits⟩)
    (by rw [hlabels]; exact hc'.subtree.nodup)
    (fun q hq => by rw [hlabels] at hq ⊢; exact hc'.shrunk.sub q hq)
    hc'.shrunk.size_eq (fun q _ hq => by rw [hlabels] at hq; exact hc'.shrunk.same q hq)
    (hone c' ▸ hasc) ht.fits.lo_le ht.fits.le_max
    (by simpa using ht.fits.children_length)
  rw [← hone, ← hone] at hreplace
  exact ⟨hreplace.1, rfl, htoList, hreplace.2⟩

include hL

/-- In a leaf. -/
theorem runs_delete_leaf {t : AddrTree K 0} (ht : Subtree tree H 0 par lo t)
    (hk : k ∈ (toList 0 t).map Prod.fst) {steps : Nat} (hsteps : 0 < steps) :
    ∃ H' t', Runs (deleteRecursive tree steps t.label k) H () H' ∧
      Erased tree H H' 0 par (lo - 1) t t' k := by
  obtain ⟨a, es, cs⟩ := t
  obtain ⟨⟨k, v⟩, hmem, rfl⟩ := List.mem_map.1 hk
  obtain ⟨es₁, es₂, rfl⟩ := List.append_of_mem (show (k, v) ∈ es from hmem)
  obtain ⟨n, hget, hn⟩ := ht.rep
  obtain ⟨s, rfl⟩ : ∃ s, steps = s + 1 := ⟨steps - 1, by omega⟩
  obtain ⟨hk₁, hk₂⟩ := ht.asc.split
  obtain ⟨n', hrun, hn'⟩ := runs_removeFromLeaf hL hget hn
  have herase : eraseKey tree.compare k
      (toList 0 (⟨a, es₁ ++ (k, v) :: es₂, cs⟩ : AddrTree K 0)) = es₁ ++ es₂ :=
    eraseKey_at hc hk₁ hk₂
  have hlo : lo ≤ (es₁ ++ (k, v) :: es₂).length := ht.fits.lo_le
  have hmax : (es₁ ++ (k, v) :: es₂).length ≤ tree.layout.maxKeys := ht.fits.le_max
  simp only [List.length_append, List.length_cons] at hlo hmax
  refine ⟨H.put a (some n'), ⟨a, es₁ ++ es₂, cs⟩, ?_, ⟨⟨n', ?_, hn'⟩, ht.nodup, ⟨?_, ?_⟩, ?_⟩, rfl,
    herase.symm, by simp, fun q hq => ?_, fun q hq => hq⟩
  · refine Runs.bind (runs_nodeKeyPosition_hit hc hget hn hk₁) ?_
    exact Runs.bind (Runs.load hget) (Runs.ite_pos hn.leaf_eq hrun)
  · exact Heap.get_put_self (Heap.lt_size_of_get hget) _
  · show lo - 1 ≤ (es₁ ++ es₂).length
    rw [List.length_append]; omega
  · show (es₁ ++ es₂).length ≤ _
    rw [List.length_append]; omega
  · show Ascending tree.compare (es₁ ++ es₂)
    rw [← herase]
    exact ascending_eraseKey ht.asc
  · exact Heap.get_put_ne (by simpa [labels] using hq) _

/-- After the rebalancing of `node`, the last entry of the child goes into the slot where the
second scan stops. -/
theorem runs_replaceKey_at {as₁ as₂ : List (Entry K)} {ds₁ ds₂ : List (AddrTree K h)}
    {d : AddrTree K h} {de : List (Entry K)} {y : Entry K} {pos : Nat} {p : BtreeNode K}
    (hens : Runs (ensureMinKeys tree a pos) H () H')
    (ht : Subtree tree H' (h + 1) par lo ⟨a, as₁ ++ as₂, ds₁ ++ d :: ds₂⟩)
    (hlen : ds₁.length = as₁.length) (hk₁ : Below tree.compare as₁ k)
    (hk₂ : ∀ e ∈ as₂.head?, tree.compare k e.1 ≤ 0)
    (hroom : as₁.length < tree.layout.maxKeys) (hd : d.entries = de ++ [y])
    (hget : H'.get a = some p) :
    ∃ ks os, writeAt p.keys as₁.length y.1 = .ok ks ∧
      writeAt p.offsets as₁.length y.2 = .ok os ∧
      Runs (replaceKey tree a k pos) H (d.label, y.1)
        (H'.put a (some { p with keys := ks, offsets := os })) := by
  obtain ⟨p', hget', hp⟩ := ht.rep.root
  obtain rfl : p' = p := Option.some.inj (hget'.symm.trans hget)
  have hdmem : d ∈ ds₁ ++ d :: ds₂ := by simp
  obtain ⟨dn, hdget, hdn⟩ := (ht.rep.child hdmem).root
  have hmax := hL.maxKeys_le
  have hdle := hdn.count_le
  have hdcount := hdn.count_eq
  rw [hd, List.length_append, List.length_singleton] at hdle hdcount
  have hlast : d.entries[u16 ((dn.keyCount : Int) - 1)]? = some y := by
    rw [hdcount, u16_sub_one (by omega) (by omega), hd]
    simp
  have hks : writeAt p'.keys as₁.length y.1 = .ok (p'.keys.set as₁.length y.1) :=
    if_pos (by rw [hp.keys_len]; exact hroom)
  have hos : writeAt p'.offsets as₁.length y.2 = .ok (p'.offsets.set as₁.length y.2) :=
    if_pos (by rw [hp.offsets_len]; exact hroom)
  refine ⟨_, _, hks, hos, ?_⟩
  refine Runs.bind hens (Runs.bind (runs_nodeKeyPosition hc hget hp hk₁ hk₂) ?_)
  refine Runs.bind (ht.runs_childAt (c := d) (by simp [← hlen])) ?_
  refine Runs.bind (Runs.load hdget) (Runs.bind (Runs.lift (hdn.read_key hlast) _) ?_)
  refine Runs.bind (Runs.lift (hdn.read_offset hlast) _) (Runs.bind (Runs.load hget) ?_)
  refine Runs.bind (Runs.lift hks _) (Runs.bind (Runs.lift hos _) ?_)
  exact Runs.bind (Runs.store hget _) (Runs.pure _ _)

/-- Where the key is still there, the last entry of the child takes its place. -/
theorem runs_replaceKey {as₁ : List (Entry K)} {ds₁ ds₂ : List (AddrTree K h)} {d : AddrTree K h}
    {v : FileOffset} {de : List (Entry K)} {y : Entry K} {pos : Nat}
    (hens : Runs (ensureMinKeys tree a pos) H () H')
    (ht : Subtree tree H' (h + 1) par lo ⟨a, as₁ ++ (k, v) :: es₂, ds₁ ++ d :: ds₂⟩)
    (hlen : ds₁.length = as₁.length) (hk : Below tree.compare as₁ k)
    (hd : d.entries = de ++ [y]) :
    ∃ n, Runs (replaceKey tree a k pos) H (d.label, y.1) (H'.put a (some n)) ∧
      NodeRep tree.layout n false par (as₁ ++ y :: es₂) ((ds₁ ++ d :: ds₂).map Node.label) := by
  obtain ⟨p, hget, hp⟩ := ht.rep.root
  have hcount : (as₁ ++ (k, v) :: es₂).length ≤ tree.layout.maxKeys := hp.count_le
  rw [List.length_append, List.length_cons] at hcount
  have hself : ∀ e ∈ ((k, v) :: es₂).head?, tree.compare k e.1 ≤ 0 := by
    intro e he
    obtain rfl : (k, v) = e := by simpa using he
    exact Int.le_of_eq (hc.self k)
  obtain ⟨ks, os, hks, hos, hrun⟩ := runs_replaceKey_at hL hc hens ht hlen hk hself (by omega) hd
    hget
  have hpk : Slots p.keys (as₁.map Prod.fst ++ k :: es₂.map Prod.fst) tree.layout.maxKeys := by
    simpa using hp.keys
  have hpo : Slots p.offsets (as₁.map Prod.snd ++ v :: es₂.map Prod.snd)
      tree.layout.maxKeys := by
    simpa using hp.offsets
  obtain ⟨ks', hks', hkslots⟩ := hpk.set y.1
  obtain ⟨os', hos', hoslots⟩ := hpo.set y.2
  rw [List.length_map, hks] at hks'
  rw [List.length_map, hos] at hos'
  cases hks'
  cases hos'
  refine ⟨_, hrun, hp.update rfl rfl ?_ (by simpa using hkslots) (by simpa using hoslots) hp.slots⟩
  show p.keyCount = _
  rw [hp.count_eq]
  simp

/-- In a node just above the leaves: the greatest key below the child takes the place of the
key and leaves the child. -/
theorem runs_replace_leaf {as₁ : List (Entry K)} {ds₁ ds₂ : List (AddrTree K 0)}
    {d : AddrTree K 0} {v : FileOffset} {pos : Nat}
    (hens : Runs (ensureMinKeys tree a pos) H () H')
    (ht : Subtree tree H' 1 par lo ⟨a, as₁ ++ (k, v) :: es₂, ds₁ ++ d :: ds₂⟩)
    (hlen : ds₁.length = as₁.length) (hlen₂ : ds₂.length = ((k, v) :: es₂).length)
    (hk : Below tree.compare as₁ k) (hspare : tree.layout.minKeys < d.entries.length)
    {steps : Nat} (hsteps : 0 < steps) :
    ∃ y H₁ H₂ d', toList 0 d = toList 0 d' ++ [y] ∧
      Runs (replaceKey tree a k pos) H (d.label, y.1) H₁ ∧
      RootRep tree.layout H₁ 1 par ⟨a, as₁ ++ y :: es₂, ds₁ ++ d :: ds₂⟩ ∧
      Runs (deleteRecursive tree steps d.label y.1) H₁ () H₂ ∧
      Subtree tree H₂ 1 par lo ⟨a, as₁ ++ y :: es₂, ds₁ ++ d' :: ds₂⟩ ∧
      Shrunk H' H₂ (labels 1 ⟨a, as₁ ++ (k, v) :: es₂, ds₁ ++ d :: ds₂⟩)
        (labels 1 ⟨a, as₁ ++ y :: es₂, ds₁ ++ d' :: ds₂⟩) := by
  have hne : d.entries ≠ [] := List.length_pos_iff.1 (Nat.zero_lt_of_lt hspare)
  obtain ⟨de, y, hde⟩ : ∃ de y, d.entries = de ++ [y] :=
    ⟨_, _, (List.dropLast_append_getLast hne).symm⟩
  obtain ⟨n, hrun₁, hn⟩ := runs_replaceKey hL hc hens ht hlen hk hde
  obtain ⟨p, hget, _⟩ := ht.rep.root
  have hroot : (H'.put a (some n)).get a = some n := Heap.get_put_self (Heap.lt_size_of_get hget) _
  have hput : ∀ q, q ≠ a → (H'.put a (some n)).get q = H'.get q := fun q hq =>
    Heap.get_put_ne hq _
  have hone : ∀ e : AddrTree K 0, ds₁ ++ e :: ds₂ = ds₁ ++ [e] ++ ds₂ := by simp
  have hlabels : ∀ e : AddrTree K 0, [e].flatMap (labels 0) = labels 0 e := by simp
  obtain ⟨r, ds, rfl⟩ : ∃ r ds, ds₂ = r :: ds :=
    List.exists_cons_of_length_pos (by rw [hlen₂]; simp)
  have hfocus : toList 1 ⟨a, as₁ ++ (k, v) :: es₂, ds₁ ++ d :: r :: ds⟩
      = weaveLeft as₁ (ds₁.map (toList 0)) ++ (toList 0 d ++ (k, v) :: toList 0 r)
        ++ weaveRight es₂ (ds.map (toList 0)) := toList_focus_two a d r (k, v) hlen.symm
  have hasc := ht.asc
  rw [hfocus] at hasc
  have hdasc : Ascending tree.compare (toList 0 d) :=
    (ascending_append.1 (ascending_append.1 (ascending_append.1 hasc).1).2.1).1
  -- the greatest key leaves the child
  have ht' := ht
  rw [hone] at ht'
  obtain ⟨hnot, _, _⟩ := ht'.window
  rw [hlabels] at hnot
  have hdt : Subtree tree (H'.put a (some n)) 0 (some a) (tree.layout.minKeys + 1) d := by
    have hchild := ht.child hdasc
    refine ⟨hchild.rep.frame fun q hq => hput q ?_, hchild.nodup, hchild.fits.of_le hspare, hdasc⟩
    exact fun heq => hnot (heq ▸ hq)
  have hymem : y.1 ∈ (toList 0 d).map Prod.fst := by
    show y.1 ∈ d.entries.map Prod.fst
    rw [hde]
    simp
  obtain ⟨H₂, d', hrun₂, hd'⟩ := runs_delete_leaf hL hc hdt hymem hsteps
  have hdlist : toList 0 d = de ++ [y] := hde
  have hd'list : toList 0 d' = de := by
    have hsplit : Ascending tree.compare (de ++ y :: []) := hdlist ▸ hdasc
    rw [hd'.toList_eq, hdlist]
    simpa using eraseKey_at (v := y.2) hc hsplit.split.1 above_nil
  -- what is left is a tree
  have hnewasc : Ascending tree.compare (toList 1 ⟨a, as₁ ++ y :: es₂, ds₁ ++ d' :: r :: ds⟩) := by
    rw [toList_focus_two a d' r y hlen.symm, hd'list]
    refine hasc.sublist ?_
    rw [hdlist]
    simp
  have hlens : (as₁ ++ y :: es₂).length = (as₁ ++ (k, v) :: es₂).length := by simp
  have hreplace := ht'.replace H₂ lo (as₁ ++ y :: es₂) [d']
    (by
      refine ⟨n, ?_, ?_⟩
      · rw [hd'.shrunk.same a hnot]
        exact hroot
      · simpa [hd'.label_eq] using hn)
    (fun e he => by
      rw [List.mem_singleton] at he
      subst he
      exact ⟨hd'.subtree.rep, hd'.subtree.fits⟩)
    (by rw [hlabels]; exact hd'.subtree.nodup)
    (fun q hq => by rw [hlabels] at hq ⊢; exact hd'.shrunk.sub q hq)
    (hd'.shrunk.size_eq.trans (Heap.size_put _ _ _))
    (fun q hqa hq => by rw [hlabels] at hq; rw [hd'.shrunk.same q hq, hput q hqa])
    (hone d' ▸ hnewasc) (hlens ▸ ht.fits.lo_le) (hlens ▸ ht.fits.le_max)
    (by simpa using ht.fits.children_length)
  rw [← hone, ← hone] at hreplace
  refine ⟨y, _, H₂, d', by rw [hdlist, hd'list], hrun₁, ⟨n, hroot, hn⟩, hrun₂, hreplace⟩

/-- In a node just above the leaves that holds the key: the greatest key below takes
its place. -/
theorem runs_delete_hit {cs₁ cs₂ : List (AddrTree K 0)} {c : AddrTree K 0} {v : FileOffset}
    (ht : Subtree tree H 1 par lo ⟨a, es₁ ++ (k, v) :: es₂, cs₁ ++ c :: cs₂⟩)
    (hcs₁ : cs₁.length = es₁.length) (hcs₂ : cs₂.length = ((k, v) :: es₂).length)
    (hk₁ : Below tree.compare es₁ k)
    (hsafe : safeAt tree.compare tree.layout.minKeys tree.layout.maxKeys k 0
      (deleteSafe tree.compare tree.layout.minKeys tree.layout.maxKeys k 0) es₁
      ((k, v) :: es₂) cs₁ c cs₂) {steps : Nat} (hsteps : 1 < steps) :
    ∃ H' t', Runs (deleteRecursive tree steps a k) H () H' ∧
      Erased tree H H' 1 par (lo - 1) ⟨a, es₁ ++ (k, v) :: es₂, cs₁ ++ c :: cs₂⟩ t' k := by
  obtain ⟨n, hget, hn⟩ := ht.rep.root
  obtain ⟨s, rfl⟩ : ∃ s, steps = s + 1 := ⟨steps - 1, by omega⟩
  obtain ⟨_, H₁, as₁, ds₁, d, hens, hprep⟩ := exists_prepared_hit hL hc ht hcs₁ hcs₂ hk₁ hsafe
  have ht₁ := hprep.subtree
  obtain ⟨y, H₂, H₃, d', hdlist, hrun₁, _, hrun₂, hsub, hshrunk⟩ := runs_replace_leaf hL hc hens
    ht₁ hprep.left_len hcs₂ hprep.below hprep.spare (show 0 < s by omega)
  refine ⟨H₃, _, ?_, hsub, rfl, ?_, hprep.shrunk.trans hshrunk⟩
  · have hpos := runs_nodeKeyPosition_hit hc hget hn hk₁
    exact (deleteRecursive_hit hpos hget hn.leaf_eq).2 ⟨_, _, hrun₁, hrun₂⟩
  · -- `y` stands where the key stood, and the key is gone
    obtain ⟨r, ds, rfl⟩ : ∃ r ds, cs₂ = r :: ds :=
      List.exists_cons_of_length_pos (by rw [hcs₂]; simp)
    have hlen := hprep.left_len
    have hold := hprep.toList_eq
    have hasc := ht₁.asc
    have hfocus : toList 1 ⟨a, as₁ ++ (k, v) :: es₂, ds₁ ++ d :: r :: ds⟩
        = (weaveLeft as₁ (ds₁.map (toList 0)) ++ (toList 0 d' ++ [y])) ++
          (k, v) :: (toList 0 r ++ weaveRight es₂ (ds.map (toList 0))) := by
      rw [toList_focus_two a d r (k, v) hlen.symm, hdlist]
      simp
    rw [hfocus] at hasc hold
    rw [toList_focus_two a d' r y hlen.symm, ← hold, eraseKey_at hc hasc.split.1 hasc.split.2]
    simp

/-- A safe `delete_recursive` of a key that is there removes the key and nothing else. -/
theorem deleteRecursive_spec {h : Nat} {par : Option Addr} {lo : Nat} {t : AddrTree K h}
    (ht : Subtree tree H h par lo t) (hlo : rootMin h ≤ lo)
    (hk : k ∈ (toList h t).map Prod.fst)
    (hsafe : deleteSafe tree.compare tree.layout.minKeys tree.layout.maxKeys k h t)
    (steps : Nat) (hsteps : h < steps) :
    ∃ H' t', Runs (deleteRecursive tree steps t.label k) H () H' ∧
      Erased tree H H' h par (lo - 1) t t' k := by
  induction h generalizing H par lo steps with
  | zero => exact runs_delete_leaf hL hc ht hk hsteps
  | succ h ih =>
    have hfit := (fits_iff.1 ht.fits).2.2
    have hsub := entries_sublist_toList hfit
    have hentries : 0 < t.entries.length := Nat.lt_of_lt_of_le hlo ht.fits.lo_le
    obtain ⟨s, rfl⟩ : ∃ s, steps = s + 1 := ⟨steps - 1, by omega⟩
    by_cases hhit : k ∈ t.entries.map Prod.fst
    · obtain ⟨a, es, cs⟩ := t
      obtain ⟨⟨k, v⟩, hmem, rfl⟩ := List.mem_map.1 hhit
      obtain ⟨es₁, es₂, rfl⟩ := List.append_of_mem (show (k, v) ∈ es from hmem)
      obtain ⟨cs₁, c, cs₂, rfl, hcs₁, hcs₂⟩ := exists_focus hfit.1
      have hk₁ := (ht.asc.sublist hsub).split.1
      rw [deleteSafe_focus hcs₁ hk₁ (by simp [hc.self])] at hsafe
      obtain ⟨rfl, _⟩ := exists_prepared_hit hL hc ht hcs₁ hcs₂ hk₁ hsafe
      exact runs_delete_hit hL hc ht hcs₁ hcs₂ hk₁ hsafe hsteps
    · obtain ⟨es₁, es₂, cs₁, c, cs₂, heq, hcs₁, hcs₂, hk₁, hk₂⟩ :=
        exists_child hc hfit ht.asc hhit
      generalize t.label = a at heq
      subst heq
      have hnotlt : ∀ e ∈ es₂.head?, ¬tree.compare e.1 k < 0 := fun e he =>
        hc.asymm (hk₂ e (List.mem_of_head? he))
      rw [deleteSafe_focus hcs₁ hk₁ hnotlt] at hsafe
      obtain ⟨H₁, as₁, as₂, ds₁, d, ds₂, hens, hprep, habove, hsafe'⟩ :=
        exists_prepared_miss hL hc ht hentries hcs₁ hcs₂ hk₁ hk₂ hsafe
      have ht₁ := hprep.subtree
      obtain ⟨n, hget, hn⟩ := ht.rep.root
      obtain ⟨n₁, hget₁, hn₁⟩ := ht₁.rep.root
      obtain ⟨_, _, hdasc⟩ := context_bounds hc hprep.left_len.symm hprep.right_len.symm
        ht₁.asc hprep.below habove
      have hdt := ht₁.child hdasc
      have hkd : k ∈ (toList h d).map Prod.fst :=
        mem_child hc hprep.left_len.symm hprep.right_len.symm ht₁.asc hprep.below habove
          (hprep.toList_eq.symm ▸ hk)
      have hmin : rootMin h ≤ tree.layout.minKeys + 1 := by
        cases h
        · exact Nat.zero_le _
        · exact Nat.le_add_left 1 _
      obtain ⟨H₂, d', hrun, hd'⟩ := ih (hdt.of_le hprep.spare) hmin hkd hsafe' s (by omega)
      have hstep := Erased.step hc ht₁ hprep.left_len hprep.right_len hprep.below habove hd'
      refine ⟨H₂, _, ?_, hstep.subtree, rfl, hprep.toList_eq ▸ hstep.toList_eq,
        hprep.shrunk.trans hstep.shrunk⟩
      refine Runs.bind (runs_nodeKeyPosition_miss hc hget hn hk₁ hk₂) ?_
      refine Runs.bind hens ?_
      refine Runs.bind (runs_nodeKeyPosition_miss hc hget₁ hn₁ hprep.below habove) ?_
      exact Runs.bind (ht₁.runs_childAt (c := d) (by simp [← hprep.left_len])) hrun

end Induction

end Maxql.Index
