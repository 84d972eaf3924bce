import Maxql.Index.BtreeDeleteTree
import Maxql.Index.BtreeInsertTree
import Maxql.Lib.Bytes

/-!
# The B-tree as a finite map

Insertion and search behave as on a finite map in every state.  Deletion does
so wherever `deleteOk` holds, a condition that is read off the nodes in memory
before the call.  `Reached` are the states of the runs that start with
`btree_create`, insert only absent keys and delete only under this condition,
each with the finite map that the run stands for.

At the end is a run that leaves the condition: four keys in nodes of three, two
deletions, and the second one is undone while a key that was never deleted is
lost.
-/

namespace Maxql.Index

open Program SortedEntries Multiway Bytes

variable {K : Type}

/-! ## Reading the tree back -/

def nodeEntries (n : BtreeNode K) : List (Entry K) :=
  (n.keys.take n.keyCount).zip (n.offsets.take n.keyCount)

/-- The levels below the node at `a`, along the first children. -/
def heightAt (H : Heap (BtreeNode K)) : (fuel : Nat) → Addr → Option Nat
  | 0, _ => none
  | fuel + 1, a => do
    let n ← H.get a
    if btreeNodeIsLeaf n then some 0
    else
      let c ← n.children.head?.join
      (heightAt H fuel c).map (· + 1)

/-- The tree of height `h` below the node at `a`. -/
def treeAt (H : Heap (BtreeNode K)) : (h : Nat) → Addr → Option (AddrTree K h)
  | 0, a => do
    let n ← H.get a
    some ⟨a, nodeEntries n, []⟩
  | h + 1, a => do
    let n ← H.get a
    let cs ← (n.children.take (n.keyCount + 1)).mapM fun p => p.bind (treeAt H h)
    some ⟨a, nodeEntries n, cs⟩

/-- The deletion of `key` goes well in this state. -/
def deleteOk (tree : Btree K) (H : Heap (BtreeNode K)) (key : K) : Bool :=
  match tree.root with
  | none => true
  | some root =>
    match heightAt H H.size root with
    | none => false
    | some h =>
      match treeAt H h root with
      | none => false
      | some t => deleteSafe tree.compare tree.layout.minKeys tree.layout.maxKeys key h t

section Reading

variable {L : BtreeLayout} {H : Heap (BtreeNode K)} {h : Nat} {par : Option Addr}

theorem NodeRep.nodeEntries {n : BtreeNode K} {leaf : Bool} {es : List (Entry K)}
    {cs : List Addr} (hn : NodeRep L n leaf par es cs) : nodeEntries n = es := by
  obtain ⟨jk, hkeys⟩ := hn.keys_eq
  obtain ⟨jo, hoffsets⟩ := hn.offsets_eq
  have hk : n.keys.take n.keyCount = es.map Prod.fst := by
    rw [hkeys, hn.count_eq, List.take_left' (by simp)]
  have ho : n.offsets.take n.keyCount = es.map Prod.snd := by
    rw [hoffsets, hn.count_eq, List.take_left' (by simp)]
  rw [Index.nodeEntries, hk, ho, List.zip_map', List.map_id'']
  simp

theorem mapM_bind_some {α β : Type} {f : α → Option β} :
    ∀ {as : List α} {bs : List β}, List.Forall₂ (fun a b => f a = some b) as bs →
      as.mapM f = some bs
  | [], _, .nil => rfl
  | _ :: _, _, .cons h hs => by
    rw [List.mapM_cons, h, mapM_bind_some hs]
    rfl

theorem Rep.treeAt {min max lo : Nat} {t : AddrTree K h} (ht : Rep L H h par t)
    (hfit : Fits min max h lo t) : treeAt H h t.label = some t := by
  induction h generalizing par lo with
  | zero =>
    obtain ⟨n, hget, hn⟩ := ht
    obtain ⟨a, es, cs⟩ := t
    have hcs : cs = [] := by
      cases cs with
      | nil => rfl
      | cons c _ => exact c.elim
    rw [Index.treeAt, hget, Option.bind_eq_bind, Option.bind_some, hn.nodeEntries, hcs]
  | succ h ih =>
    obtain ⟨⟨n, hget, hn⟩, hcs⟩ := ht
    have hlen := hfit.children_length
    obtain ⟨junk, hchildren⟩ := hn.children_eq
    have htake : n.children.take (n.keyCount + 1) = (t.children.map Node.label).map some := by
      rw [hchildren, hn.count_eq, List.take_left' (by simp [childAddrs, hlen])]
      rfl
    have hmap : (n.children.take (n.keyCount + 1)).mapM (fun p => p.bind (Index.treeAt H h))
        = some t.children := by
      rw [htake]
      refine mapM_bind_some ?_
      rw [List.map_map, List.forall₂_map_left_iff, List.forall₂_same]
      exact fun c hc => ih (hcs c hc) (hfit.child hc)
    rw [Index.treeAt, hget, Option.bind_eq_bind, Option.bind_some, hmap, hn.nodeEntries]
    rfl

theorem Rep.heightAt {min max lo : Nat} {t : AddrTree K h} (ht : Rep L H h par t)
    (hfit : Fits min max h lo t) (fuel : Nat) (hfuel : h < fuel) :
    heightAt H fuel t.label = some h := by
  induction h generalizing par lo fuel with
  | zero =>
    obtain ⟨n, hget, hn⟩ := ht
    obtain ⟨f, rfl⟩ : ∃ f, fuel = f + 1 := ⟨fuel - 1, by omega⟩
    rw [Index.heightAt, hget, Option.bind_eq_bind, Option.bind_some,
      if_pos (show btreeNodeIsLeaf n = true from hn.leaf_eq)]
  | succ h ih =>
    obtain ⟨⟨n, hget, hn⟩, hcs⟩ := ht
    obtain ⟨f, rfl⟩ : ∃ f, fuel = f + 1 := ⟨fuel - 1, by omega⟩
    have hlen := hfit.children_length
    obtain ⟨c, cs, hc⟩ : ∃ c cs, t.children = c :: cs :=
      List.exists_cons_of_length_pos (by omega)
    obtain ⟨junk, hchildren⟩ := hn.children_eq
    have hfirst : n.children.head?.join = some c.label := by
      rw [hchildren]
      simp [childAddrs, hc]
    have hmem : c ∈ t.children := hc ▸ List.mem_cons_self
    rw [Index.heightAt, hget, Option.bind_eq_bind, Option.bind_some,
      if_neg (by simp [hn.leaf_eq]), hfirst, Option.bind_eq_bind, Option.bind_some,
      ih (hcs c hmem) (hfit.child hmem) f (by omega)]
    rfl

end Reading

/-! ## The operations -/

section Operations

variable {tree tree' : Btree K} (hL : tree.layout.Sound) (hc : TotalCmp tree.compare)
  {H H' : Heap (BtreeNode K)} {entries : List (Entry K)} {k : K}

include hL

/-- The end of `btree_delete`: an inner root without entries gives way to its child. -/
theorem Erased.newRoot {h : Nat} {t t' : AddrTree K h} (hroot : tree.root = some t.label)
    (he : Erased tree H H' h none (rootMin h - 1) t t' k) :
    ∃ root H'', Runs (do
          let r ← load t.label
          if r.keyCount = 0 ∧ ¬btreeNodeIsLeaf r then
            let newRoot ← readAt r.children 0
            let newRoot ← deref newRoot
            setParent newRoot none
            free t.label
            pure (true, { tree with root := some newRoot })
          else pure (true, tree) : NodeProg K (Bool × Btree K))
        H' (true, { tree with root }) H'' ∧
      Holds { tree with root } H'' (toList h t') := by
  have ht := he.subtree
  have hlabel := he.label_eq
  obtain ⟨n, hget, hn⟩ := ht.rep.root
  rw [hlabel] at hget
  by_cases hempty : n.keyCount = 0 ∧ ¬btreeNodeIsLeaf n
  · obtain ⟨hzero, hleaf⟩ := hempty
    cases h with
    | zero => exact absurd hn.leaf_eq hleaf
    | succ h =>
      obtain ⟨a, es, cs⟩ := t'
      have hes : es = [] := by
        have := hn.count_eq
        exact List.eq_nil_of_length_eq_zero (by rw [← this]; exact hzero)
      subst hes
      have hlen := ht.fits.children_length
      obtain ⟨c, rfl⟩ := List.length_eq_one_iff.1 (show cs.length = 1 from hlen)
      have hmem : c ∈ [c] := List.mem_singleton_self c
      have htoList : toList (h + 1) (⟨a, [], [c]⟩ : AddrTree K (h + 1)) = toList h c := by
        simp [toList, weave, weaveRight]
      have hct : Subtree tree H' h (some a) tree.layout.minKeys c :=
        @Subtree.child _ _ _ _ _ _ _ _ [] [] c ht (htoList ▸ ht.asc)
      have hnot : a ∉ labels h c := by
        have := (List.nodup_cons.1 ht.nodup).1
        simpa using this
      have hca : c.label ≠ a := fun heq => hnot (heq ▸ label_mem_labels h c)
      obtain ⟨m, hm, _⟩ := hct.rep.parent
      obtain ⟨H₁, hrun, hsize, hset, hsame⟩ := runs_setParent hm none
      subst hlabel
      have hget₁ : H₁.get t.label = some n := by
        rw [hsame t.label (by simpa using hca.symm)]
        exact hget
      have hrep : Rep tree.layout (H₁.put t.label none) h none c := by
        refine hct.rep.adopted ?_ (fun q hq hne => ?_) hct.nodup
        · rw [Heap.get_put_ne hca, hset c.label (by simp)]
        · rw [Heap.get_put_ne (fun heq : q = t.label => hnot (heq ▸ hq)),
            hsame q (by simpa using hne)]
      have hmin : rootMin h ≤ tree.layout.minKeys := by
        have := hL.minKeys_eq
        have := hL.three_le
        cases h
        · exact Nat.zero_le _
        · show 1 ≤ _
          omega
      have hread : readAt n.children 0 = .ok (some c.label) := hn.read_child rfl
      refine ⟨some c.label, H₁.put t.label none, ?_, h, c, rfl, ?_, htoList.symm⟩
      · refine Runs.bind (Runs.load hget) (Runs.ite_pos ⟨hzero, hleaf⟩ ?_)
        refine Runs.bind (Runs.lift hread _) (Runs.bind (Runs.deref _ _) ?_)
        exact Runs.bind hrun (Runs.bind (Runs.free hget₁) (Runs.pure _ _))
      · exact (Subtree.mk hrep hct.nodup
          (hct.fits.of_le (Nat.le_trans hmin hct.fits.lo_le)) hct.asc).setRoot _
  · refine ⟨some t.label, H', ?_, h, t', hlabel, ?_, rfl⟩
    · refine Runs.bind (Runs.load hget) (Runs.ite_neg hempty ?_)
      rw [← hroot]
      exact Runs.pure _ _
    · refine (ht.of_le ?_).setRoot _
      cases h with
      | zero => exact Nat.zero_le _
      | succ h =>
        have hnz : n.keyCount ≠ 0 := fun hz => hempty ⟨hz, by simp [hn.leaf_eq]⟩
        rw [hn.count_eq] at hnz
        exact Nat.pos_of_ne_zero hnz

omit hL in
/-- `btree_delete` of a key that the search does not find. -/
theorem runs_btreeDelete_absent (hsearch : Runs (btreeSearch tree k) H none H) :
    Runs (btreeDelete tree k) H (false, tree) H :=
  Runs.bind hsearch (Runs.pure _ _)

include hc in
/-- `btree_delete`: an absent key changes nothing, and a key that is there is
removed, and only that key, wherever `deleteOk` holds. -/
theorem runs_btreeDelete (hH : Holds tree H entries)
    (hok : k ∈ entries.map Prod.fst → deleteOk tree H k) :
    ∃ root H', Runs (btreeDelete tree k) H
        ((lookup tree.compare entries k).isSome, { tree with root }) H' ∧
      Holds { tree with root } H' (eraseKey tree.compare k entries) := by
  have hsearch := runs_btreeSearch hL hc hH k
  by_cases hk : k ∈ entries.map Prod.fst
  · obtain ⟨⟨k, v⟩, hmem, rfl⟩ := List.mem_map.1 hk
    rw [lookup_of_mem hc hH.ascending hmem] at hsearch ⊢
    replace hok := hok hk
    unfold Holds at hH
    split at hH
    · rw [hH] at hmem
      exact absurd hmem List.not_mem_nil
    · next root hroot =>
      obtain ⟨h, t, rfl, ht, rfl⟩ := hH
      have hheight := ht.rep.height_lt_size ht.fits ht.nodup
      simp only [deleteOk, hroot, ht.rep.heightAt ht.fits H.size hheight,
        ht.rep.treeAt ht.fits] at hok
      obtain ⟨H₁, t', hrun, he⟩ := deleteRecursive_spec hL hc ht (Nat.le_refl _) hk hok H.size
        hheight
      obtain ⟨root, H', hrest, hH'⟩ := he.newRoot hL hroot
      refine ⟨root, H', Runs.bind hsearch ?_, he.toList_eq ▸ hH'⟩
      have hderef : Runs (liftM (deref tree.root) : NodeProg K Addr) H t.label H := by
        rw [hroot]
        exact Runs.deref _ H
      exact Runs.bind hderef (Runs.bind (Runs.get H) (Runs.bind hrun hrest))
  · rw [lookup_eq_none hc hk] at hsearch ⊢
    rw [eraseKey_of_not_mem hc hk]
    exact ⟨tree.root, H, runs_btreeDelete_absent hsearch, hH⟩

omit hL in
/-- A tree of so few entries is one node. -/
theorem Holds.deleteOk_of_few (hH : Holds tree H entries)
    (hfew : entries.length ≤ 2 * tree.layout.minKeys) (k : K) : deleteOk tree H k := by
  unfold Holds at hH
  cases hroot : tree.root with
  | none => simp only [deleteOk, hroot]
  | some root =>
    simp only [hroot] at hH
    obtain ⟨h, t, rfl, ht, rfl⟩ := hH
    have hheight := ht.rep.height_lt_size ht.fits ht.nodup
    simp only [deleteOk, hroot, ht.rep.heightAt ht.fits H.size hheight, ht.rep.treeAt ht.fits]
    cases h with
    | zero => rfl
    | succ h => exact absurd (ht.fits.lt_length_toList Nat.zero_lt_one) (Nat.not_lt.2 hfew)

/-! ## One step of a run -/

include hc in
/-- After an insertion of a key that was not there. -/
theorem Holds.inserted [Inhabited K] {tree' : Btree K} {H' : Heap (BtreeNode K)}
    (hH : Holds tree H entries) (hk : k ∉ entries.map Prod.fst) (hrun : Runs (btreeInsert tree k v) H tree' H') :
    tree'.layout = tree.layout ∧ tree'.compare = tree.compare ∧
      Holds tree' H' (insertEntry tree.compare (k, v) entries) := by
  obtain ⟨root, H₁, hrun₁, hH₁⟩ := runs_btreeInsert (v := v) hL hc hH hk
  obtain ⟨rfl, rfl⟩ := hrun.unique hrun₁
  exact ⟨rfl, rfl, hH₁⟩

include hc in
/-- After a deletion where `deleteOk` holds. -/
theorem Holds.deleted {tree' : Btree K} {H' : Heap (BtreeNode K)} {deleted : Bool}
    (hH : Holds tree H entries) (hok : k ∈ entries.map Prod.fst → deleteOk tree H k)
    (hrun : Runs (btreeDelete tree k) H (deleted, tree') H') :
    tree'.layout = tree.layout ∧ tree'.compare = tree.compare ∧
      Holds tree' H' (eraseKey tree.compare k entries) := by
  obtain ⟨root, H₁, hrun₁, hH₁⟩ := runs_btreeDelete hL hc hH hok
  obtain ⟨heq, rfl⟩ := hrun.unique hrun₁
  obtain ⟨-, rfl⟩ := Prod.mk.injEq .. ▸ heq
  exact ⟨rfl, rfl, hH₁⟩

end Operations

/-! ## Runs -/

section Runs

variable [Inhabited K] [DecidableEq K]

/-- The states that a run can reach from `btree_create`, with the finite map that the
run stands for. -/
inductive Reached (nodeSize keySize : Nat) (compare : K → K → Int) :
    Btree K → Heap (BtreeNode K) → (K → Option FileOffset) → Prop where
  | create : Reached nodeSize keySize compare (btreeCreate nodeSize keySize compare)
      Heap.empty fun _ => none
  | insert {tree tree' : Btree K} {H H' : Heap (BtreeNode K)} {m : K → Option FileOffset}
      {k : K} {v : FileOffset} (hr : Reached nodeSize keySize compare tree H m)
      (habsent : m k = none) (hrun : Runs (btreeInsert tree k v) H tree' H') :
      Reached nodeSize keySize compare tree' H' (Function.update m k (some v))
  | delete {tree tree' : Btree K} {H H' : Heap (BtreeNode K)} {m : K → Option FileOffset}
      {k : K} {deleted : Bool} (hr : Reached nodeSize keySize compare tree H m)
      (hok : m k ≠ none → deleteOk tree H k)
      (hrun : Runs (btreeDelete tree k) H (deleted, tree') H') :
      Reached nodeSize keySize compare tree' H' (Function.update m k none)

variable {nodeSize keySize : Nat} {compare : K → K → Int} {tree : Btree K}
  {H : Heap (BtreeNode K)} {m : K → Option FileOffset}

omit [Inhabited K] [DecidableEq K] in
theorem mem_keys_iff (hc : TotalCmp compare) {entries : List (Entry K)} {k : K} :
    k ∈ entries.map Prod.fst ↔ lookup compare entries k ≠ none := by
  refine ⟨fun hk hnone => ?_, fun hk => ?_⟩
  · obtain ⟨⟨k, v⟩, hmem, rfl⟩ := List.mem_map.1 hk
    obtain ⟨es₁, es₂, rfl⟩ := List.append_of_mem hmem
    have hfind := List.find?_eq_none.1 (Option.map_eq_none_iff.1 hnone) (k, v) (by simp)
    simp [hc.self] at hfind
  · by_contra hnot
    exact hk (lookup_eq_none hc hnot)

/-- The invariant of the runs: the tree in memory holds the entries of the map. -/
theorem Reached.holds (hmax : 3 ≤ (btreeLayoutCreate nodeSize keySize).maxKeys)
    (hc : TotalCmp compare) (hr : Reached nodeSize keySize compare tree H m) :
    tree.layout = btreeLayoutCreate nodeSize keySize ∧ tree.compare = compare ∧
      ∃ entries, Holds tree H entries ∧ m = lookup compare entries := by
  have hL := sound_btreeLayoutCreate hmax
  induction hr with
  | create => exact ⟨rfl, rfl, [], rfl, rfl⟩
  | @insert tree tree' H H' m k v _ habsent hrun ih =>
    obtain ⟨hlayout, rfl, entries, hH, rfl⟩ := ih
    have hk : k ∉ entries.map Prod.fst := fun hmem => (mem_keys_iff hc).1 hmem habsent
    obtain ⟨hlayout', hcompare', hH'⟩ := hH.inserted (hlayout ▸ hL) hc hk hrun
    exact ⟨hlayout'.trans hlayout, hcompare', _, hH',
      (lookup_insertEntry hc hH.ascending hk).symm⟩
  | @delete tree tree' H H' m k deleted _ hok hrun ih =>
    obtain ⟨hlayout, rfl, entries, hH, rfl⟩ := ih
    obtain ⟨hlayout', hcompare', hH'⟩ := hH.deleted (hlayout ▸ hL) hc
      (fun hmem => hok ((mem_keys_iff hc).1 hmem)) hrun
    exact ⟨hlayout'.trans hlayout, hcompare', _, hH', (lookup_eraseKey hc hH.ascending).symm⟩

/-- In every state of such a run, a search gives what the map gives, an insertion of
an absent key goes through, and so does a deletion under `deleteOk`, which returns
whether the key was there.  What the last two leave behind is the next state. -/
theorem btree_is_map (hmax : 3 ≤ (btreeLayoutCreate nodeSize keySize).maxKeys)
    (hc : TotalCmp compare) (hr : Reached nodeSize keySize compare tree H m) :
    (∀ k, Runs (btreeSearch tree k) H (m k) H) ∧
      (∀ k v, m k = none → ∃ tree' H', Runs (btreeInsert tree k v) H tree' H') ∧
      ∀ k, (m k ≠ none → deleteOk tree H k) →
        ∃ tree' H', Runs (btreeDelete tree k) H ((m k).isSome, tree') H' := by
  have hL := sound_btreeLayoutCreate hmax
  obtain ⟨hlayout, hcompare, entries, hH, rfl⟩ := hr.holds hmax hc
  refine ⟨fun k => ?_, fun k v hk => ?_, fun k hok => ?_⟩
  · exact hcompare ▸ runs_btreeSearch (hlayout ▸ hL) (hcompare ▸ hc) hH k
  · have hnot : k ∉ entries.map Prod.fst := fun hmem => (mem_keys_iff hc).1 hmem hk
    obtain ⟨root, H', hrun, _⟩ := runs_btreeInsert (v := v) (hlayout ▸ hL) (hcompare ▸ hc) hH hnot
    exact ⟨_, H', hrun⟩
  · obtain ⟨root, H', hrun, _⟩ := runs_btreeDelete (hlayout ▸ hL) (hcompare ▸ hc) hH
      fun hmem => hok ((mem_keys_iff hc).1 hmem)
    exact ⟨_, H', hcompare ▸ hrun⟩

end Runs

/-! ## Keys of 1020 bytes

The longest keys, four columns of 255 bytes, in nodes of 4096 bytes. -/

def longKey (b : UInt8) : Fixed 1020 :=
  ⟨b :: List.replicate 1019 0, by rw [List.length_cons, List.length_replicate]⟩

theorem longKey_inj {a b : UInt8} : longKey a = longKey b ↔ a = b := by
  constructor
  · intro h
    exact (List.cons.inj (congrArg Subtype.val h)).1
  · intro h
    rw [h]

theorem ascending_longKeys {entries : List (Entry (Fixed 1020))} {bs : List UInt8}
    (hkeys : entries.map Prod.fst = bs.map longKey) (hbs : bs.Pairwise (· < ·)) :
    Ascending (fun a b => memcmp a.1 b.1) entries := by
  have hlt : (bs.map longKey).Pairwise fun a b => memcmp a.1 b.1 < 0 :=
    List.pairwise_map.2 (hbs.imp memcmp_cons_neg)
  rw [← hkeys] at hlt
  exact List.pairwise_map.1 hlt

def longKeyTree : Btree (Fixed 1020) :=
  btreeCreate 4096 1020 fun a b => memcmp a.1 b.1

/-- The keys `1` to `n` are inserted, each with ten times its number. -/
def insertKeys : Nat → NodeProg (Fixed 1020) (Btree (Fixed 1020))
  | 0 => return longKeyTree
  | n + 1 => do
    let tree ← insertKeys n
    btreeInsert tree (longKey (n + 1).toUInt8) (10 * (n + 1)).toUInt64

/-- The map of the keys `1` to `n`. -/
def keysMap : Nat → Fixed 1020 → Option FileOffset
  | 0 => fun _ => none
  | n + 1 => Function.update (keysMap n) (longKey (n + 1).toUInt8) (some (10 * (n + 1)).toUInt64)

theorem keysMap_next {n : Nat} (hn : n < 4) : keysMap n (longKey (n + 1).toUInt8) = none := by
  have hcases : n = 0 ∨ n = 1 ∨ n = 2 ∨ n = 3 := by omega
  rcases hcases with rfl | rfl | rfl | rfl <;> simp [keysMap, longKey_inj]

theorem keysMap_two : keysMap 4 (longKey 2) = some 20 := by
  simp [keysMap, longKey_inj]

theorem keysMap_three : keysMap 4 (longKey 3) = some 30 := by
  simp [keysMap, longKey_inj]

/-- A node has room for three keys, so the fourth one splits it. -/
theorem insertKeys_reached {n : Nat} (hn : n ≤ 4) : ∃ tree H,
    Runs (insertKeys n) Heap.empty tree H ∧
      Reached 4096 1020 (fun a b => memcmp a.1 b.1) tree H (keysMap n) := by
  have hmax : 3 ≤ (btreeLayoutCreate 4096 1020).maxKeys := by decide
  have hc := totalCmp_memcmp 1020
  induction n with
  | zero => exact ⟨longKeyTree, Heap.empty, Runs.pure _ _, .create⟩
  | succ n ih =>
    obtain ⟨tree, H, hkeys, hr⟩ := ih (Nat.le_of_succ_le hn)
    have habsent := keysMap_next hn
    obtain ⟨hlayout, hcompare, entries, hH, hmap⟩ := hr.holds hmax hc
    have hk : longKey (n + 1).toUInt8 ∉ entries.map Prod.fst := by
      rw [mem_keys_iff hc, ← hmap]
      exact not_not.2 habsent
    obtain ⟨root, H', hrun, -⟩ := runs_btreeInsert (v := (10 * (n + 1)).toUInt64)
      (hlayout ▸ sound_btreeLayoutCreate hmax) (hcompare ▸ hc) hH hk
    exact ⟨_, H', Runs.bind hkeys hrun, .insert hr habsent hrun⟩

theorem insertKeys_search {n : Nat} (hn : n ≤ 4) {tree : Btree (Fixed 1020)}
    {H : Heap (BtreeNode (Fixed 1020))} (h : Runs (insertKeys n) Heap.empty tree H)
    (k : Fixed 1020) : Runs (btreeSearch tree k) H (keysMap n k) H := by
  obtain ⟨tree₁, H₁, h₁, hr⟩ := insertKeys_reached hn
  obtain ⟨rfl, rfl⟩ := h.unique h₁
  have hmax : 3 ≤ (btreeLayoutCreate 4096 1020).maxKeys := by decide
  have hc := totalCmp_memcmp 1020
  obtain ⟨hlayout, hcompare, entries, hH, hmap⟩ := hr.holds hmax hc
  have hsearch := runs_btreeSearch (hlayout ▸ sound_btreeLayoutCreate hmax) (hcompare ▸ hc) hH k
  rw [hcompare, ← hmap] at hsearch
  exact hsearch

theorem insertKeys_four : ((insertKeys 4).run Heap.empty).toOption.all (fun r =>
    decide (r.1.root.bind (heightAt r.2 r.2.size) = some 1) &&
      deleteOk r.1 r.2 (longKey 2)) := by
  decide +kernel

/-- Four keys stand in a root and two leaves, the second one in a leaf. -/
theorem insertKeys_height {tree : Btree (Fixed 1020)} {H : Heap (BtreeNode (Fixed 1020))}
    (h : Runs (insertKeys 4) Heap.empty tree H) :
    tree.root.bind (heightAt H H.size) = some 1 ∧ deleteOk tree H (longKey 2) := by
  have hfour := insertKeys_four
  rw [show (insertKeys 4).run Heap.empty = .ok (tree, H) from h] at hfour
  obtain ⟨hheight, hok⟩ := Bool.and_eq_true_iff.1 hfour
  exact ⟨of_decide_eq_true hheight, hok⟩

/-- The second of four keys is deleted. -/
theorem btree_is_map_fourKeys : ∃ tree H tree' H',
    Runs (insertKeys 4) Heap.empty tree H ∧
      Runs (btreeSearch tree (longKey 2)) H (some 20) H ∧
      deleteOk tree H (longKey 2) ∧ Runs (btreeDelete tree (longKey 2)) H (true, tree') H' ∧
      Runs (btreeSearch tree' (longKey 2)) H' none H' ∧
      Runs (btreeSearch tree' (longKey 3)) H' (some 30) H' := by
  have hmax : 3 ≤ (btreeLayoutCreate 4096 1020).maxKeys := by decide
  obtain ⟨tree, H, hkeys, hr⟩ := insertKeys_reached (Nat.le_refl 4)
  obtain ⟨-, hok⟩ := insertKeys_height hkeys
  have hne : longKey 3 ≠ longKey 2 := longKey_inj.not.2 (by decide)
  obtain ⟨hsearch, -, hdelete⟩ := btree_is_map hmax (totalCmp_memcmp 1020) hr
  obtain ⟨tree', H', hrun⟩ := hdelete (longKey 2) fun _ => hok
  obtain ⟨hsearch', -⟩ := btree_is_map hmax (totalCmp_memcmp 1020)
    (Reached.delete hr (fun _ => hok) hrun)
  have hfound := hsearch (longKey 2)
  have hgone := hsearch' (longKey 2)
  have hkept := hsearch' (longKey 3)
  rw [keysMap_two] at hfound hrun
  rw [Function.update_self] at hgone
  rw [Function.update_of_ne hne, keysMap_three] at hkept
  exact ⟨tree, H, tree', H', hkeys, hfound, hok, hrun, hgone, hkept⟩

/-- Four keys in nodes of three, of which two are deleted. -/
def deleteTwo : NodeProg (Fixed 1020) (Bool × Option FileOffset × Option FileOffset) := do
  let tree ← btreeInsert longKeyTree (longKey 1) 10
  let tree ← btreeInsert tree (longKey 2) 20
  let tree ← btreeInsert tree (longKey 3) 30
  let tree ← btreeInsert tree (longKey 4) 40
  let (_, tree) ← btreeDelete tree (longKey 2)
  let (deleted, tree) ← btreeDelete tree (longKey 3)
  let found ← btreeSearch tree (longKey 3)
  let lost ← btreeSearch tree (longKey 4)
  pure (deleted, found, lost)

/-- The second deletion reports success; its key is still found, and the key 4, which
nobody deleted, is not. -/
theorem deleteTwo_undone :
    (deleteTwo.run Heap.empty).toOption.map Prod.fst = some (true, some 30, none) := by
  decide +kernel

end Maxql.Index
