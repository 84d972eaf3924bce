import Maxql.Index.BtreeRep
import Maxql.Lib.Bounds

/-!
# Insertion and search stay inside the arrays

`LaidOut` is a node as `allocate_node` lays it out: `max_keys` keys and
offsets, `child_count` children, and no more than `max_keys` of the keys in
use.  As long as every node in memory is laid out like this, no step of
`btree_search` and `btree_insert` leaves an array, for any key and whatever
tree the nodes make, and the nodes stay laid out.  Every lemma is about one
function of the source and follows its lines.
-/

namespace Maxql.Index

open Program SortedEntries

variable {K : Type}

/-- A node as it is allocated, with no more keys than it has room for. -/
structure LaidOut (L : BtreeLayout) (n : BtreeNode K) : Prop where
  keys_len : n.keys.length = L.maxKeys
  offsets_len : n.offsets.length = L.maxKeys
  children_len : n.children.length = L.childCount
  count_le : n.keyCount ≤ L.maxKeys

theorem NodeRep.laidOut {L : BtreeLayout} {n : BtreeNode K} {leaf : Bool} {par : Option Addr}
    {es : List (Entry K)} {cs : List Addr} (hn : NodeRep L n leaf par es cs) : LaidOut L n :=
  ⟨hn.keys_len, hn.offsets_len, hn.children_len, hn.count_eq ▸ hn.count_le⟩

theorem laidOut_zeroNode [Inhabited K] (L : BtreeLayout) : LaidOut L (zeroNode L : BtreeNode K) :=
  ⟨List.length_replicate, List.length_replicate, List.length_replicate, Nat.zero_le _⟩

/-- A full node and one more entry, cut in the middle, fit into two nodes. -/
theorem BtreeLayout.Sound.halves {L : BtreeLayout} (hL : L.Sound) : L.leftCount ≤ L.maxKeys ∧
    L.rightCount ≤ L.maxKeys ∧ L.rightStart + L.rightCount = L.maxKeys + 1 := by
  have hthree := hL.three_le
  have hmid := hL.mid_eq
  have hleft := hL.leftCount_eq
  have hright := hL.rightCount_eq
  have hstart := hL.rightStart_eq
  omega

/-- The arrays keep their lengths. -/
theorem LaidOut.update {L : BtreeLayout} {n n' : BtreeNode K} (hn : LaidOut L n)
    (hkeys : n'.keys.length = n.keys.length) (hoffsets : n'.offsets.length = n.offsets.length)
    (hchildren : n'.children.length = n.children.length) (hcount : n'.keyCount ≤ L.maxKeys) :
    LaidOut L n' :=
  ⟨hkeys.trans hn.keys_len, hoffsets.trans hn.offsets_len, hchildren.trans hn.children_len, hcount⟩

/-! ## The scans -/

section Scans

variable {cmp : K → K → Int} {key : K} {keys : List K}

theorem fine_lowerBound (rem i : Nat) (h : i + rem ≤ keys.length) :
    Fine (lowerBound cmp key keys rem i) fun j => j ≤ i + rem := by
  induction rem generalizing i with
  | zero => exact Fine.ok (Nat.le_refl i)
  | succ rem ih =>
    refine (fine_readAt (by omega)).bind fun k _ => Fine.ite (fun _ => ?_) fun _ => ?_
    · exact Fine.ok (Nat.le_add_right i (rem + 1))
    · have hrest := ih (i + 1) (by omega)
      rwa [Nat.add_right_comm, Nat.add_assoc] at hrest

theorem fine_scanKeys (rem i : Nat) (h : i + rem ≤ keys.length) :
    Fine (scanKeys cmp key keys rem i) fun r =>
      r.2 ≤ i + rem ∧ (r.1 = true → r.2 < i + rem) := by
  induction rem generalizing i with
  | zero => exact Fine.ok ⟨Nat.le_refl i, fun hfound => (by cases hfound)⟩
  | succ rem ih =>
    refine (fine_readAt (by omega)).bind fun k _ => Fine.ite (fun _ => ?_) fun _ => ?_
    · exact Fine.ok ⟨Nat.le_add_right i (rem + 1), fun _ => Nat.lt_add_of_pos_right (by omega)⟩
    refine Fine.ite (fun _ => ?_) fun _ => ?_
    · exact Fine.ok ⟨Nat.le_add_right i (rem + 1), fun hfound => (by cases hfound)⟩
    · have hrest := ih (i + 1) (by omega)
      rwa [Nat.add_right_comm, Nat.add_assoc] at hrest

/-- There is a free slot behind the used ones. -/
theorem fine_insertValue (tree : Btree K) {offsets : List FileOffset} {count : Nat}
    (hkeys : count < keys.length) (hoffsets : count < offsets.length) (offset : FileOffset) :
    Fine (insertValue tree keys offsets count key offset) fun r =>
      r.1.length = keys.length ∧ r.2.1.length = offsets.length ∧ r.2.2 ≤ count := by
  refine (fine_lowerBound count 0 (by omega)).bind fun i hi => ?_
  rw [Nat.zero_add] at hi
  refine (fine_shiftUp (count - i) (by omega)).bind fun ks hks => ?_
  refine (fine_shiftUp (count - i) (by omega)).bind fun os hos => ?_
  refine (fine_writeAt (by omega) key).bind fun ks' hks' => ?_
  refine (fine_writeAt (by omega) offset).bind fun os' hos' => ?_
  exact Fine.ok ⟨hks'.trans hks, hos'.trans hos, hi⟩

end Scans

/-! ## Search -/

section Search

variable {tree : Btree K} (hL : tree.layout.Sound)

/-- Every node in memory is laid out for the tree. -/
abbrev AllLaidOut (L : BtreeLayout) : Heap (BtreeNode K) → Prop := Everywhere (LaidOut L)

include hL

theorem keeps_searchFrom (key : K) (fuel : Nat) (node : Addr) :
    Keeps (AllLaidOut tree.layout) (searchFrom tree key fuel node) fun _ => True := by
  have hchild := hL.childCount_eq
  induction fuel generalizing node with
  | zero => exact Keeps.throw (by decide)
  | succ fuel ih =>
    refine (keeps_load node).bind fun n hn => ?_
    have hkeys := hn.keys_len
    have hoffsets := hn.offsets_len
    have hchildren := hn.children_len
    have hcount := hn.count_le
    refine (Keeps.lift (fine_scanKeys n.keyCount 0 (by omega))).bind ?_
    rintro ⟨found, c⟩ ⟨hc, hfound⟩
    rw [Nat.zero_add] at hc hfound
    refine Keeps.ite (fun hf => ?_) fun _ => ?_
    · have hlt := hfound hf
      exact (Keeps.lift (fine_readAt (by omega))).bind fun _ _ => Keeps.pure trivial
    · refine (Keeps.lift (fine_readAt (by omega))).bind fun next _ => ?_
      refine Keeps.ite (fun _ => Keeps.pure trivial) fun _ => ?_
      exact (keeps_deref next).bind fun a _ => ih a

theorem keeps_btreeSearch (key : K) :
    Keeps (AllLaidOut tree.layout) (btreeSearch tree key) fun _ => True := by
  unfold btreeSearch
  cases tree.root with
  | none => exact Keeps.pure trivial
  | some root => exact Keeps.get.bind fun H _ => keeps_searchFrom hL key H.size root

end Search

/-! ## Insertion -/

section Insertion

variable {L : BtreeLayout}

theorem keeps_setParent (node : Addr) (parent : Option Addr) :
    Keeps (AllLaidOut (K := K) L) (setParent node parent) fun _ => True := by
  refine (keeps_load node).bind fun n hn => keeps_store node ?_
  exact hn.update rfl rfl rfl hn.count_le

theorem keeps_adoptChildren (owner : Addr) (n start : Nat) (h : start + n ≤ L.childCount) :
    Keeps (AllLaidOut (K := K) L) (adoptChildren owner start n) fun _ => True := by
  induction n generalizing start with
  | zero => exact Keeps.pure trivial
  | succ n ih =>
    refine (keeps_load owner).bind fun o ho => ?_
    have hchildren := ho.children_len
    refine (Keeps.lift (fine_readAt (by omega))).bind fun p _ => ?_
    refine (keeps_deref p).bind fun child _ => ?_
    exact (keeps_setParent child (some owner)).bind fun _ _ => ih (start + 1) (by omega)

/-- The temporary array has one slot more than a node has children. -/
theorem fine_insertChild {children tmp : List (Option Addr)} {idx : Nat}
    (hchildren : children.length = L.childCount) (htmp : tmp.length = L.childCount + 1)
    (hidx : idx ≤ L.childCount) (child : Option Addr) :
    Fine (insertChild L children tmp idx child) fun ys => ys.length = L.childCount + 1 := by
  refine (fine_copySlots (by omega) (by omega)).bind fun ys hys => ?_
  refine (fine_shiftUp (L.childCount - idx) (by omega)).bind fun zs hzs => ?_
  have hlen : zs.length = L.childCount + 1 := hzs.trans (hys.trans htmp)
  have hslot : idx < zs.length := by omega
  have hwrite := fine_writeAt hslot child
  rwa [hlen] at hwrite

variable {tree : Btree K} (hL : tree.layout.Sound)

include hL

theorem keeps_findLeaf (key : K) (fuel : Nat) (node : Addr) :
    Keeps (AllLaidOut tree.layout) (findLeaf tree key fuel node) fun _ => True := by
  have hchild := hL.childCount_eq
  induction fuel generalizing node with
  | zero => exact Keeps.throw (by decide)
  | succ fuel ih =>
    refine (keeps_load node).bind fun n hn => ?_
    have hkeys := hn.keys_len
    have hchildren := hn.children_len
    have hcount := hn.count_le
    refine Keeps.ite (fun _ => Keeps.pure trivial) fun _ => ?_
    refine (Keeps.lift (fine_lowerBound n.keyCount 0 (by omega))).bind fun c hc => ?_
    refine (Keeps.lift (fine_readAt (by omega))).bind fun p _ => ?_
    exact (keeps_deref p).bind fun a _ => ih a

theorem keeps_insertIntoLeaf (leaf : Addr) (key : K) (offset : FileOffset) :
    Keeps (AllLaidOut tree.layout) (insertIntoLeaf tree leaf key offset) fun _ => True := by
  have hmax := hL.maxKeys_le
  refine (keeps_load leaf).bind fun n hn => ?_
  have hkeys := hn.keys_len
  have hoffsets := hn.offsets_len
  refine Keeps.ite (fun _ => Keeps.pure trivial) fun hroom => ?_
  refine (Keeps.lift (fine_insertValue tree (by omega) (by omega) offset)).bind ?_
  rintro ⟨ks, os, i⟩ ⟨hks, hos, _⟩
  refine (keeps_store leaf ?_).bind fun _ _ => Keeps.pure trivial
  refine hn.update hks hos rfl ?_
  show inc16 n.keyCount ≤ _
  rw [inc16_eq (by omega)]
  omega

theorem keeps_insertIntoNode (parent child : Addr) (key : K) (offset : FileOffset) :
    Keeps (AllLaidOut tree.layout) (insertIntoNode tree parent child key offset)
      fun _ => True := by
  have hmax := hL.maxKeys_le
  have hchild := hL.childCount_eq
  refine (keeps_load parent).bind fun n hn => ?_
  have hkeys := hn.keys_len
  have hoffsets := hn.offsets_len
  have hchildren := hn.children_len
  refine Keeps.ite (fun _ => Keeps.pure trivial) fun hroom => ?_
  have hinc : inc16 n.keyCount = n.keyCount + 1 := inc16_eq (by omega)
  refine (Keeps.lift (fine_insertValue tree (by omega) (by omega) offset)).bind ?_
  rintro ⟨ks, os, i⟩ ⟨hks, hos, hi⟩
  replace hi : i ≤ n.keyCount := hi
  refine (Keeps.lift (fine_shiftUp (inc16 n.keyCount - (i + 1)) (by omega))).bind fun cs hcs => ?_
  refine (Keeps.lift (fine_writeAt (by omega) (some child))).bind fun cs' hcs' => ?_
  refine (keeps_store parent ?_).bind fun _ _ => ?_
  · refine hn.update hks hos (hcs'.trans hcs) ?_
    show inc16 n.keyCount ≤ _
    omega
  · exact (keeps_setParent child (some parent)).bind fun _ _ => Keeps.pure trivial

theorem keeps_splitEntries (node right : Addr) (key : K) (offset : FileOffset)
    {tmpKeys : List K} {tmpOffsets : List FileOffset}
    (hk : tmpKeys.length = tree.layout.maxKeys + 1)
    (ho : tmpOffsets.length = tree.layout.maxKeys + 1) :
    Keeps (AllLaidOut tree.layout) (splitEntries tree node right key offset tmpKeys tmpOffsets)
      fun r => r.1.length = tree.layout.maxKeys + 1 ∧ r.2.1.length = tree.layout.maxKeys + 1 ∧
        r.2.2 ≤ tree.layout.maxKeys := by
  obtain ⟨hleft, hright, hwhole⟩ := hL.halves
  unfold splitEntries
  refine (keeps_load node).bind fun n hn => ?_
  have hkeys := hn.keys_len
  have hoffsets := hn.offsets_len
  refine (Keeps.lift (fine_copySlots (by omega) (by omega))).bind fun ks hks => ?_
  refine (Keeps.lift (fine_copySlots (by omega) (by omega))).bind fun os hos => ?_
  have hroom : tree.layout.maxKeys < ks.length := by omega
  refine (Keeps.lift (fine_insertValue tree hroom (by omega) offset)).bind ?_
  rintro ⟨ks', os', i⟩ ⟨hks', hos', hi⟩
  have hklen : ks'.length = tree.layout.maxKeys + 1 := hks'.trans (hks.trans hk)
  have holen : os'.length = tree.layout.maxKeys + 1 := hos'.trans (hos.trans ho)
  refine (Keeps.lift (fine_copySlots (by omega) (by omega))).bind fun nk hnk => ?_
  refine (Keeps.lift (fine_copySlots (by omega) (by omega))).bind fun no hno => ?_
  refine (keeps_store node ?_).bind fun _ _ => ?_
  · refine hn.update hnk hno rfl ?_
    show tree.layout.leftCount ≤ _
    omega
  refine (keeps_load right).bind fun r hr => ?_
  have hrkeys := hr.keys_len
  have hroffsets := hr.offsets_len
  refine (Keeps.lift (fine_copySlots (by omega) (by omega))).bind fun rk hrk => ?_
  refine (Keeps.lift (fine_copySlots (by omega) (by omega))).bind fun ro hro => ?_
  refine (keeps_store right ?_).bind fun _ _ => ?_
  · refine hr.update hrk hro rfl ?_
    show tree.layout.rightCount ≤ _
    omega
  · exact Keeps.pure ⟨hklen, holen, hi⟩

theorem keeps_splitChildren (node right : Addr) {idx : Nat} (hidx : idx ≤ tree.layout.maxKeys)
    (child : Option Addr) :
    Keeps (AllLaidOut tree.layout) (splitChildren tree node right idx child) fun _ => True := by
  obtain ⟨hleft, hright, hwhole⟩ := hL.halves
  have hchild := hL.childCount_eq
  refine (keeps_load right).bind fun r hr => Keeps.ite (fun _ => Keeps.pure trivial) fun _ => ?_
  refine (keeps_load node).bind fun n hn => ?_
  have hrchildren := hr.children_len
  have hnchildren := hn.children_len
  refine (Keeps.lift (fine_insertChild hnchildren List.length_replicate (by omega) child)).bind
    fun tmp htmp => ?_
  refine (Keeps.lift (fine_copySlots (by omega) (by omega))).bind fun cs hcs => ?_
  refine (keeps_store node ?_).bind fun _ _ => ?_
  · exact hn.update rfl rfl hcs hn.count_le
  refine (Keeps.lift (fine_copySlots (by omega) (by omega))).bind fun cs' hcs' => ?_
  refine (keeps_store right ?_).bind fun _ _ => ?_
  · exact hr.update rfl rfl hcs' hr.count_le
  exact keeps_adoptChildren right (tree.layout.rightCount + 1) 0 (by omega)

theorem keeps_splitNode (node right : Addr) (key : K) (offset : FileOffset) {tmpKeys : List K}
    {tmpOffsets : List FileOffset} (hk : tmpKeys.length = tree.layout.maxKeys + 1)
    (ho : tmpOffsets.length = tree.layout.maxKeys + 1) (child : Option Addr) :
    Keeps (AllLaidOut tree.layout)
      (splitNode tree node right key offset tmpKeys tmpOffsets child)
      fun r => r.1.length = tree.layout.maxKeys + 1 ∧ r.2.length = tree.layout.maxKeys + 1 := by
  refine (keeps_splitEntries hL node right key offset hk ho).bind ?_
  rintro ⟨ks, os, i⟩ ⟨hks, hos, hi⟩
  exact (keeps_splitChildren hL node right hi child).bind fun _ _ => Keeps.pure ⟨hks, hos⟩

variable [Inhabited K]

omit hL in
theorem keeps_allocateNode (L : BtreeLayout) :
    Keeps (AllLaidOut (K := K) L) (allocateNode L) fun _ => True :=
  keeps_alloc (laidOut_zeroNode L)

theorem keeps_createRoot (left right : Addr) (key : K) (offset : FileOffset) :
    Keeps (AllLaidOut tree.layout) (createRoot tree.layout left right key offset)
      fun _ => True := by
  have hthree := hL.three_le
  have hchild := hL.childCount_eq
  refine (keeps_allocateNode tree.layout).bind fun root _ => (keeps_load root).bind fun n hn => ?_
  have hkeys := hn.keys_len
  have hoffsets := hn.offsets_len
  have hchildren := hn.children_len
  refine (Keeps.lift (fine_writeAt (by omega) (some left))).bind fun cs hcs => ?_
  refine (Keeps.lift (fine_writeAt (by omega) (some right))).bind fun cs' hcs' => ?_
  refine (Keeps.lift (fine_writeAt (by omega) key)).bind fun ks hks => ?_
  refine (Keeps.lift (fine_writeAt (by omega) offset)).bind fun os hos => ?_
  refine (keeps_store root ?_).bind fun _ _ => ?_
  · refine hn.update hks hos (hcs'.trans hcs) ?_
    show 1 ≤ tree.layout.maxKeys
    omega
  refine (keeps_setParent left (some root)).bind fun _ _ => ?_
  exact (keeps_setParent right (some root)).bind fun _ _ => Keeps.pure trivial

theorem keeps_createLeaf (key : K) (offset : FileOffset) :
    Keeps (AllLaidOut tree.layout) (createLeaf tree.layout key offset) fun _ => True := by
  have hthree := hL.three_le
  refine (keeps_allocateNode tree.layout).bind fun node _ => (keeps_load node).bind fun n hn => ?_
  have hkeys := hn.keys_len
  have hoffsets := hn.offsets_len
  refine (Keeps.lift (fine_writeAt (by omega) key)).bind fun ks hks => ?_
  refine (Keeps.lift (fine_writeAt (by omega) offset)).bind fun os hos => ?_
  refine (keeps_store node ?_).bind fun _ _ => Keeps.pure trivial
  refine hn.update hks hos rfl ?_
  show 1 ≤ tree.layout.maxKeys
  omega

theorem keeps_placeSeparator (root node right : Addr) {tmpKeys : List K}
    {tmpOffsets : List FileOffset} (hk : tmpKeys.length = tree.layout.maxKeys + 1)
    (ho : tmpOffsets.length = tree.layout.maxKeys + 1) :
    Keeps (AllLaidOut tree.layout) (placeSeparator tree root node right tmpKeys tmpOffsets)
      fun _ => True := by
  have hthree := hL.three_le
  have hmid := hL.mid_eq
  refine (Keeps.lift (fine_readAt (by omega))).bind fun key _ => ?_
  refine (Keeps.lift (fine_readAt (by omega))).bind fun offset _ => ?_
  refine (keeps_load node).bind fun n _ => ?_
  cases n.parent with
  | none => exact (keeps_createRoot hL node right key offset).bind fun _ _ => Keeps.pure trivial
  | some parent =>
    exact (keeps_insertIntoNode hL parent right key offset).bind fun _ _ => Keeps.pure trivial

/-- The walk up the parents. -/
theorem keeps_splitParents (root : Addr) (fuel : Nat) (node right : Addr) {tmpKeys : List K}
    {tmpOffsets : List FileOffset} (hk : tmpKeys.length = tree.layout.maxKeys + 1)
    (ho : tmpOffsets.length = tree.layout.maxKeys + 1) :
    Keeps (AllLaidOut tree.layout) (splitParents tree root fuel node right tmpKeys tmpOffsets)
      fun _ => True := by
  have hthree := hL.three_le
  have hmid := hL.mid_eq
  induction fuel generalizing node right tmpKeys tmpOffsets with
  | zero => exact Keeps.throw (by decide)
  | succ fuel ih =>
    refine (keeps_load node).bind fun n _ => ?_
    cases n.parent with
    | none => exact Keeps.pure trivial
    | some parent =>
      refine (keeps_allocateNode tree.layout).bind fun fresh _ => ?_
      refine (Keeps.lift (fine_readAt (by omega))).bind fun key _ => ?_
      refine (Keeps.lift (fine_readAt (by omega))).bind fun offset _ => ?_
      refine (keeps_splitNode hL parent fresh key offset hk ho (some right)).bind ?_
      rintro ⟨ks, os⟩ ⟨hks, hos⟩
      refine (keeps_placeSeparator hL root parent fresh hks hos).bind fun placed _ => ?_
      cases placed with
      | some newRoot => exact Keeps.pure trivial
      | none => exact ih parent fresh hks hos

theorem keeps_insertAtLeaf (root : Addr) (fuel : Nat) (node : Addr) (key : K)
    (offset : FileOffset) :
    Keeps (AllLaidOut tree.layout) (insertAtLeaf tree root fuel node key offset)
      fun _ => True := by
  refine (keeps_insertIntoLeaf hL node key offset).bind fun success _ => ?_
  refine Keeps.ite (fun _ => Keeps.pure trivial) fun _ => ?_
  refine (keeps_allocateNode tree.layout).bind fun right _ => ?_
  refine (keeps_splitNode hL node right key offset List.length_replicate List.length_replicate
    none).bind ?_
  rintro ⟨ks, os⟩ ⟨hks, hos⟩
  refine (keeps_placeSeparator hL root node right hks hos).bind fun placed _ => ?_
  cases placed with
  | some newRoot => exact Keeps.pure trivial
  | none => exact keeps_splitParents hL root fuel node right hks hos

/-- `btree_insert` stays inside the arrays, also with a key that is there already. -/
theorem keeps_btreeInsert (key : K) (offset : FileOffset) :
    Keeps (AllLaidOut tree.layout) (btreeInsert tree key offset) fun _ => True := by
  refine Keeps.bind (Q := fun _ => True) ?_ fun _ _ => Keeps.pure trivial
  unfold btreeInsertDo
  cases tree.root with
  | none => exact keeps_createLeaf hL key offset
  | some root =>
    refine Keeps.get.bind fun H _ => ?_
    refine (keeps_findLeaf hL key H.size root).bind fun leaf _ => ?_
    exact keeps_insertAtLeaf hL root H.size leaf key offset

end Insertion

end Maxql.Index
