import Maxql.Index.Btree
import Maxql.Lib.Multiway
import Maxql.Lib.Slots
import Mathlib.Data.List.Nodup

/-!
# What the nodes in memory represent

`NodeRep` reads one node: the used parts of its three arrays are its entries
and its children, and whatever lies behind them is unconstrained.  `Rep` reads
a whole tree of `Maxql.Lib.Multiway`, labelled with addresses, out of the heap,
parent pointers included.  Every operation of the B-tree is specified by the
tree its nodes represent before and after.

The groups are the layout, the two scans, the representation of nodes and
trees with its frame lemmas, and the helpers that touch parent pointers only.
-/

namespace Maxql.Index

open Program SortedEntries Multiway

/-! ## The layout -/

/-- The fields that the operations on nodes read, in terms of `max_keys`. -/
structure BtreeLayout.Sound (L : BtreeLayout) : Prop where
  three_le : 3 ≤ L.maxKeys
  maxKeys_le : L.maxKeys ≤ 4095
  minKeys_eq : L.minKeys = (L.maxKeys - 1) / 2
  mid_eq : L.mid = (L.maxKeys + 1) / 2
  leftCount_eq : L.leftCount = L.mid
  rightCount_eq : L.rightCount = L.maxKeys - L.mid
  childCount_eq : L.childCount = L.maxKeys + 1
  rightStart_eq : L.rightStart = L.mid + 1

theorem u16_natCast {n : Nat} (h : n < 65536) : u16 (n : Int) = n := by
  unfold u16; omega

theorem u16_add {n m : Nat} (h : n + m < 65536) : u16 ((n : Int) + m) = n + m := by
  rw [← Int.natCast_add, u16_natCast h]

theorem u16_mul {n m : Nat} (h : n * m < 65536) : u16 ((n : Int) * m) = n * m := by
  rw [← Int.natCast_mul, u16_natCast h]

theorem u16_sub {n m : Nat} (hle : m ≤ n) (h : n < 65536) :
    u16 ((n : Int) - m) = n - m := by
  unfold u16; omega

theorem u16_sub_one {n : Nat} (hpos : 0 < n) (h : n < 65536) :
    u16 ((n : Int) - 1) = n - 1 := by
  unfold u16; omega

theorem inc16_eq {n : Nat} (h : n < 65535) : inc16 n = n + 1 := by
  unfold inc16; omega

theorem dec16_eq {n : Nat} (hpos : 0 < n) (h : n < 65536) : dec16 n = n - 1 := by
  unfold dec16; omega

theorem u16_lt (n : Int) : u16 n < 65536 := by
  unfold u16; omega

private theorem quotient_le {space : Nat} (h : space < 65536) (keySize : Nat) :
    u16 ((space : Int) / ((keySize : Int) + (8 : Nat) + (8 : Nat))) ≤ 4095 := by
  have hdiv : space / (keySize + 8 + 8) ≤ 4095 := by
    rw [Nat.div_le_iff_le_mul_add_pred (by omega)]
    omega
  have hcast : (space : Int) / ((keySize : Int) + (8 : Nat) + (8 : Nat))
      = ((space / (keySize + 8 + 8) : Nat) : Int) := by
    push_cast; rfl
  rw [hcast, u16_natCast (by omega)]
  exact hdiv

theorem maxKeys_le (nodeSize keySize : Nat) :
    (btreeLayoutCreate nodeSize keySize).maxKeys ≤ 4095 :=
  quotient_le (u16_lt _) keySize

/-- Keys of up to four columns of 255 bytes leave room for three in a node. -/
theorem three_le_maxKeys {keySize : Nat} (h : keySize ≤ 1020) :
    3 ≤ (btreeLayoutCreate 4096 keySize).maxKeys := by
  have hdiv : 3 ≤ 4085 / (keySize + 16) := by
    rw [Nat.le_div_iff_mul_le (by omega)]
    omega
  have hle : 4085 / (keySize + 16) ≤ 4085 := Nat.div_le_self _ _
  have hcast : ((u16 ((u16 ((4096 : Int) - (1 : Nat) - (2 : Nat)) : Int) - (8 : Nat)) : Int)
      / ((keySize : Int) + (8 : Nat) + (8 : Nat))) = ((4085 / (keySize + 16) : Nat) : Int) := by
    rw [Int.add_assoc]
    rfl
  show 3 ≤ u16 ((u16 ((u16 ((4096 : Int) - (1 : Nat) - (2 : Nat)) : Int) - (8 : Nat)) : Int)
    / ((keySize : Int) + (8 : Nat) + (8 : Nat)))
  rw [hcast, u16_natCast (by omega)]
  exact hdiv

/-- Every layout with at least three keys to a node is sound. -/
theorem sound_btreeLayoutCreate {nodeSize keySize : Nat}
    (h : 3 ≤ (btreeLayoutCreate nodeSize keySize).maxKeys) :
    (btreeLayoutCreate nodeSize keySize).Sound := by
  have hle := maxKeys_le nodeSize keySize
  have hmin : (btreeLayoutCreate nodeSize keySize).minKeys
      = u16 ((((btreeLayoutCreate nodeSize keySize).maxKeys : Int) - 1).tdiv 2) := rfl
  have hmid : (btreeLayoutCreate nodeSize keySize).mid
      = u16 ((((btreeLayoutCreate nodeSize keySize).maxKeys : Int) + 1) / 2) := rfl
  have hleft : (btreeLayoutCreate nodeSize keySize).leftCount
      = (btreeLayoutCreate nodeSize keySize).mid := rfl
  have hright : (btreeLayoutCreate nodeSize keySize).rightCount
      = u16 (((btreeLayoutCreate nodeSize keySize).maxKeys : Int)
        - (btreeLayoutCreate nodeSize keySize).mid) := rfl
  have hchild : (btreeLayoutCreate nodeSize keySize).childCount
      = u16 (((btreeLayoutCreate nodeSize keySize).maxKeys : Int) + 1) := rfl
  have hstart : (btreeLayoutCreate nodeSize keySize).rightStart
      = u16 (((btreeLayoutCreate nodeSize keySize).mid : Int) + 1) := rfl
  generalize btreeLayoutCreate nodeSize keySize = L at *
  rw [Int.tdiv_eq_ediv_of_nonneg (by omega)] at hmin
  unfold u16 at hmin hmid hright hchild hstart
  exact ⟨h, hle, by omega, by omega, hleft, by omega, by omega, by omega⟩

/-! ## The scans -/

/-- The first entry has the key `k`. -/
def startsWith {K V : Type} (cmp : K → K → Int) (k : K) (es : List (K × V)) : Bool :=
  es.head?.any fun e => cmp k e.1 = 0

section Scans

variable {K V : Type} {cmp : K → K → Int} (hc : TotalCmp cmp) {k : K}

include hc

private theorem lowerBound_skip (rem : Nat) (rest : List K) :
    ∀ (es : List (K × V)) (pre : List K), Below cmp es k →
      lowerBound cmp k (pre ++ (es.map Prod.fst ++ rest)) (es.length + rem) pre.length
        = lowerBound cmp k (pre ++ (es.map Prod.fst ++ rest)) rem
          (pre.length + es.length) := by
  intro es
  induction es with
  | nil => intro pre _; simp
  | cons e es ih =>
    intro pre h
    obtain ⟨he, hes⟩ := below_cons.1 h
    have hgt := hc.neg_iff.1 he
    have hrem : (e :: es).length + rem = (es.length + rem) + 1 := by simp; omega
    have ih := ih (pre ++ [e.1]) hes
    rw [hrem]
    simp only [List.map_cons, List.cons_append, lowerBound]
    rw [readAt_append_cons, Checked.ok_bind, if_neg (by omega)]
    simpa [Nat.add_assoc, Nat.add_comm 1] using ih

/-- The scan of an insertion stops behind the smaller keys. -/
theorem lowerBound_eq {es₁ es₂ : List (K × V)} (junk : List K)
    (h₁ : Below cmp es₁ k) (h₂ : Above cmp es₂ k) :
    lowerBound cmp k ((es₁ ++ es₂).map Prod.fst ++ junk) (es₁ ++ es₂).length 0
      = .ok es₁.length := by
  have hskip := lowerBound_skip hc es₂.length (es₂.map Prod.fst ++ junk) es₁ [] h₁
  have hkeys : (es₁ ++ es₂).map Prod.fst ++ junk
      = [] ++ (es₁.map Prod.fst ++ (es₂.map Prod.fst ++ junk)) := by simp
  rw [hkeys, List.length_append]
  refine hskip.trans ?_
  cases es₂ with
  | nil => simp [lowerBound]
  | cons e es =>
    have hle : cmp k e.1 ≤ 0 := Int.le_of_lt (above_cons.1 h₂).1
    have hread : readAt ([] ++ (es₁.map Prod.fst ++ ((e :: es).map Prod.fst ++ junk)))
        (List.length ([] : List K) + es₁.length) = .ok e.1 := by
      have := readAt_append_cons (es₁.map Prod.fst) (es.map Prod.fst ++ junk) e.1
      simpa using this
    rw [List.length_cons, lowerBound, hread, Checked.ok_bind, if_pos hle]
    simp

private theorem scanKeys_skip (rem : Nat) (rest : List K) :
    ∀ (es : List (K × V)) (pre : List K), Below cmp es k →
      scanKeys cmp k (pre ++ (es.map Prod.fst ++ rest)) (es.length + rem) pre.length
        = scanKeys cmp k (pre ++ (es.map Prod.fst ++ rest)) rem
          (pre.length + es.length) := by
  intro es
  induction es with
  | nil => intro pre _; simp
  | cons e es ih =>
    intro pre h
    obtain ⟨he, hes⟩ := below_cons.1 h
    have hgt := hc.neg_iff.1 he
    have hrem : (e :: es).length + rem = (es.length + rem) + 1 := by simp; omega
    have ih := ih (pre ++ [e.1]) hes
    rw [hrem]
    simp only [List.map_cons, List.cons_append, scanKeys]
    rw [readAt_append_cons, Checked.ok_bind, if_neg (by omega), if_neg (by omega)]
    simpa [Nat.add_assoc, Nat.add_comm 1] using ih

/-- The scan of a node stops behind the smaller keys, and says whether the next one is `k`. -/
theorem scanKeys_eq {es₁ es₂ : List (K × V)} (junk : List K) (h₁ : Below cmp es₁ k)
    (h₂ : ∀ e ∈ es₂.head?, cmp k e.1 ≤ 0) :
    scanKeys cmp k ((es₁ ++ es₂).map Prod.fst ++ junk) (es₁ ++ es₂).length 0
      = .ok (startsWith cmp k es₂, es₁.length) := by
  have hskip := scanKeys_skip hc es₂.length (es₂.map Prod.fst ++ junk) es₁ [] h₁
  have hkeys : (es₁ ++ es₂).map Prod.fst ++ junk
      = [] ++ (es₁.map Prod.fst ++ (es₂.map Prod.fst ++ junk)) := by simp
  rw [hkeys, List.length_append]
  refine hskip.trans ?_
  cases es₂ with
  | nil => simp [scanKeys, startsWith]
  | cons e es =>
    have hle : cmp k e.1 ≤ 0 := h₂ e rfl
    have hread : readAt ([] ++ (es₁.map Prod.fst ++ ((e :: es).map Prod.fst ++ junk)))
        (List.length ([] : List K) + es₁.length) = .ok e.1 := by
      have := readAt_append_cons (es₁.map Prod.fst) (es.map Prod.fst ++ junk) e.1
      simpa using this
    rw [List.length_cons, scanKeys, hread, Checked.ok_bind]
    by_cases hzero : cmp k e.1 = 0
    · rw [if_pos hzero]
      simp [startsWith, hzero]
    · rw [if_neg hzero, if_pos (by omega)]
      simp [startsWith, hzero]

omit hc in
theorem startsWith_of_above {es : List (K × V)} (h : Above cmp es k) :
    startsWith cmp k es = false := by
  cases es with
  | nil => rfl
  | cons e es =>
    have hlt := (above_cons.1 h).1
    simp only [startsWith, List.head?_cons, Option.any_some, decide_eq_false_iff_not]
    omega

theorem startsWith_self (v : V) (es : List (K × V)) : startsWith cmp k ((k, v) :: es) = true := by
  simp [startsWith, hc.self]

end Scans

/-! ## Nodes -/

/-- An entry: a key with its row offset. -/
abbrev Entry (K : Type) := K × FileOffset

/-- A tree of entries whose labels are addresses. -/
abbrev AddrTree (K : Type) (h : Nat) := Tree Addr (Entry K) h

/-- The node `n` holds the entries `es` and the children `cs`. -/
structure NodeRep {K : Type} (L : BtreeLayout) (n : BtreeNode K) (leaf : Bool)
    (parent : Option Addr) (es : List (Entry K)) (cs : List Addr) : Prop where
  parent_eq : n.parent = parent
  leaf_eq : btreeNodeIsLeaf n = leaf
  count_eq : n.keyCount = es.length
  keys_eq : ∃ junk, n.keys = es.map Prod.fst ++ junk
  offsets_eq : ∃ junk, n.offsets = es.map Prod.snd ++ junk
  children_eq : ∃ junk, n.children = cs.map some ++ junk
  keys_len : n.keys.length = L.maxKeys
  offsets_len : n.offsets.length = L.maxKeys
  children_len : n.children.length = L.childCount

section Nodes

variable {K : Type} {L : BtreeLayout} {n : BtreeNode K} {leaf : Bool}
  {par : Option Addr} {es es₁ es₂ : List (Entry K)} {cs : List Addr}

theorem NodeRep.keys (hn : NodeRep L n leaf par es cs) :
    Slots n.keys (es.map Prod.fst) L.maxKeys := ⟨hn.keys_eq, hn.keys_len⟩

theorem NodeRep.offsets (hn : NodeRep L n leaf par es cs) :
    Slots n.offsets (es.map Prod.snd) L.maxKeys := ⟨hn.offsets_eq, hn.offsets_len⟩

theorem NodeRep.slots (hn : NodeRep L n leaf par es cs) :
    Slots n.children (cs.map some) L.childCount := ⟨hn.children_eq, hn.children_len⟩

/-- The same node with other arrays. -/
theorem NodeRep.update {n' : BtreeNode K} {es' : List (Entry K)} {cs' : List Addr}
    (hn : NodeRep L n leaf par es cs) (hpar : n'.parent = n.parent)
    (hflags : n'.flags = n.flags) (hcount : n'.keyCount = es'.length)
    (hk : Slots n'.keys (es'.map Prod.fst) L.maxKeys)
    (ho : Slots n'.offsets (es'.map Prod.snd) L.maxKeys)
    (hch : Slots n'.children (cs'.map some) L.childCount) :
    NodeRep L n' leaf par es' cs' := by
  refine ⟨hpar.trans hn.parent_eq, ?_, hcount, hk.eq, ho.eq, hch.eq, hk.len, ho.len, hch.len⟩
  rw [← hn.leaf_eq, btreeNodeIsLeaf, btreeNodeIsLeaf, hflags]

/-- The parent pointer is a field of its own. -/
theorem NodeRep.reparent (hn : NodeRep L n leaf par es cs) (par' : Option Addr) :
    NodeRep L { n with parent := par' } leaf par' es cs :=
  ⟨rfl, hn.leaf_eq, hn.count_eq, hn.keys_eq, hn.offsets_eq, hn.children_eq,
    hn.keys_len, hn.offsets_len, hn.children_len⟩

theorem NodeRep.read_key (hn : NodeRep L n leaf par es cs) {i : Nat} {e : Entry K}
    (h : es[i]? = some e) : readAt n.keys i = .ok e.1 := by
  obtain ⟨junk, hkeys⟩ := hn.keys_eq
  have hi : i < (es.map Prod.fst).length := by
    have := (List.getElem?_eq_some_iff.1 h).1
    simpa using this
  apply readAt_of_getElem?
  rw [hkeys, List.getElem?_append_left hi, List.getElem?_map, h]
  rfl

theorem NodeRep.read_offset (hn : NodeRep L n leaf par es cs) {i : Nat} {e : Entry K}
    (h : es[i]? = some e) : readAt n.offsets i = .ok e.2 := by
  obtain ⟨junk, hoffsets⟩ := hn.offsets_eq
  have hi : i < (es.map Prod.snd).length := by
    have := (List.getElem?_eq_some_iff.1 h).1
    simpa using this
  apply readAt_of_getElem?
  rw [hoffsets, List.getElem?_append_left hi, List.getElem?_map, h]
  rfl

theorem NodeRep.read_child (hn : NodeRep L n leaf par es cs) {i : Nat} {c : Addr}
    (h : cs[i]? = some c) : readAt n.children i = .ok (some c) := by
  obtain ⟨junk, hchildren⟩ := hn.children_eq
  have hi : i < (cs.map some).length := by
    have := (List.getElem?_eq_some_iff.1 h).1
    simpa using this
  apply readAt_of_getElem?
  rw [hchildren, List.getElem?_append_left hi, List.getElem?_map, h]
  rfl

theorem NodeRep.count_le (hn : NodeRep L n leaf par es cs) : es.length ≤ L.maxKeys := by
  obtain ⟨junk, hkeys⟩ := hn.keys_eq
  have hlen := hn.keys_len
  rw [hkeys] at hlen
  simp at hlen
  omega

/-- Any slot up to `max_keys` of the child array may be read. -/
theorem NodeRep.read_slot (hL : L.Sound) (hn : NodeRep L n leaf par es cs) {i : Nat}
    (h : i ≤ L.maxKeys) : ∃ p, readAt n.children i = .ok p := by
  have hi : i < n.children.length := by
    rw [hn.children_len, hL.childCount_eq]
    omega
  exact ⟨n.children[i], readAt_of_getElem? (List.getElem?_eq_getElem hi)⟩

variable {compare : K → K → Int} (hc : TotalCmp compare) {k : K}

include hc

theorem NodeRep.lowerBound (hn : NodeRep L n leaf par (es₁ ++ es₂) cs)
    (h₁ : Below compare es₁ k) (h₂ : Above compare es₂ k) :
    lowerBound compare k n.keys n.keyCount 0 = .ok es₁.length := by
  obtain ⟨junk, hkeys⟩ := hn.keys_eq
  rw [hkeys, hn.count_eq]
  exact lowerBound_eq hc junk h₁ h₂

theorem NodeRep.scan (hn : NodeRep L n leaf par (es₁ ++ es₂) cs)
    (h₁ : Below compare es₁ k) (h₂ : ∀ e ∈ es₂.head?, compare k e.1 ≤ 0) :
    scanKeys compare k n.keys n.keyCount 0 = .ok (startsWith compare k es₂, es₁.length) := by
  obtain ⟨junk, hkeys⟩ := hn.keys_eq
  rw [hkeys, hn.count_eq]
  exact scanKeys_eq hc junk h₁ h₂

/-- The scan of a node that does not hold `k` ends at the child to go on with. -/
theorem NodeRep.scan_miss (hn : NodeRep L n leaf par (es₁ ++ es₂) cs)
    (h₁ : Below compare es₁ k) (h₂ : Above compare es₂ k) :
    scanKeys compare k n.keys n.keyCount 0 = .ok (false, es₁.length) := by
  rw [hn.scan hc h₁ fun e he => Int.le_of_lt (h₂ e (List.mem_of_head? he)),
    startsWith_of_above h₂]

/-- The scan of a node that holds `k` ends there. -/
theorem NodeRep.scan_hit {v : FileOffset}
    (hn : NodeRep L n leaf par (es₁ ++ (k, v) :: es₂) cs) (h₁ : Below compare es₁ k) :
    scanKeys compare k n.keys n.keyCount 0 = .ok (true, es₁.length) := by
  have hhead : ∀ e ∈ ((k, v) :: es₂).head?, compare k e.1 ≤ 0 := by
    intro e he
    obtain rfl : (k, v) = e := by simpa using he
    exact Int.le_of_eq (hc.self k)
  rw [hn.scan hc h₁ hhead, startsWith_self hc]

end Nodes

/-! ## Trees -/

section Trees

variable {K : Type} {L : BtreeLayout} {H H' : Heap (BtreeNode K)} {h : Nat}
  {par : Option Addr}

/-- The addresses of the children of the root. -/
def childAddrs : (h : Nat) → AddrTree K h → List Addr
  | 0, _ => []
  | _ + 1, t => t.children.map Node.label

/-- The root of `t` is in the heap, with its parent pointer. -/
def RootRep (L : BtreeLayout) (H : Heap (BtreeNode K)) (h : Nat) (par : Option Addr)
    (t : AddrTree K h) : Prop :=
  ∃ n, H.get t.label = some n ∧ NodeRep L n (h == 0) par t.entries (childAddrs h t)

/-- All of `t` is in the heap: every node with its entries, its children and the
address of its parent. -/
def Rep (L : BtreeLayout) (H : Heap (BtreeNode K)) :
    (h : Nat) → Option Addr → AddrTree K h → Prop
  | 0, par, t => RootRep L H 0 par t
  | h + 1, par, t => RootRep L H (h + 1) par t ∧
      ∀ c ∈ t.children, Rep L H h (some t.label) c

theorem Rep.root {t : AddrTree K h} (ht : Rep L H h par t) : RootRep L H h par t := by
  cases h
  · exact ht
  · exact ht.1

theorem Rep.child {t : AddrTree K (h + 1)} (ht : Rep L H (h + 1) par t)
    {c : AddrTree K h} (hc : c ∈ t.children) : Rep L H h (some t.label) c := ht.2 c hc

/-- What a tree represents depends on its own cells only. -/
theorem Rep.frame {t : AddrTree K h} (ht : Rep L H h par t)
    (hsame : ∀ a ∈ labels h t, H'.get a = H.get a) : Rep L H' h par t := by
  induction h generalizing par with
  | zero =>
    obtain ⟨n, hget, hn⟩ := ht
    exact ⟨n, (hsame _ (label_mem_labels 0 t)).trans hget, hn⟩
  | succ h ih =>
    obtain ⟨⟨n, hget, hn⟩, hchildren⟩ := ht
    refine ⟨⟨n, (hsame _ (label_mem_labels (h + 1) t)).trans hget, hn⟩, fun c hc => ?_⟩
    refine ih (hchildren c hc) fun a ha => hsame a ?_
    exact List.mem_cons_of_mem _ (List.mem_flatMap.2 ⟨c, hc, ha⟩)

/-- The addresses of a represented tree were handed out. -/
theorem Rep.lt_size {t : AddrTree K h} (ht : Rep L H h par t) :
    ∀ a ∈ labels h t, a < H.size := by
  induction h generalizing par with
  | zero =>
    obtain ⟨n, hget, _⟩ := ht
    intro a ha
    rw [labels, List.mem_singleton] at ha
    exact ha ▸ Heap.lt_size_of_get hget
  | succ h ih =>
    obtain ⟨⟨n, hget, _⟩, hchildren⟩ := ht
    intro a ha
    rcases List.mem_cons.1 ha with rfl | ha
    · exact Heap.lt_size_of_get hget
    · obtain ⟨c, hc, ha⟩ := List.mem_flatMap.1 ha
      exact ih (hchildren c hc) a ha

/-- A new parent pointer in the root cell is all that adoption changes. -/
theorem Rep.adopted {t : AddrTree K h} {par' : Option Addr} (ht : Rep L H h par t)
    (hroot : H'.get t.label = (H.get t.label).map fun n => { n with parent := par' })
    (hrest : ∀ a ∈ labels h t, a ≠ t.label → H'.get a = H.get a)
    (hnodup : (labels h t).Nodup) : Rep L H' h par' t := by
  have hnew : RootRep L H' h par' t := by
    obtain ⟨n, hget, hn⟩ := ht.root
    exact ⟨_, by rw [hroot, hget]; rfl, hn.reparent par'⟩
  cases h with
  | zero => exact hnew
  | succ h =>
    refine ⟨hnew, fun c hc => (ht.child hc).frame fun a ha => ?_⟩
    have hmem : a ∈ t.children.flatMap (labels h) := List.mem_flatMap.2 ⟨c, hc, ha⟩
    refine hrest a (List.mem_cons_of_mem _ hmem) fun heq => ?_
    exact (List.nodup_cons.1 hnodup).1 (heq ▸ hmem)

/-- Enough fuel for a descent. -/
theorem Rep.height_lt_size {t : AddrTree K h} {min max lo : Nat}
    (ht : Rep L H h par t) (hfits : Fits min max h lo t)
    (hnodup : (labels h t).Nodup) : h < H.size := by
  have hlen := height_lt_labels_length hfits
  have hsub : labels h t ⊆ List.range H.size :=
    fun a ha => List.mem_range.2 (ht.lt_size a ha)
  have hcard := (List.subperm_of_subset hnodup hsub).length_le
  rw [List.length_range] at hcard
  omega

end Trees

/-! ## Search trees -/

/-- A search tree in memory: its nodes are there, no two share an address, they
are as full as they have to be, and the keys ascend. -/
structure Subtree (tree : Btree K) (H : Heap (BtreeNode K)) (h : Nat)
    (par : Option Addr) (lo : Nat) (t : AddrTree K h) : Prop where
  rep : Rep tree.layout H h par t
  nodup : (labels h t).Nodup
  fits : Fits tree.layout.minKeys tree.layout.maxKeys h lo t
  asc : Ascending tree.compare (toList h t)

/-- The least number of entries in a root. -/
def rootMin : (h : Nat) → Nat
  | 0 => 0
  | _ + 1 => 1

/-- The tree in memory holds `entries`, in this order. -/
def Holds {K : Type} (tree : Btree K) (H : Heap (BtreeNode K)) (entries : List (Entry K)) :
    Prop :=
  match tree.root with
  | none => entries = []
  | some root => ∃ h, ∃ t : AddrTree K h, t.label = root ∧
      Subtree tree H h none (rootMin h) t ∧ toList h t = entries

/-- Fresh labels may take the place of a part of a list without repetitions. -/
theorem nodup_exchange {A B M M' : List Addr} {s : Nat} (h : (A ++ M ++ B).Nodup)
    (hM : M'.Nodup) (hfresh : ∀ a ∈ M', a ∈ M ∨ s ≤ a)
    (hlt : ∀ a ∈ A ++ M ++ B, a < s) : (A ++ M' ++ B).Nodup := by
  have hnot : ∀ a ∈ A ++ B, a ∉ M' := by
    intro a ha hm
    rcases hfresh a hm with hold | hge
    · rw [List.append_assoc, List.nodup_append] at h
      obtain ⟨_, hMB, hdisA⟩ := h
      rcases List.mem_append.1 ha with ha | ha
      · exact hdisA a ha a (List.mem_append_left _ hold) rfl
      · exact (List.nodup_append.1 hMB).2.2 a hold a ha rfl
    · have hlt' := hlt a (by
        rcases List.mem_append.1 ha with ha | ha
        · simp [ha]
        · simp [ha])
      exact Nat.not_le.2 hlt' hge
  have hAB : (A ++ B).Nodup := by
    refine h.sublist ?_
    rw [List.append_assoc]
    exact (List.sublist_append_right M B).append_left A
  rw [List.append_assoc]
  have hperm : (A ++ (M' ++ B)).Perm (M' ++ (A ++ B)) := by
    rw [← List.append_assoc, ← List.append_assoc]
    exact List.perm_append_comm.append_right B
  rw [hperm.nodup_iff, List.nodup_append]
  exact ⟨hM, hAB, fun a ha b hb heq => hnot b hb (heq ▸ ha)⟩

section SearchTrees

variable {K : Type} {tree : Btree K} {H : Heap (BtreeNode K)} {h : Nat}
  {par : Option Addr} {lo : Nat}

theorem Rep.parent {L : BtreeLayout} {t : AddrTree K h} (ht : Rep L H h par t) :
    ∃ n, H.get t.label = some n ∧ n.parent = par := by
  obtain ⟨n, hget, hn⟩ := ht.root
  exact ⟨n, hget, hn.parent_eq⟩

/-- The root pointer of the tree is not part of what its nodes represent. -/
theorem Subtree.setRoot {t : AddrTree K h} (ht : Subtree tree H h par lo t)
    (root : Option Addr) : Subtree { tree with root } H h par lo t :=
  ⟨ht.rep, ht.nodup, ht.fits, ht.asc⟩

theorem Subtree.child {a : Addr} {es : List (Entry K)} {cs₁ cs₂ : List (AddrTree K h)}
    {c : AddrTree K h} (ht : Subtree tree H (h + 1) par lo ⟨a, es, cs₁ ++ c :: cs₂⟩)
    (hasc : Ascending tree.compare (toList h c)) :
    Subtree tree H h (some a) tree.layout.minKeys c := by
  have hc : c ∈ cs₁ ++ c :: cs₂ := by simp
  have hnodup := (List.nodup_cons.1 ht.nodup).2
  exact ⟨ht.rep.child hc, (List.nodup_flatMap.1 hnodup).1 c hc, ht.fits.child hc, hasc⟩

/-- Only the lower bound depends on `lo`. -/
theorem Subtree.of_le {t : AddrTree K h} {lo' : Nat} (ht : Subtree tree H h par lo t)
    (hlo : lo' ≤ t.entries.length) : Subtree tree H h par lo' t :=
  ⟨ht.rep, ht.nodup, ht.fits.of_le hlo, ht.asc⟩

theorem Holds.ascending {entries : List (Entry K)} (hH : Holds tree H entries) :
    Ascending tree.compare entries := by
  unfold Holds at hH
  split at hH
  · rw [hH]
    exact List.Pairwise.nil
  · obtain ⟨h, t, _, ht, rfl⟩ := hH
    exact ht.asc

/-- The child of an inner node that a key belongs to. -/
theorem exists_child (hc : TotalCmp tree.compare) {k : K} {t : AddrTree K (h + 1)}
    (hfit : ChildrenFit tree.layout.minKeys tree.layout.maxKeys (h + 1) t)
    (hasc : Ascending tree.compare (toList (h + 1) t))
    (hk : k ∉ t.entries.map Prod.fst) :
    ∃ es₁ es₂ cs₁ c cs₂, t = ⟨t.label, es₁ ++ es₂, cs₁ ++ c :: cs₂⟩ ∧
      cs₁.length = es₁.length ∧ cs₂.length = es₂.length ∧
      Below tree.compare es₁ k ∧ Above tree.compare es₂ k := by
  obtain ⟨a, es, cs⟩ := t
  obtain ⟨es₁, es₂, rfl, hk₁, hk₂⟩ :=
    exists_split hc (hasc.sublist (entries_sublist_toList hfit)) hk
  obtain ⟨cs₁, c, cs₂, rfl, hcs₁, hcs₂⟩ := exists_focus hfit.1
  exact ⟨es₁, es₂, cs₁, c, cs₂, rfl, hcs₁, hcs₂, hk₁, hk₂⟩

end SearchTrees

/-! ## Parent pointers -/

section Parents

variable {K : Type} {H : Heap (BtreeNode K)}

/-- The heap with the parent pointers of the cells `cs` set to `owner`. -/
def Adopted (H H' : Heap (BtreeNode K)) (owner : Option Addr) (cs : List Addr) : Prop :=
  H'.size = H.size ∧
    (∀ a ∈ cs, H'.get a = (H.get a).map fun n => { n with parent := owner }) ∧
    ∀ a, a ∉ cs → H'.get a = H.get a

theorem runs_setParent {a : Addr} {n : BtreeNode K} (hget : H.get a = some n)
    (owner : Option Addr) :
    ∃ H', Runs (setParent a owner) H () H' ∧ Adopted H H' owner [a] := by
  refine ⟨H.put a (some { n with parent := owner }), ?_, by simp, ?_, ?_⟩
  · exact Runs.bind (Runs.load hget) (Runs.store hget _)
  · intro b hb
    rw [List.mem_singleton.1 hb, hget, Heap.get_put_self (Heap.lt_size_of_get hget)]
    rfl
  · intro b hb
    exact Heap.get_put_ne (by simpa using hb) _

/-- `adoptChildren` sets the parent pointers of the children it walks over. -/
theorem runs_adoptChildren {owner : Addr} {o : BtreeNode K} (cs : List Addr) :
    ∀ {H : Heap (BtreeNode K)} (start : Nat), H.get owner = some o →
      (∀ i, i < cs.length → o.children[start + i]? = (cs[i]?).map some) →
      owner ∉ cs → cs.Nodup → (∀ c ∈ cs, (H.get c).isSome) →
      ∃ H', Runs (adoptChildren owner start cs.length) H () H' ∧
        Adopted H H' (some owner) cs := by
  induction cs with
  | nil =>
    intro H start _ _ _ _ _
    exact ⟨H, Runs.pure () H, rfl, by simp, fun _ _ => rfl⟩
  | cons c cs ih =>
    intro H start howner hslots hnot hnodup hlive
    have hc : readAt o.children start = .ok (some c) :=
      readAt_of_getElem? (by simpa using hslots 0 (by simp))
    obtain ⟨n, hget⟩ := Option.isSome_iff_exists.1 (hlive c (by simp))
    obtain ⟨H₁, hrun, hsize, hset, hsame⟩ := runs_setParent hget (some owner)
    have hne : owner ≠ c := fun heq => hnot (heq ▸ List.mem_cons_self)
    have howner₁ : H₁.get owner = some o := by
      rw [hsame owner (by simpa using hne)]
      exact howner
    have hcs : c ∉ cs := (List.nodup_cons.1 hnodup).1
    have hsame₁ : ∀ a ∈ cs, H₁.get a = H.get a := fun a ha =>
      hsame a (by simpa using fun heq : a = c => hcs (heq ▸ ha))
    obtain ⟨H', hrest, hsize', hset', hsame'⟩ := ih (start + 1) howner₁
      (fun i hi => by
        have := hslots (i + 1) (by simpa using hi)
        simpa [Nat.add_assoc, Nat.add_comm 1] using this)
      (fun hmem => hnot (List.mem_cons_of_mem _ hmem)) (List.nodup_cons.1 hnodup).2
      (fun a ha => by rw [hsame₁ a ha]; exact hlive a (List.mem_cons_of_mem _ ha))
    refine ⟨H', ?_, hsize'.trans hsize, ?_, ?_⟩
    · rw [List.length_cons, adoptChildren]
      exact Runs.bind (Runs.load howner) (Runs.bind (Runs.lift hc H)
        (Runs.bind (Runs.deref c H) (Runs.bind hrun hrest)))
    · intro a ha
      rcases List.mem_cons.1 ha with rfl | ha
      · rw [hsame' a hcs]
        exact hset a (by simp)
      · rw [hset' a ha, hsame₁ a ha]
    · intro a ha
      simp only [List.mem_cons, not_or] at ha
      rw [hsame' a ha.2]
      exact hsame a (by simpa using ha.1)

end Parents

end Maxql.Index
