import Maxql.Index.BtreeFile
import Maxql.Index.BtreeRep

/-!
# What the index file holds

`nodeImage` is the block of `node_size` bytes that one node makes, and
`FileRep` says that a file holds the blocks of a whole tree, the block of each
node naming the positions of the blocks of its children.  Written by
`btree_save`, the file holds the tree; read back block by block, it gives every
node as it was.

The groups are the layout of a block, blocks written and read, and the file of
a tree.
-/

namespace Maxql.Index

open Program Bytes Multiway SortedEntries

/-! ## The layout of a block -/

/-- The fields that the file format reads: they follow each other without gaps and
end inside the block. -/
structure BtreeLayout.Packed (L : BtreeLayout) (s : Nat) : Prop where
  keySize_eq : L.keySize = s
  flagsSize_eq : L.flagsSize = 1
  keyCountOffset_eq : L.keyCountOffset = 1
  keyCountSize_eq : L.keyCountSize = 2
  keysOffset_eq : L.keysOffset = 3
  keysSize_eq : L.keysSize = L.maxKeys * s
  offsetsOffset_eq : L.offsetsOffset = 3 + L.maxKeys * s
  offsetsSize_eq : L.offsetsSize = L.maxKeys * 8
  childrenOffset_eq : L.childrenOffset = 3 + L.maxKeys * s + L.maxKeys * 8
  childrenSize_eq : L.childrenSize = L.childCount * 8
  inside : 3 + L.maxKeys * s + L.maxKeys * 8 + L.childCount * 8 ≤ L.nodeSize

/-- Every layout for nodes of 11 bytes or more is packed. -/
theorem packed_btreeLayoutCreate {nodeSize keySize : Nat} (hlow : 11 ≤ nodeSize)
    (hhigh : nodeSize < 65536) :
    (btreeLayoutCreate nodeSize keySize).Packed keySize := by
  have hspace : u16 ((u16 ((nodeSize : Int) - (1 : Nat) - (2 : Nat)) : Int) - (8 : Nat))
      = nodeSize - 11 := by
    unfold u16
    omega
  have hdiv : ((nodeSize - 11 : Nat) : Int) / ((keySize : Int) + (8 : Nat) + (8 : Nat))
      = (((nodeSize - 11) / (keySize + 16) : Nat) : Int) := by
    push_cast
    rw [Int.add_assoc]
    rfl
  have hquot : (nodeSize - 11) / (keySize + 16) ≤ nodeSize - 11 := Nat.div_le_self _ _
  have hmax : (btreeLayoutCreate nodeSize keySize).maxKeys
      = (nodeSize - 11) / (keySize + 16) := by
    show u16 ((u16 ((u16 ((nodeSize : Int) - (1 : Nat) - (2 : Nat)) : Int) - (8 : Nat)) : Int)
      / ((keySize : Int) + (8 : Nat) + (8 : Nat))) = _
    rw [hspace, hdiv, u16_natCast (by omega)]
  have hmul : (btreeLayoutCreate nodeSize keySize).maxKeys * keySize
      + (btreeLayoutCreate nodeSize keySize).maxKeys * 16 ≤ nodeSize - 11 := by
    rw [hmax, ← Nat.mul_add]
    exact Nat.div_mul_le_self _ _
  have hchild : (btreeLayoutCreate nodeSize keySize).childCount
      = u16 (((btreeLayoutCreate nodeSize keySize).maxKeys : Int) + (1 : Nat)) := rfl
  have hkeys : (btreeLayoutCreate nodeSize keySize).keysSize
      = u16 (((btreeLayoutCreate nodeSize keySize).maxKeys : Int) * keySize) := rfl
  have hoffset : (btreeLayoutCreate nodeSize keySize).offsetsOffset
      = u16 ((3 : Nat) + ((btreeLayoutCreate nodeSize keySize).keysSize : Int)) := rfl
  have hoffsets : (btreeLayoutCreate nodeSize keySize).offsetsSize
      = u16 (((btreeLayoutCreate nodeSize keySize).maxKeys : Int) * (8 : Nat)) := rfl
  have hchildren : (btreeLayoutCreate nodeSize keySize).childrenOffset
      = u16 (((btreeLayoutCreate nodeSize keySize).offsetsOffset : Int)
        + (btreeLayoutCreate nodeSize keySize).offsetsSize) := rfl
  have hsize : (btreeLayoutCreate nodeSize keySize).childrenSize
      = u16 (((btreeLayoutCreate nodeSize keySize).childCount : Int) * (8 : Nat)) := rfl
  have hnode : (btreeLayoutCreate nodeSize keySize).nodeSize = nodeSize := rfl
  have hflags : (btreeLayoutCreate nodeSize keySize).flagsSize = 1 := rfl
  have hcountOffset : (btreeLayoutCreate nodeSize keySize).keyCountOffset = 1 := rfl
  have hcountSize : (btreeLayoutCreate nodeSize keySize).keyCountSize = 2 := rfl
  have hkeysOffset : (btreeLayoutCreate nodeSize keySize).keysOffset = 3 := rfl
  have hkeySize : (btreeLayoutCreate nodeSize keySize).keySize = keySize := rfl
  clear hmax
  generalize btreeLayoutCreate nodeSize keySize = L at *
  rw [u16_add (by omega)] at hchild
  rw [u16_mul (by omega)] at hkeys hoffsets
  rw [u16_add (by omega), hkeys] at hoffset
  rw [u16_add (by omega), hoffset, hoffsets] at hchildren
  rw [u16_mul (by omega)] at hsize
  exact ⟨hkeySize, hflags, hcountOffset, hcountSize, hkeysOffset, hkeys, hoffset, hoffsets,
    hchildren, hsize, by omega⟩

/-! ## Blocks -/

section Blocks

variable {s : Nat} {L : BtreeLayout} {n : BtreeNode (Fixed s)} {slots : List Nat}

/-- The fields of a node in the order of the file. -/
def nodeFields (n : BtreeNode (Fixed s)) (slots : List Nat) : List UInt8 :=
  [n.flags] ++ le 2 n.keyCount ++ (n.keys.map Subtype.val).flatten
    ++ (n.offsets.map fun o => le 8 o.toNat).flatten ++ (slots.map (le 8)).flatten

/-- The block of a node whose children are at the positions `slots`. -/
def nodeImage (L : BtreeLayout) (n : BtreeNode (Fixed s)) (slots : List Nat) : List UInt8 :=
  padTo (nodeFields n slots) L.nodeSize

/-- The arrays of a node and of its child positions have the lengths of the layout. -/
structure Sized (L : BtreeLayout) (n : BtreeNode (Fixed s)) (slots : List Nat) : Prop where
  keys_len : n.keys.length = L.maxKeys
  offsets_len : n.offsets.length = L.maxKeys
  slots_len : slots.length = L.childCount

theorem length_keyBytes (h : Sized L n slots) :
    (n.keys.map Subtype.val).flatten.length = L.maxKeys * s := by
  rw [length_flatten_map fun k : Fixed s => k.2, h.keys_len]

theorem length_offsetBytes (h : Sized L n slots) :
    (n.offsets.map fun o => le 8 o.toNat).flatten.length = L.maxKeys * 8 := by
  rw [length_flatten_map fun o : FileOffset => length_le 8 o.toNat, h.offsets_len]

theorem length_slotBytes (h : Sized L n slots) :
    (slots.map (le 8)).flatten.length = L.childCount * 8 := by
  rw [length_flatten_map (length_le 8), h.slots_len]

theorem length_nodeFields (h : Sized L n slots) :
    (nodeFields n slots).length
      = 3 + L.maxKeys * s + L.maxKeys * 8 + L.childCount * 8 := by
  rw [nodeFields, List.length_append, List.length_append, List.length_append,
    List.length_append, length_keyBytes h, length_offsetBytes h, length_slotBytes h, length_le]
  rfl

theorem length_nodeImage (hP : L.Packed s) (h : Sized L n slots) :
    (nodeImage L n slots).length = L.nodeSize := by
  apply length_padTo
  rw [length_nodeFields h]
  exact hP.inside

/-- The five copies of `btree_to_bin` make the block. -/
theorem nodeToBin_eq (hP : L.Packed s) (h : Sized L n slots) :
    nodeToBin L n slots = .ok (nodeImage L n slots) := by
  have hroom := hP.inside
  have hk := length_keyBytes h
  have ho := length_offsetBytes h
  have hc := length_slotBytes h
  have hzero : List.replicate L.nodeSize (0 : UInt8) = padTo [] L.nodeSize := by simp [padTo]
  rw [nodeToBin, hP.flagsSize_eq, hP.keyCountOffset_eq, hP.keyCountSize_eq, hP.keysOffset_eq,
    hP.keysSize_eq, hP.offsetsOffset_eq, hP.offsetsSize_eq, hP.childrenOffset_eq,
    hP.childrenSize_eq, hzero]
  rw [copySlots_padTo (d := 0) (n := 1) rfl rfl (by omega), Checked.ok_bind]
  rw [copySlots_padTo (d := 1) rfl (length_le 2 _) (by omega), Checked.ok_bind]
  rw [copySlots_padTo (by simp) hk (by omega), Checked.ok_bind]
  rw [copySlots_padTo (by simp only [List.length_append, hk, length_le]; rfl) ho (by omega),
    Checked.ok_bind]
  rw [copySlots_padTo (by simp only [List.length_append, hk, ho, length_le]; rfl) hc hroom]
  rfl

/-- The file holds the block of `n` at position `pos`. -/
def BlockAt (L : BtreeLayout) (file : List UInt8) (pos : Nat) (n : BtreeNode (Fixed s))
    (slots : List Nat) : Prop :=
  ∃ pre post, file = pre ++ (nodeImage L n slots ++ post) ∧ pre.length = pos

/-- The pieces that a reader of the block cuts out of it. -/
structure FieldsAt (L : BtreeLayout) (bs : List UInt8) (pos : Nat) (n : BtreeNode (Fixed s))
    (slots : List Nat) : Prop where
  flags : slice bs pos 1 = .ok [n.flags]
  keyCount : slice bs (pos + L.keyCountOffset) L.keyCountSize = .ok (le 2 n.keyCount)
  keys : slice bs (pos + L.keysOffset) L.keysSize = .ok (n.keys.map Subtype.val).flatten
  offsets : slice bs (pos + L.offsetsOffset) L.offsetsSize
    = .ok (n.offsets.map fun o => le 8 o.toNat).flatten
  slots : slice bs (pos + L.childrenOffset) L.childrenSize = .ok (slots.map (le 8)).flatten

theorem BlockAt.fields {file : List UInt8} {pos : Nat} (hP : L.Packed s) (h : Sized L n slots)
    (hb : BlockAt L file pos n slots) : FieldsAt L file pos n slots := by
  obtain ⟨pre, post, rfl, hpos⟩ := hb
  have hk := length_keyBytes h
  have ho := length_offsetBytes h
  have hc := length_slotBytes h
  rw [nodeImage, padTo, nodeFields]
  generalize List.replicate _ _ = zeros
  have hcount := length_le 2 n.keyCount
  simp only [List.append_assoc]
  refine ⟨slice_at hpos rfl, ?_, ?_, ?_, ?_⟩
  · rw [hP.keyCountOffset_eq, hP.keyCountSize_eq, ← List.append_assoc]
    exact slice_at (by simp [hpos]) hcount
  · rw [hP.keysOffset_eq, hP.keysSize_eq, ← List.append_assoc, ← List.append_assoc]
    refine slice_at ?_ hk
    simp only [List.length_append, List.length_singleton, hpos, hcount]
  · rw [hP.offsetsOffset_eq, hP.offsetsSize_eq, ← List.append_assoc, ← List.append_assoc,
      ← List.append_assoc]
    refine slice_at ?_ ho
    simp only [List.length_append, List.length_singleton, hpos, hcount, hk]
    omega
  · rw [hP.childrenOffset_eq, hP.childrenSize_eq, ← List.append_assoc, ← List.append_assoc,
      ← List.append_assoc, ← List.append_assoc]
    refine slice_at ?_ hc
    simp only [List.length_append, List.length_singleton, hpos, hcount, hk, ho]
    omega

theorem read_keys (hP : L.Packed s) (h : Sized L n slots) :
    (chunks L.keySize L.maxKeys (n.keys.map Subtype.val).flatten).map (Fixed.ofBytes s)
      = n.keys := by
  rw [hP.keySize_eq, ← h.keys_len, chunks_flatten_map fun k : Fixed s => k.2, List.map_map]
  exact List.map_id'' Fixed.ofBytes_val n.keys

theorem read_offsets (h : Sized L n slots) :
    ((chunks 8 L.maxKeys (n.offsets.map fun o => le 8 o.toNat).flatten).map
      fun bytes => UInt64.ofNat (ofLe bytes)) = n.offsets := by
  rw [← h.offsets_len, chunks_flatten_map fun o : FileOffset => length_le 8 o.toNat, List.map_map]
  refine List.map_id'' (fun o => ?_) n.offsets
  have hlt : o.toNat < 256 ^ 8 := UInt64.toNat_lt o
  rw [Function.comp_apply, ofLe_le_of_lt hlt, UInt64.ofNat_toNat]

theorem read_slots (h : Sized L n slots) (hslots : ∀ p ∈ slots, p < 256 ^ 8) :
    (chunks 8 L.childCount (slots.map (le 8)).flatten).map ofLe = slots := by
  rw [← h.slots_len, chunks_flatten_map (length_le 8), List.map_map]
  conv_rhs => rw [← List.map_id slots]
  exact List.map_congr_left fun p hp => ofLe_le_of_lt (hslots p hp)

/-- What `parse_tree` copies out of a block is the node without its pointers. -/
theorem parseNode_eq {bs : List UInt8} {pos : Nat} (hP : L.Packed s) (h : Sized L n slots)
    (hcount : n.keyCount < 65536) (hf : FieldsAt L bs pos n slots) (parent : Option Addr) :
    parseNode L bs parent pos
      = .ok { n with parent, children := List.replicate L.childCount none } := by
  rw [parseNode, hP.flagsSize_eq, hf.flags, Checked.ok_bind, hf.keyCount, Checked.ok_bind,
    hf.keys, Checked.ok_bind, hf.offsets, Checked.ok_bind, read_keys hP h, read_offsets h,
    ofLe_le_of_lt hcount]
  rfl

/-- What `btree_search_stream` copies out of its buffer. -/
theorem readBuffer_eq {bs : List UInt8} (hP : L.Packed s) (h : Sized L n slots)
    (hcount : n.keyCount < 65536) (hslots : ∀ p ∈ slots, p < 256 ^ 8)
    (hf : FieldsAt L bs 0 n slots) :
    readBuffer L bs = .ok {
      isLeaf := btreeNodeIsLeaf n
      keyCount := n.keyCount
      keys := n.keys
      offsets := n.offsets
      children := slots } := by
  have hkeyCount := hf.keyCount
  have hkeys := hf.keys
  have hoffsets := hf.offsets
  have hchildren := hf.slots
  rw [Nat.zero_add] at hkeyCount hkeys hoffsets hchildren
  rw [readBuffer, hf.flags, Checked.ok_bind, hkeyCount, Checked.ok_bind, hkeys, Checked.ok_bind,
    hoffsets, Checked.ok_bind, hchildren, Checked.ok_bind, read_keys hP h, read_offsets h,
    read_slots h hslots, ofLe_le_of_lt hcount]
  rfl

end Blocks

/-! ## The file of a tree -/

section Files

variable {s h : Nat} {L : BtreeLayout} {H : Heap (BtreeNode (Fixed s))}

/-- The block of the node in cell `a`, with the positions of its children. -/
def BlockRep (L : BtreeLayout) (H : Heap (BtreeNode (Fixed s))) (file : List UInt8)
    (pos : Nat) (a : Addr) (slots : List Nat) : Prop :=
  ∃ n, H.get a = some n ∧ Sized L n slots ∧ (∀ p ∈ slots, p < 2 ^ 63) ∧
    BlockAt L file pos n slots

/-- All of `t` is in the file, its root at position `pos`. -/
def FileRep (L : BtreeLayout) (H : Heap (BtreeNode (Fixed s))) (file : List UInt8) :
    (h : Nat) → (pos : Nat) → AddrTree (Fixed s) h → Prop
  | 0, pos, t => ∃ slots, BlockRep L H file pos t.label slots
  | h + 1, pos, t => ∃ ps junk, BlockRep L H file pos t.label (ps ++ junk) ∧
      List.Forall₂ (FileRep L H file h) ps t.children

/-- `body` is what `t` makes when it is written to position `pos`. -/
def WrittenAt (L : BtreeLayout) (H : Heap (BtreeNode (Fixed s))) (h pos : Nat)
    (t : AddrTree (Fixed s) h) (body : List UInt8) : Prop :=
  body.length = (labels h t).length * L.nodeSize ∧
    ∀ pre post, pre.length = pos → pos + body.length ≤ 2 ^ 63 →
      FileRep L H (pre ++ (body ++ post)) h pos t

/-- `body` is what the trees `cs` make when they are written one behind the other from
position `pos` on, which puts them at the positions `ps`. -/
inductive WrittenAll (L : BtreeLayout) (H : Heap (BtreeNode (Fixed s))) (h : Nat) :
    (pos : Nat) → List Nat → List (AddrTree (Fixed s) h) → List UInt8 → Prop where
  | nil {pos : Nat} : WrittenAll L H h pos [] [] []
  | cons {pos : Nat} {c : AddrTree (Fixed s) h} {body rest : List UInt8} {ps : List Nat}
      {cs : List (AddrTree (Fixed s) h)} : WrittenAt L H h pos c body →
      WrittenAll L H h (pos + body.length) ps cs rest →
      WrittenAll L H h pos (pos :: ps) (c :: cs) (body ++ rest)

variable {pos : Nat} {ps : List Nat} {cs : List (AddrTree (Fixed s) h)} {body : List UInt8}

theorem WrittenAll.length_ps (hw : WrittenAll L H h pos ps cs body) :
    ps.length = cs.length := by
  induction hw with
  | nil => rfl
  | cons _ _ ih => simp [ih]

theorem WrittenAll.length_body (hw : WrittenAll L H h pos ps cs body) :
    body.length = (cs.flatMap (labels h)).length * L.nodeSize := by
  induction hw with
  | nil => simp
  | cons hc _ ih =>
    rw [List.length_append, hc.1, ih, List.flatMap_cons, List.length_append, Nat.add_mul]

/-- Every tree starts before the end. -/
theorem WrittenAll.lt_of_mem (hsize : 0 < L.nodeSize) (hw : WrittenAll L H h pos ps cs body) :
    ∀ p ∈ ps, p < pos + body.length := by
  induction hw with
  | nil => simp
  | @cons pos c body rest ps cs hc _ ih =>
    have hpos : 0 < body.length := by
      rw [hc.1]
      exact Nat.mul_pos (List.length_pos_of_mem (label_mem_labels h c)) hsize
    intro p hp
    rw [List.length_append]
    rcases List.mem_cons.1 hp with rfl | hp
    · omega
    · have := ih p hp
      omega

theorem WrittenAll.fileRep (hw : WrittenAll L H h pos ps cs body) :
    ∀ pre post, pre.length = pos → pos + body.length ≤ 2 ^ 63 →
      List.Forall₂ (FileRep L H (pre ++ (body ++ post)) h) ps cs := by
  induction hw with
  | nil => exact fun _ _ _ _ => .nil
  | @cons pos c body rest ps cs hc _ ih =>
    intro pre post hpre hle
    rw [List.length_append] at hle
    refine .cons ?_ ?_
    · rw [List.append_assoc]
      exact hc.2 pre (rest ++ post) hpre (by omega)
    · have hrest := ih (pre ++ body) post (by simp [hpre]) (by omega)
      simpa using hrest

end Files

end Maxql.Index
