import Maxql.Index.Btree
import Maxql.Lib.Bytes

/-!
# The index file of `src/index/btree.c`

The half of the file that works on bytes: `btree_to_bin` and `btree_save`,
`parse_tree` and `btree_load`, and `btree_search_stream`.  A key is a string of
`key_size` bytes.  A file is the list of its bytes.  Every `memcpy` is checked
on both sides.

The work buffer of `btree_search_stream` comes from `malloc` and is not
cleared, so what it holds at first is a parameter.
-/

namespace Maxql.Index

open Program Bytes

variable {s : Nat}

/-! ## Writing -/

/-- The buffer that `btree_to_bin` fills for one node. -/
def nodeToBin (layout : BtreeLayout) (node : BtreeNode (Fixed s)) (childrenOffsets : List Nat) :
    Checked (List UInt8) := do
  let buffer := List.replicate layout.nodeSize 0
  let buffer ← copySlots buffer 0 [node.flags] 0 layout.flagsSize
  let buffer ← copySlots buffer layout.keyCountOffset (le 2 node.keyCount) 0 layout.keyCountSize
  let buffer ← copySlots buffer layout.keysOffset (node.keys.map Subtype.val).flatten 0
    layout.keysSize
  let buffer ← copySlots buffer layout.offsetsOffset
    (node.offsets.map fun o => le 8 o.toNat).flatten 0 layout.offsetsSize
  copySlots buffer layout.childrenOffset (childrenOffsets.map (le 8)).flatten 0
    layout.childrenSize

/-- `for (i = 0; i <= key_count; i++) children_offsets[i] = btree_to_bin(children[i])`,
with the offsets, the file and the next free position threaded through. -/
def writeChildren (visit : Option Addr → List UInt8 → Nat →
      NodeProg (Fixed s) (Nat × List UInt8 × Nat)) (children : List (Option Addr)) :
    (rem i : Nat) → (childrenOffsets : List Nat) → (file : List UInt8) → (offset : Nat) →
      NodeProg (Fixed s) (List Nat × List UInt8 × Nat)
  | 0, _, childrenOffsets, file, offset => pure (childrenOffsets, file, offset)
  | rem + 1, i, childrenOffsets, file, offset => do
    let child ← readAt children i
    let (childOffset, file, offset) ← visit child file offset
    let childrenOffsets ← writeAt childrenOffsets i childOffset
    writeChildren visit children rem (i + 1) childrenOffsets file offset

/-- `btree_to_bin`: the offset of the node, the file and the next free position. -/
def btreeToBin (layout : BtreeLayout) : (fuel : Nat) → (node : Option Addr) →
    (file : List UInt8) → (offset : Nat) → NodeProg (Fixed s) (Nat × List UInt8 × Nat)
  | 0, _, _, _ => throw .outOfFuel
  | _ + 1, none, _, offset => pure (offset, [], offset)
  | fuel + 1, some node, file, offset => do
    let n ← load node
    let currentOffset := offset
    let offset := offset + layout.nodeSize
    let childrenOffsets := List.replicate layout.childCount 0
    let (childrenOffsets, file, offset) ←
      (if btreeNodeIsLeaf n then pure (childrenOffsets, file, offset)
      else writeChildren (btreeToBin layout fuel) n.children (n.keyCount + 1) 0
        childrenOffsets file offset : NodeProg (Fixed s) (List Nat × List UInt8 × Nat))
    let buffer ← nodeToBin layout n childrenOffsets
    pure (currentOffset, fwriteAt file currentOffset buffer, offset)

/-- `btree_save`: the contents of the file, which `fopen` has emptied. -/
def btreeSave (tree : Btree (Fixed s)) : NodeProg (Fixed s) (List UInt8) := do
  let H ← get
  let (_, file, _) ← btreeToBin tree.layout (H.size + 1) tree.root [] 0
  pure file

/-! ## Loading -/

/-- The fields that `parse_tree` copies out of `binary`, in a node without children. -/
def parseNode (layout : BtreeLayout) (binary : List UInt8) (parent : Option Addr)
    (offset : Nat) : Checked (BtreeNode (Fixed s)) := do
  let flags ← slice binary offset layout.flagsSize
  let keyCount ← slice binary (offset + layout.keyCountOffset) layout.keyCountSize
  let keys ← slice binary (offset + layout.keysOffset) layout.keysSize
  let offsets ← slice binary (offset + layout.offsetsOffset) layout.offsetsSize
  .ok {
    parent
    children := List.replicate layout.childCount none
    flags := flags.headD 0
    keyCount := ofLe keyCount
    keys := (chunks layout.keySize layout.maxKeys keys).map (Fixed.ofBytes s)
    offsets := (chunks 8 layout.maxKeys offsets).map fun bytes => UInt64.ofNat (ofLe bytes) }

/-- `for (i = 0; i <= key_count; i++) node->children[i] = parse_tree(...)` -/
def parseChildren (visit : Nat → NodeProg (Fixed s) Addr) (binary : List UInt8)
    (node : Addr) (childrenOffset : Nat) : (rem i : Nat) → NodeProg (Fixed s) Unit
  | 0, _ => pure ()
  | rem + 1, i => do
    let childOffset ← slice binary (childrenOffset + i * 8) 8
    let child ← visit (ofLe childOffset)
    let n ← load node
    let children ← writeAt n.children i (some child)
    store node { n with children }
    parseChildren visit binary node childrenOffset rem (i + 1)

def parseTree (layout : BtreeLayout) (binary : List UInt8) : (fuel : Nat) →
    (parent : Option Addr) → (offset : Nat) → NodeProg (Fixed s) Addr
  | 0, _, _ => throw .outOfFuel
  | fuel + 1, parent, offset => do
    let n ← parseNode layout binary parent offset
    let node ← alloc n
    if btreeNodeIsLeaf n then pure node
    else
      parseChildren (parseTree layout binary fuel (some node)) binary node
        (offset + layout.childrenOffset) (n.keyCount + 1) 0
      pure node

/-- What `btree_load` leaves: the tree that it stored through `data`, and whether its
cleanup has released the tree. -/
structure LoadResult (K : Type) where
  data : Option (Btree K)
  released : Bool

/-- `btree_load` of a file that can be opened and is read in full. -/
def btreeLoad (nodeSize : Nat) (compare : Fixed s → Fixed s → Int) (file : List UInt8) :
    NodeProg (Fixed s) (LoadResult (Fixed s)) := do
  let tree := btreeCreate nodeSize s compare
  if file.length = 0 then
    -- `error` is still true when the cleanup is reached
    pure { data := some tree, released := true }
  else
    let root ← parseTree tree.layout file file.length none 0
    pure { data := some { tree with root := some root }, released := false }

/-! ## Search in the file -/

/-- The fields of a node, as `btree_search_stream` copies them out of its buffer. -/
structure NodeBuffer (s : Nat) where
  isLeaf : Bool
  keyCount : Nat
  keys : List (Fixed s)
  offsets : List FileOffset
  children : List Nat

def readBuffer (layout : BtreeLayout) (buf : List UInt8) : Checked (NodeBuffer s) := do
  let flags ← slice buf 0 1
  let keyCount ← slice buf layout.keyCountOffset layout.keyCountSize
  let keys ← slice buf layout.keysOffset layout.keysSize
  let offsets ← slice buf layout.offsetsOffset layout.offsetsSize
  let children ← slice buf layout.childrenOffset layout.childrenSize
  .ok {
    isLeaf := flagIsLeaf (flags.headD 0)
    keyCount := ofLe keyCount
    keys := (chunks layout.keySize layout.maxKeys keys).map (Fixed.ofBytes s)
    offsets := (chunks 8 layout.maxKeys offsets).map fun bytes => UInt64.ofNat (ofLe bytes)
    children := (chunks 8 layout.childCount children).map ofLe }

/-- The `do … while` of `btree_search_stream`, at file position `pos`.  A negative
`off_t` makes `fseeko` fail, which leaves the position where it is. -/
def searchStreamFrom (layout : BtreeLayout) (compare : Fixed s → Fixed s → Int)
    (file : List UInt8) (key : Fixed s) :
    (fuel : Nat) → (pos nodeOffset : Nat) → (buf : List UInt8) → Checked (Option FileOffset)
  | 0, _, _, _ => .error .outOfFuel
  | fuel + 1, pos, nodeOffset, buf => do
    let pos := if nodeOffset < 2 ^ 63 then nodeOffset else pos
    let sizeRead := ((file.drop pos).take layout.nodeSize).length
    let buf := freadAt file pos layout.nodeSize buf
    let node : NodeBuffer s ← readBuffer layout buf
    let (found, pick) ← scanKeys compare key node.keys node.keyCount 0
    if found then
      let offset ← readAt node.offsets pick
      .ok (some offset)
    else
      let next ← readAt node.children pick
      if node.isLeaf then .ok none
      else searchStreamFrom layout compare file key fuel (pos + sizeRead) next buf

/-- `btree_search_stream` with a work buffer that holds `work` at first. -/
def btreeSearchStream (nodeSize : Nat) (compare : Fixed s → Fixed s → Int)
    (file : List UInt8) (work : List UInt8) (key : Fixed s) (fuel : Nat) :
    Checked (Option FileOffset) :=
  searchStreamFrom (btreeLayoutCreate nodeSize s) compare file key fuel 0 0 work

end Maxql.Index
