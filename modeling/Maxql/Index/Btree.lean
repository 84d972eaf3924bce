import Maxql.Lib.Heap

/-!
# The B-tree of `src/index/btree.c`

The in-memory half of the file: layout, search, insertion and deletion.  Nodes
live in a `Heap` and refer to each other by address, as the `BtreeNode*`
members do, so stale child slots and parent pointers are part of the model.

Every array access is checked.  `keys`, `offsets` and `children` are the slots
that `allocate_node` hands out, used or not; `memcpy` and `memmove` are
`copySlots`.  A `while` loop and the recursion of `delete_recursive` carry
fuel, which the entry points set to the number of nodes ever allocated.
`key_count` is a `uint16_t`: `inc16` and `dec16` are its `++` and `--`.
-/

namespace Maxql

/-- `FileOffset`, a `uint64_t`. -/
abbrev FileOffset := UInt64

/-- Conversion of an `int` to `uint16_t`. -/
def u16 (n : Int) : Nat := (n % 65536).toNat

/-- `++` on a `uint16_t`. -/
def inc16 (n : Nat) : Nat := (n + 1) % 65536

/-- `--` on a `uint16_t`. -/
def dec16 (n : Nat) : Nat := (n + 65535) % 65536

namespace Index

open Program

/-! ## Layout -/

structure BtreeLayout where
  keySize : Nat
  offsetSize : Nat
  childSize : Nat
  maxKeys : Nat
  minKeys : Nat
  mid : Nat
  leftCount : Nat
  rightCount : Nat
  childCount : Nat
  rightStart : Nat
  flagsOffset : Nat
  flagsSize : Nat
  keyCountOffset : Nat
  keyCountSize : Nat
  keysOffset : Nat
  keysSize : Nat
  offsetsOffset : Nat
  offsetsSize : Nat
  childrenOffset : Nat
  childrenSize : Nat
  nodeSize : Nat
  deriving DecidableEq, Repr

/-- `BTREE_NODE_FLAGS_SIZE` -/
def btreeNodeFlagsSize : Nat := 1

/-- `BTREE_NODE_VALUE_COUNT_SIZE` -/
def btreeNodeValueCountSize : Nat := 2

/-- `btree_layout_create`.  Each local of the source is a `uint16_t`, computed
as an `int`. -/
def btreeLayoutCreate (nodeSize keySize : Nat) : BtreeLayout :=
  let offsetSize : Nat := 8
  let childSize : Nat := 8
  let dynamicSpace :=
    u16 ((nodeSize : Int) - btreeNodeFlagsSize - btreeNodeValueCountSize)
  let spaceAdjusted := u16 ((dynamicSpace : Int) - childSize)
  let maxKeys := u16 (spaceAdjusted / (keySize + offsetSize + childSize))
  let minKeys := u16 (((maxKeys : Int) - 1).tdiv 2)
  let mid := u16 ((maxKeys + 1) / 2)
  let leftCount := mid
  let rightCount := u16 ((maxKeys : Int) - leftCount)
  let childCount := u16 (maxKeys + 1)
  let rightStart := u16 (leftCount + 1)
  let flagsOffset : Nat := 0
  let flagsSize := btreeNodeFlagsSize
  let keyCountOffset := flagsSize
  let keyCountSize := btreeNodeValueCountSize
  let keysOffset := u16 (keyCountOffset + keyCountSize)
  let keysSize := u16 (maxKeys * keySize)
  let offsetsOffset := u16 (keysOffset + keysSize)
  let offsetsSize := u16 (maxKeys * offsetSize)
  let childrenOffset := u16 (offsetsOffset + offsetsSize)
  let childrenSize := u16 (childCount * childSize)
  { keySize, offsetSize, childSize, maxKeys, minKeys, mid, leftCount,
    rightCount, childCount, rightStart, flagsOffset, flagsSize, keyCountOffset,
    keyCountSize, keysOffset, keysSize, offsetsOffset, offsetsSize,
    childrenOffset, childrenSize, nodeSize }

/-! ## Nodes -/

structure BtreeNode (K : Type) where
  parent : Option Addr
  children : List (Option Addr)
  flags : UInt8
  keyCount : Nat
  keys : List K
  offsets : List FileOffset
  deriving DecidableEq, Repr

/-- A tree: its root, its layout and its comparator. -/
structure Btree (K : Type) where
  root : Option Addr
  layout : BtreeLayout
  compare : K → K → Int

/-- Programs over the nodes. -/
abbrev NodeProg (K α : Type) := Prog (Heap (BtreeNode K)) α

/-- `BTREE_NODE_LEAF` -/
def btreeNodeLeaf : UInt8 := 1

def flagIsLeaf (flags : UInt8) : Bool := flags &&& btreeNodeLeaf != 0

def btreeNodeIsLeaf {K : Type} (node : BtreeNode K) : Bool := flagIsLeaf node.flags

/-- `btree_create` with the fields of its config. -/
def btreeCreate {K : Type} (nodeSize keySize : Nat) (compare : K → K → Int) : Btree K :=
  { root := none, layout := btreeLayoutCreate nodeSize keySize, compare }

variable {K : Type}

/-- The zeroed node that `allocate_node` hands out. -/
def zeroNode [Inhabited K] (layout : BtreeLayout) : BtreeNode K :=
  { parent := none
    children := List.replicate layout.childCount none
    flags := 0
    keyCount := 0
    keys := List.replicate layout.maxKeys default
    offsets := List.replicate layout.maxKeys 0 }

def allocateNode [Inhabited K] (layout : BtreeLayout) : NodeProg K Addr :=
  alloc (zeroNode layout)

/-- `node->parent = parent` -/
def setParent (node : Addr) (parent : Option Addr) : NodeProg K Unit := do
  let n ← load node
  store node { n with parent }

/-- `for (i = from; i < from + n; i++) owner->children[i]->parent = owner` -/
def adoptChildren (owner : Addr) (start : Nat) : Nat → NodeProg K Unit
  | 0 => pure ()
  | n + 1 => do
    let o ← load owner
    let p ← readAt o.children start
    let child ← deref p
    setParent child (some owner)
    adoptChildren owner (start + 1) n

/-! ## The two scans of a node -/

/-- The scan of `find_leaf` and `insert_value`: the first index from `i` on
whose key is not smaller than `key`, with `rem` keys left to look at. -/
def lowerBound (compare : K → K → Int) (key : K) (keys : List K) :
    (rem i : Nat) → Checked Nat
  | 0, i => .ok i
  | rem + 1, i => do
    let k ← readAt keys i
    if compare key k ≤ 0 then .ok i else lowerBound compare key keys rem (i + 1)

/-- The scan of `btree_search`, `btree_search_stream`, `find_node` and
`node_key_position`: whether `key` is there, and the index of the hit or of the
child to go on with. -/
def scanKeys (compare : K → K → Int) (key : K) (keys : List K) :
    (rem i : Nat) → Checked (Bool × Nat)
  | 0, i => .ok (false, i)
  | rem + 1, i => do
    let k ← readAt keys i
    if compare key k = 0 then .ok (true, i)
    else if compare key k < 0 then .ok (false, i)
    else scanKeys compare key keys rem (i + 1)

/-! ## Search -/

/-- The `do … while` of `btree_search`.  The child slot is read before the leaf
test, also in a leaf. -/
def searchFrom (tree : Btree K) (key : K) : Nat → Addr → NodeProg K (Option FileOffset)
  | 0, _ => throw .outOfFuel
  | fuel + 1, node => do
    let n ← load node
    let (found, c) ← scanKeys tree.compare key n.keys n.keyCount 0
    if found then
      let offset ← readAt n.offsets c
      pure (some offset)
    else
      let next ← readAt n.children c
      if btreeNodeIsLeaf n then pure none
      else
        let next ← deref next
        searchFrom tree key fuel next

/-- `btree_search`: the offset when the result is true. -/
def btreeSearch (tree : Btree K) (key : K) : NodeProg K (Option FileOffset) := do
  match tree.root with
  | none => pure none
  | some root =>
    let H ← get
    searchFrom tree key H.size root

/-! ## Insertion -/

def findLeaf (tree : Btree K) (key : K) : Nat → Addr → NodeProg K Addr
  | 0, _ => throw .outOfFuel
  | fuel + 1, candidate => do
    let n ← load candidate
    if btreeNodeIsLeaf n then pure candidate
    else
      let c ← lowerBound tree.compare key n.keys n.keyCount 0
      let p ← readAt n.children c
      let next ← deref p
      findLeaf tree key fuel next

/-- `insert_value`, with the arrays it leaves. -/
def insertValue (tree : Btree K) (keys : List K) (offsets : List FileOffset)
    (valueCount : Nat) (key : K) (offset : FileOffset) :
    Checked (List K × List FileOffset × Nat) := do
  let i ← lowerBound tree.compare key keys valueCount 0
  let keys ← shiftUp keys i (valueCount - i)
  let offsets ← shiftUp offsets i (valueCount - i)
  let keys ← writeAt keys i key
  let offsets ← writeAt offsets i offset
  .ok (keys, offsets, i)

/-- `insert_child`, with the array it leaves in `tmp_children`. -/
def insertChild (layout : BtreeLayout) (children tmpChildren : List (Option Addr))
    (idx : Nat) (newChild : Option Addr) : Checked (List (Option Addr)) := do
  let tmp ← copySlots tmpChildren 0 children 0 layout.childCount
  let tmp ← shiftUp tmp idx (layout.childCount - idx)
  writeAt tmp idx newChild

def insertIntoLeaf (tree : Btree K) (leaf : Addr) (key : K) (offset : FileOffset) :
    NodeProg K Bool := do
  let n ← load leaf
  if n.keyCount ≥ tree.layout.maxKeys then pure false
  else
    let (keys, offsets, _) ← insertValue tree n.keys n.offsets n.keyCount key offset
    store leaf { n with keys, offsets, keyCount := inc16 n.keyCount }
    pure true

def insertIntoNode (tree : Btree K) (parent child : Addr) (key : K)
    (offset : FileOffset) : NodeProg K Bool := do
  let n ← load parent
  if n.keyCount ≥ tree.layout.maxKeys then pure false
  else
    let (keys, offsets, idx) ← insertValue tree n.keys n.offsets n.keyCount key offset
    let keyCount := inc16 n.keyCount
    let children ← shiftUp n.children (idx + 1) (keyCount - (idx + 1))
    let children ← writeAt children (idx + 1) (some child)
    store parent { n with keys, offsets, keyCount, children }
    setParent child (some parent)
    pure true

section Allocating

variable [Inhabited K]

def createRoot (layout : BtreeLayout) (left right : Addr) (key : K)
    (offset : FileOffset) : NodeProg K Addr := do
  let root ← allocateNode layout
  let n ← load root
  let children ← writeAt n.children 0 (some left)
  let children ← writeAt children 1 (some right)
  let keys ← writeAt n.keys 0 key
  let offsets ← writeAt n.offsets 0 offset
  store root { parent := none, children, flags := 0, keyCount := 1, keys, offsets }
  setParent left (some root)
  setParent right (some root)
  pure root

/-- `split_node` up to its `if`: the entries go to `tmp_keys` and `tmp_offsets`
with the new one among them, and from there to the two nodes.  The result is
the two temporary arrays and the position of the new entry. -/
def splitEntries (tree : Btree K) (node right : Addr) (key : K) (offset : FileOffset)
    (tmpKeys : List K) (tmpOffsets : List FileOffset) :
    NodeProg K (List K × List FileOffset × Nat) := do
  let layout := tree.layout
  let n ← load node
  let tmpKeys ← copySlots tmpKeys 0 n.keys 0 layout.maxKeys
  let tmpOffsets ← copySlots tmpOffsets 0 n.offsets 0 layout.maxKeys
  let (tmpKeys, tmpOffsets, idx) ←
    insertValue tree tmpKeys tmpOffsets layout.maxKeys key offset
  let keys ← copySlots n.keys 0 tmpKeys 0 layout.leftCount
  let offsets ← copySlots n.offsets 0 tmpOffsets 0 layout.leftCount
  store node { n with keyCount := layout.leftCount, keys, offsets }
  let r ← load right
  let keys ← copySlots r.keys 0 tmpKeys layout.rightStart layout.rightCount
  let offsets ← copySlots r.offsets 0 tmpOffsets layout.rightStart layout.rightCount
  store right { r with
    parent := n.parent, keyCount := layout.rightCount, flags := n.flags, keys, offsets }
  pure (tmpKeys, tmpOffsets, idx)

/-- The `if (!btree_node_is_leaf(right))` of `split_node`. -/
def splitChildren (tree : Btree K) (node right : Addr) (idx : Nat)
    (incomingChild : Option Addr) : NodeProg K Unit := do
  let layout := tree.layout
  let r ← load right
  if btreeNodeIsLeaf r then pure ()
  else
    let n ← load node
    let tmpChildren ← insertChild layout n.children
      (List.replicate (layout.childCount + 1) none) (idx + 1) incomingChild
    let children ← copySlots n.children 0 tmpChildren 0 (layout.leftCount + 1)
    store node { n with children }
    let children ←
      copySlots r.children 0 tmpChildren layout.rightStart (layout.rightCount + 1)
    store right { r with children }
    adoptChildren right 0 (layout.rightCount + 1)

/-- `split_node`, with the arrays it leaves in `tmp_keys` and `tmp_offsets`. -/
def splitNode (tree : Btree K) (node right : Addr) (key : K) (offset : FileOffset)
    (tmpKeys : List K) (tmpOffsets : List FileOffset) (incomingChild : Option Addr) :
    NodeProg K (List K × List FileOffset) := do
  let (tmpKeys, tmpOffsets, idx) ←
    splitEntries tree node right key offset tmpKeys tmpOffsets
  splitChildren tree node right idx incomingChild
  pure (tmpKeys, tmpOffsets)

def createLeaf (layout : BtreeLayout) (key : K) (offset : FileOffset) :
    NodeProg K Addr := do
  let node ← allocateNode layout
  let n ← load node
  let keys ← writeAt n.keys 0 key
  let offsets ← writeAt n.offsets 0 offset
  store node { n with parent := none, keys, keyCount := 1, offsets, flags := btreeNodeLeaf }
  pure node

/-- What follows each split of `btree_insert_do`: the separator in the middle
of the temporary arrays goes into a new root or into the parent.  The result is
the root, or nothing when the parent is full. -/
def placeSeparator (tree : Btree K) (root node right : Addr) (tmpKeys : List K)
    (tmpOffsets : List FileOffset) : NodeProg K (Option Addr) := do
  let key ← readAt tmpKeys tree.layout.mid
  let offset ← readAt tmpOffsets tree.layout.mid
  let n ← load node
  match n.parent with
  | none =>
    let newRoot ← createRoot tree.layout node right key offset
    pure (some newRoot)
  | some parent =>
    let success ← insertIntoNode tree parent right key offset
    pure (if success then some root else none)

/-- The `while (node->parent != nullptr && !insert_node_success)` loop of
`btree_insert_do`, entered while the separator is still to be placed. -/
def splitParents (tree : Btree K) (root : Addr) :
    Nat → (node right : Addr) → List K → List FileOffset → NodeProg K Addr
  | 0, _, _, _, _ => throw .outOfFuel
  | fuel + 1, node, right, tmpKeys, tmpOffsets => do
    let n ← load node
    match n.parent with
    | none => pure root
    | some parent =>
      let incomingChild := right
      let right ← allocateNode tree.layout
      let keyCopy ← readAt tmpKeys tree.layout.mid
      let offset ← readAt tmpOffsets tree.layout.mid
      let (tmpKeys, tmpOffsets) ← splitNode tree parent right keyCopy offset
        tmpKeys tmpOffsets (some incomingChild)
      match ← placeSeparator tree root parent right tmpKeys tmpOffsets with
      | some newRoot => pure newRoot
      | none => splitParents tree root fuel parent right tmpKeys tmpOffsets

/-- Place the separator, splitting full parents until it fits. -/
def placeOrSplit (tree : Btree K) (root : Addr) (fuel : Nat) (node right : Addr)
    (tmpKeys : List K) (tmpOffsets : List FileOffset) : NodeProg K Addr := do
  match ← placeSeparator tree root node right tmpKeys tmpOffsets with
  | some newRoot => pure newRoot
  | none => splitParents tree root fuel node right tmpKeys tmpOffsets

/-- The part of `btree_insert_do` that follows `find_leaf`. -/
def insertAtLeaf (tree : Btree K) (root : Addr) (fuel : Nat) (node : Addr) (key : K)
    (offset : FileOffset) : NodeProg K Addr := do
  let insertLeafSuccess ← insertIntoLeaf tree node key offset
  if insertLeafSuccess then pure root
  else
    let right ← allocateNode tree.layout
    let (tmpKeys, tmpOffsets) ← splitNode tree node right key offset
      (List.replicate (tree.layout.maxKeys + 1) default)
      (List.replicate (tree.layout.maxKeys + 1) 0) none
    placeOrSplit tree root fuel node right tmpKeys tmpOffsets

/-- `btree_insert_do`: the root afterwards. -/
def btreeInsertDo (tree : Btree K) (key : K) (offset : FileOffset) :
    NodeProg K Addr := do
  match tree.root with
  | none => createLeaf tree.layout key offset
  | some root =>
    let H ← get
    let node ← findLeaf tree key H.size root
    insertAtLeaf tree root H.size node key offset

def btreeInsert (tree : Btree K) (key : K) (offset : FileOffset) :
    NodeProg K (Btree K) := do
  let root ← btreeInsertDo tree key offset
  pure { tree with root := some root }

end Allocating

/-! ## Deletion -/

/-- `remove_from_leaf`.  The count goes down before the tail moves. -/
def removeFromLeaf (node : Addr) (pos : Nat) : NodeProg K Unit := do
  let n ← load node
  if btreeNodeIsLeaf n then
    let keyCount := dec16 n.keyCount
    if keyCount > pos then
      let keys ← copySlots n.keys pos n.keys (pos + 1) (keyCount - pos)
      let offsets ← copySlots n.offsets pos n.offsets (pos + 1) (keyCount - pos)
      store node { n with keyCount, keys, offsets }
    else
      store node { n with keyCount }
  else pure ()

/-- `n` slots of a child array moved from slot `s` to slot `d`; a leaf has no
children to move. -/
def moveChildren (node : BtreeNode K) (d s n : Nat) : Checked (List (Option Addr)) :=
  if btreeNodeIsLeaf node then .ok node.children
  else copySlots node.children d node.children s n

/-- The `if (!btree_node_is_leaf(child))` of `btree_steal_left`: the last child
of `left` becomes the first one of `child`. -/
def takeLastChild (child left : Addr) : NodeProg K Unit := do
  let c ← load child
  if btreeNodeIsLeaf c then pure ()
  else
    let l ← load left
    let moved ← readAt l.children l.keyCount
    let children ← writeAt c.children 0 moved
    store child { c with children }
    let moved ← deref moved
    setParent moved (some child)

def btreeStealLeft (parent : Addr) (keyIndex : Nat) (child left : Addr) :
    NodeProg K Unit := do
  let c ← load child
  let keys ← copySlots c.keys 1 c.keys 0 c.keyCount
  let offsets ← copySlots c.offsets 1 c.offsets 0 c.keyCount
  let children ← moveChildren c 1 0 (c.keyCount + 1)
  let p ← load parent
  let parentKey ← readAt p.keys keyIndex
  let parentOffset ← readAt p.offsets keyIndex
  let keys ← writeAt keys 0 parentKey
  let offsets ← writeAt offsets 0 parentOffset
  store child { c with keyCount := inc16 c.keyCount, keys, offsets, children }
  takeLastChild child left
  let l ← load left
  let rightmostIndex := u16 ((l.keyCount : Int) - 1)
  let rightmostKey ← readAt l.keys rightmostIndex
  let rightmostOffset ← readAt l.offsets rightmostIndex
  let p ← load parent
  let keys ← writeAt p.keys keyIndex rightmostKey
  let offsets ← writeAt p.offsets keyIndex rightmostOffset
  store parent { p with keys, offsets }
  let l ← load left
  store left { l with keyCount := dec16 l.keyCount }

/-- The `if (!btree_node_is_leaf(child))` of `btree_steal_right`: the first
child of `right` becomes the last one of `child`. -/
def takeFirstChild (child right : Addr) : NodeProg K Unit := do
  let c ← load child
  if btreeNodeIsLeaf c then pure ()
  else
    let r ← load right
    let moved ← readAt r.children 0
    let children ← writeAt c.children (c.keyCount + 1) moved
    store child { c with children }
    let moved ← deref moved
    setParent moved (some child)

/-- `btree_steal_right`.  The three `memmove` calls on `right` move
`right->key_count` slots (and one child more) starting at slot 1. -/
def btreeStealRight (parent : Addr) (keyIndex : Nat) (child right : Addr) :
    NodeProg K Unit := do
  let p ← load parent
  let parentKey ← readAt p.keys keyIndex
  let parentOffset ← readAt p.offsets keyIndex
  let c ← load child
  let keys ← writeAt c.keys c.keyCount parentKey
  let offsets ← writeAt c.offsets c.keyCount parentOffset
  store child { c with keys, offsets }
  takeFirstChild child right
  let c ← load child
  store child { c with keyCount := inc16 c.keyCount }
  let r ← load right
  let leftmostKey ← readAt r.keys 0
  let leftmostOffset ← readAt r.offsets 0
  let p ← load parent
  let keys ← writeAt p.keys keyIndex leftmostKey
  let offsets ← writeAt p.offsets keyIndex leftmostOffset
  store parent { p with keys, offsets }
  let r ← load right
  let keys ← copySlots r.keys 0 r.keys 1 r.keyCount
  let offsets ← copySlots r.offsets 0 r.offsets 1 r.keyCount
  let children ← moveChildren r 0 1 (r.keyCount + 1)
  store right { r with keys, offsets, children, keyCount := dec16 r.keyCount }

/-- The `if (!btree_node_is_leaf(left))` of `btree_merge`.  `left` already
counts the separator, and `left_child_count` is one more than that count. -/
def mergeChildren (left right : Addr) : NodeProg K Unit := do
  let l ← load left
  if btreeNodeIsLeaf l then pure ()
  else
    let r ← load right
    let leftChildCount := l.keyCount + 1
    let rightChildCount := r.keyCount + 1
    let children ← copySlots l.children leftChildCount r.children 0 rightChildCount
    store left { l with children }
    adoptChildren left leftChildCount rightChildCount

/-- The shift of the parent's arrays in `btree_merge`. -/
def closeGap (p : BtreeNode K) (leftIndex : Nat) : Checked (BtreeNode K) :=
  let rightIndex := leftIndex + 1
  let parentShiftCount := u16 ((p.keyCount : Int) - rightIndex)
  if parentShiftCount > 0 then do
    let keys ← copySlots p.keys leftIndex p.keys rightIndex parentShiftCount
    let offsets ← copySlots p.offsets leftIndex p.offsets rightIndex parentShiftCount
    let children ←
      copySlots p.children rightIndex p.children (rightIndex + 1) parentShiftCount
    .ok { p with keys, offsets, children }
  else .ok p

/-- `parent->children[i]` -/
def childAt (parent : Addr) (i : Nat) : NodeProg K Addr := do
  let p ← load parent
  let child ← readAt p.children i
  deref child

def btreeMerge (parent : Addr) (leftIndex : Nat) : NodeProg K Unit := do
  let left ← childAt parent leftIndex
  let right ← childAt parent (leftIndex + 1)
  let l ← load left
  let p ← load parent
  let separator ← readAt p.keys leftIndex
  let separatorOffset ← readAt p.offsets leftIndex
  let keys ← writeAt l.keys l.keyCount separator
  let offsets ← writeAt l.offsets l.keyCount separatorOffset
  let keyCount := inc16 l.keyCount
  let r ← load right
  let keys ← copySlots keys keyCount r.keys 0 r.keyCount
  let offsets ← copySlots offsets keyCount r.offsets 0 r.keyCount
  store left { l with keys, offsets, keyCount }
  mergeChildren left right
  let l ← load left
  store left { l with keyCount := (l.keyCount + r.keyCount) % 65536 }
  let p ← load parent
  let p ← closeGap p leftIndex
  store parent { p with keyCount := dec16 p.keyCount }
  free right

/-- `parent->children[i]->key_count > min_keys` -/
def childHasSpare (tree : Btree K) (parent : Addr) (i : Nat) : NodeProg K Bool := do
  let child ← childAt parent i
  let c ← load child
  pure (c.keyCount > tree.layout.minKeys)

def ensureMinKeys (tree : Btree K) (parent : Addr) (childIndex : Nat) :
    NodeProg K Unit := do
  let childSpare ← childHasSpare tree parent childIndex
  if childSpare then pure ()
  else
    let leftSpare ← (if childIndex > 0 then childHasSpare tree parent (childIndex - 1)
      else pure false : NodeProg K Bool)
    if leftSpare then
      let child ← childAt parent childIndex
      let left ← childAt parent (childIndex - 1)
      btreeStealLeft parent (childIndex - 1) child left
    else
      let p ← load parent
      let rightSpare ← (if childIndex < p.keyCount then
          childHasSpare tree parent (childIndex + 1) else pure false : NodeProg K Bool)
      if rightSpare then
        let child ← childAt parent childIndex
        let right ← childAt parent (childIndex + 1)
        btreeStealRight parent childIndex child right
      else
        btreeMerge parent (if childIndex > 0 then childIndex - 1 else childIndex)

def nodeKeyPosition (tree : Btree K) (node : Addr) (key : K) :
    NodeProg K (Bool × Nat) := do
  let n ← load node
  let result ← scanKeys tree.compare key n.keys n.keyCount 0
  pure result

/-- `delete_recursive`.  The result of the second `node_key_position` is only
used for the position. -/
def deleteRecursive (tree : Btree K) : Nat → (node : Addr) → (key : K) → NodeProg K Unit
  | 0, _, _ => throw .outOfFuel
  | fuel + 1, node, key => do
    let (found, pos) ← nodeKeyPosition tree node key
    if found then
      let n ← load node
      if btreeNodeIsLeaf n then removeFromLeaf node pos
      else
        ensureMinKeys tree node pos
        let (_, pos) ← nodeKeyPosition tree node key
        let child ← childAt node pos
        let c ← load child
        let last := u16 ((c.keyCount : Int) - 1)
        let tmpKey ← readAt c.keys last
        let tmpOffset ← readAt c.offsets last
        let n ← load node
        let keys ← writeAt n.keys pos tmpKey
        let offsets ← writeAt n.offsets pos tmpOffset
        store node { n with keys, offsets }
        deleteRecursive tree fuel child tmpKey
    else
      ensureMinKeys tree node pos
      let (_, pos) ← nodeKeyPosition tree node key
      let child ← childAt node pos
      deleteRecursive tree fuel child key

/-- `btree_delete`.  Its third parameter is not used by the source. -/
def btreeDelete (tree : Btree K) (key : K) : NodeProg K (Bool × Btree K) := do
  match ← btreeSearch tree key with
  | none => pure (false, tree)
  | some _ =>
    let root ← deref tree.root
    let H ← get
    deleteRecursive tree H.size root key
    let r ← load root
    if r.keyCount = 0 ∧ ¬btreeNodeIsLeaf r then
      let newRoot ← readAt r.children 0
      let newRoot ← deref newRoot
      setParent newRoot none
      free root
      pure (true, { tree with root := some newRoot })
    else pure (true, tree)

end Index

end Maxql
