import Maxql.Index.BtreeReload
import Maxql.Index.KeyOrder
import Maxql.Schema.Planned
import Mathlib.Algebra.Order.BigOperators.Group.List

/-!
# An index of a table over its tree

The functions of `src/index/index.c` over a B-tree of `btree.c` whose nodes are
compared with `compound_compare`, and the finite map of keys that the engine is
stated over.  There are four groups.

* The functions.  `keyCompare` is the comparison of the tree.
* The keys.  `OrderedIndex` says what the tree asks of them, and
  `orderedIndex_of_built` that a created index without `float` parts, whose
  `int` parts lie inside its keys, has it.
* The runs.  `Indexed` are the states of an index, in memory and across the
  files, next to the map; `Indexed.carried` is their invariant.
* The result.  `indexed_refines` is the simulation: each function does to the
  tree what it does to the map.
-/

namespace Maxql.Index

open Program Bytes SortedEntries

/-! ## The functions -/

/-- `compound_compare` on keys of the index.  Byte strings that are no keys are told apart by
their bytes. -/
def keyCompare (indexDef : IndexDefinition) (a b : Fixed indexDef.keySize) : Int :=
  match compoundCompare indexDef a.1 b.1 with
  | .ok result => if result ≠ 0 then result else memcmp a.1 b.1
  | .error _ => 0

/-- `prepare_values` and `prepare_index_key`, which fills the `key_size` bytes of a buffer. -/
def indexKey [UnionMemory] (indexDef : IndexDefinition) (values : DataRow) :
    Checked (Fixed indexDef.keySize) := do
  let key ← rowKey indexDef values
  if h : key.length = indexDef.keySize then .ok ⟨key, h⟩ else .error .outOfBounds

section Functions

variable {indexDef : IndexDefinition}

def indexCreate (indexDef : IndexDefinition) : Btree (Fixed indexDef.keySize) :=
  btreeCreate indexDef.nodeSize indexDef.keySize (keyCompare indexDef)

def indexInsert [UnionMemory] (index : Btree (Fixed indexDef.keySize)) (values : DataRow)
    (offset : FileOffset) : NodeProg (Fixed indexDef.keySize) (Btree (Fixed indexDef.keySize)) := do
  let key ← indexKey indexDef values
  btreeInsert index key offset

def indexSearch [UnionMemory] (index : Btree (Fixed indexDef.keySize)) (values : DataRow) :
    NodeProg (Fixed indexDef.keySize) (Option FileOffset) := do
  let key ← indexKey indexDef values
  btreeSearch index key

def indexDelete [UnionMemory] (index : Btree (Fixed indexDef.keySize)) (values : DataRow) :
    NodeProg (Fixed indexDef.keySize) (Bool × Btree (Fixed indexDef.keySize)) := do
  let key ← indexKey indexDef values
  btreeDelete index key

/-- `index_load` with the first function that reads the tree. -/
def indexLoad (indexDef : IndexDefinition) (file : List UInt8) :
    NodeProg (Fixed indexDef.keySize) (Btree (Fixed indexDef.keySize)) :=
  openIndex indexDef.nodeSize (keyCompare indexDef) file

end Functions

/-! ## The keys -/

/-- What the tree of an index asks of its keys: the key of every row of the types of the columns
fills the buffer, three of them fit into a node, and `compound_compare`, which reads nothing
behind them, is their comparison in the tree, which is a total order. -/
structure OrderedIndex [UnionMemory] (schema : TableSchema) (indexDef : IndexDefinition)
    : Prop where
  nodeSize : indexDef.nodeSize = btreeNodeDefaultSize
  keySize : indexDef.keySize ≤ 1020
  keyed : ∀ {row}, RowOfTypes schema.columns row →
    rowKey indexDef row = .ok (keyBytes indexDef row) ∧
      (keyBytes indexDef row).length = indexDef.keySize
  compares : ∀ {a b : Fixed indexDef.keySize}, IsKey schema indexDef a.1 →
    IsKey schema indexDef b.1 → ∀ behind behind',
      compoundCompare indexDef (a.1 ++ behind) (b.1 ++ behind') = .ok (keyCompare indexDef a b)
  total : TotalCmp (keyCompare indexDef)

section Ordered

variable {schema : TableSchema} {indexDef : IndexDefinition}

/-- The statement that has made an index of a table. -/
theorem exists_plan_of_built {indexMeta : IndexMeta} (hmeta : BuiltIndexes schema indexMeta)
    (hmem : indexDef ∈ indexMeta) :
    ∃ indexMeta' stmt, planCreateIndex schema indexMeta' stmt = .ok indexDef := by
  induction hmeta with
  | none => cases hmem
  | @create indexMeta _ stmt indexDef' _ _ _ hplan ih =>
    rcases List.mem_append.1 hmem with hmem | hmem
    · exact ih hmem
    · rw [List.mem_singleton.1 hmem]
      exact ⟨indexMeta, stmt, hplan⟩

/-- At most four parts of at most 255 bytes. -/
theorem keySize_le_of_planned (hsound : SchemaSound schema)
    (hplanned : PlannedIndex schema indexDef) : indexDef.keySize ≤ 1020 := by
  have hbyte : ∀ len ∈ indexDef.parts.map (·.partLen), len ≤ 255 := by
    intro len hlen
    obtain ⟨part, hpart, rfl⟩ := List.mem_map.1 hlen
    obtain ⟨col, -, hcol, -, -, hle, -⟩ := hplanned.parts part hpart
    exact Nat.le_trans hle (hsound.columns col (List.mem_of_getElem? hcol)).byteLen_le
  have hsum : (indexDef.parts.map (·.partLen)).sum
      ≤ (indexDef.parts.map (·.partLen)).length * 255 := List.sum_le_card_nsmul _ 255 hbyte
  have hcount : indexDef.parts.length ≤ 4 := hplanned.partCount
  rw [List.length_map] at hsum
  rw [hplanned.keySize]
  omega

theorem compoundCompare_lexParts
    (hsize : indexDef.keySize = (indexDef.parts.map (·.partLen)).sum)
    (hfloat : ∀ part ∈ indexDef.parts, part.partCompare ≠ .compareFloatKeys)
    (hinside : IntPartsInside indexDef.parts) (a b : Fixed indexDef.keySize)
    (behind behind' : List UInt8) :
    compoundCompare indexDef (a.1 ++ behind) (b.1 ++ behind')
      = .ok (lexParts indexDef.parts a.1 b.1) :=
  compoundCompare_eq (a.2.trans (hsize.trans (Nat.zero_add _).symm))
    (b.2.trans (hsize.trans (Nat.zero_add _).symm)) hfloat hinside behind behind'

/-- The comparison of the tree, part by part. -/
theorem keyCompare_eq (hsize : indexDef.keySize = (indexDef.parts.map (·.partLen)).sum)
    (hfloat : ∀ part ∈ indexDef.parts, part.partCompare ≠ .compareFloatKeys)
    (hinside : IntPartsInside indexDef.parts) (a b : Fixed indexDef.keySize) :
    keyCompare indexDef a b =
      if lexParts indexDef.parts a.1 b.1 ≠ 0 then lexParts indexDef.parts a.1 b.1
      else memcmp a.1 b.1 := by
  have hrun := compoundCompare_lexParts hsize hfloat hinside a b [] []
  rw [List.append_nil, List.append_nil] at hrun
  rw [keyCompare, hrun]

theorem orderedIndex_of_built [UnionMemory] {indexMeta : IndexMeta} (hsound : SchemaSound schema)
    (hmeta : BuiltIndexes schema indexMeta) (hmem : indexDef ∈ indexMeta)
    (hfloat : ∀ part ∈ indexDef.parts, part.partCompare ≠ .compareFloatKeys)
    (hinside : IntPartsInside indexDef.parts) : OrderedIndex schema indexDef := by
  obtain ⟨indexMeta', stmt, hplan⟩ := exists_plan_of_built hmeta hmem
  have hplanned := (hmeta.planned hsound).1 indexDef hmem
  have hcolumns := hsound.columns
  have hsize := hplanned.keySize
  have hcompare := keyCompare_eq hsize hfloat hinside
  refine ⟨hplanned.nodeSize, keySize_le_of_planned hsound hplanned, fun {row} hrow => ?_,
    fun {a b} ha hb behind behind' => ?_, ?_⟩
  · have hkey := rowKey_eq (planCreateIndex_valid hplan) hcolumns hrow
    obtain ⟨_, _, _, hlen⟩ := IsKey.bytes hplan hcolumns ⟨row, hrow, hkey⟩
    exact ⟨hkey, hlen.trans hsize.symm⟩
  · rw [compoundCompare_lexParts hsize hfloat hinside, hcompare]
    by_cases hzero : lexParts indexDef.parts a.1 b.1 = 0
    · -- keys of rows that compare equal are the same bytes
      obtain ⟨vs, hvs, hva, -⟩ := ha.bytes hplan hcolumns
      obtain ⟨ws, hws, hwb, -⟩ := hb.bytes hplan hcolumns
      have hbytes : a.1 = b.1 := by
        have hpieces := hzero
        rw [hva, hwb] at hpieces ⊢
        exact lexParts_eq_zero hvs hws hfloat hinside hpieces
      rw [if_neg (not_not.2 hzero), (memcmp_eq_zero (a.2.trans b.2.symm)).2 hbytes]
      exact congrArg Except.ok hzero
    · rw [if_pos hzero]
  · have horder := (preCmp_lexParts hfloat (Nat.le_of_eq hsize.symm)).next
      (PreCmp.of_total (totalCmp_memcmp indexDef.keySize))
    have htotal := horder.total fun {a b} hzero => by
      by_cases hlex : lexParts indexDef.parts a.1 b.1 = 0
      · rw [if_neg (not_not.2 hlex)] at hzero
        exact (totalCmp_memcmp indexDef.keySize).eq_zero.1 hzero
      · rw [if_pos hlex] at hzero
        exact absurd hzero hlex
    have hfun : keyCompare indexDef = fun a b =>
        if lexParts indexDef.parts a.1 b.1 ≠ 0 then lexParts indexDef.parts a.1 b.1
        else memcmp a.1 b.1 := funext fun a => funext fun b => hcompare a b
    rw [hfun]
    exact htotal

/-- The key of a row, as the buffer that the tree gets. -/
theorem OrderedIndex.indexKey_eq [UnionMemory] (ho : OrderedIndex schema indexDef) {row : DataRow}
    (hrow : RowOfTypes schema.columns row) :
    ∃ key : Fixed indexDef.keySize, indexKey indexDef row = .ok key ∧
      rowKey indexDef row = .ok key.1 ∧ IsKey schema indexDef key.1 := by
  obtain ⟨hkey, hlen⟩ := ho.keyed hrow
  refine ⟨⟨_, hlen⟩, ?_, hkey, row, hrow, hkey⟩
  rw [indexKey, hkey, Checked.ok_bind, dif_pos hlen]

end Ordered

/-! ## The runs -/

/-- The states of an index next to the map of its keys, from `index_create` on: a row whose key
is absent is inserted, a row is deleted where `deleteOk` holds, and the index is saved at any
point and goes on as what a later `index_load` makes of its file, in any heap. -/
inductive Indexed [UnionMemory] (schema : TableSchema) (indexDef : IndexDefinition) :
    Btree (Fixed indexDef.keySize) → Heap (BtreeNode (Fixed indexDef.keySize)) → KeyMap →
      Prop where
  | create (H : Heap (BtreeNode (Fixed indexDef.keySize))) :
      Indexed schema indexDef (indexCreate indexDef) H Maxql.indexCreate
  | insert {tree tree' : Btree (Fixed indexDef.keySize)}
      {H H' : Heap (BtreeNode (Fixed indexDef.keySize))} {index index' : KeyMap} {row : DataRow}
      {offset : FileOffset} (hi : Indexed schema indexDef tree H index)
      (hrow : RowOfTypes schema.columns row)
      (habsent : indexKeyExists index indexDef row = .ok false)
      (hrun : Runs (indexInsert tree row offset) H tree' H')
      (hindex : Maxql.indexInsert index indexDef row offset.toNat = .ok index') :
      Indexed schema indexDef tree' H' index'
  | delete {tree tree' : Btree (Fixed indexDef.keySize)}
      {H H' : Heap (BtreeNode (Fixed indexDef.keySize))} {index index' : KeyMap} {row : DataRow}
      {deleted deleted' : Bool} (hi : Indexed schema indexDef tree H index)
      (hrow : RowOfTypes schema.columns row)
      (hok : ∀ key, indexKey indexDef row = .ok key → index key.1 ≠ none → deleteOk tree H key)
      (hrun : Runs (indexDelete tree row) H (deleted, tree') H')
      (hindex : Maxql.indexDelete index indexDef row = .ok (deleted', index')) :
      Indexed schema indexDef tree' H' index'
  | reload {tree tree' : Btree (Fixed indexDef.keySize)}
      {H H₀ H₁ H' : Heap (BtreeNode (Fixed indexDef.keySize))} {index : KeyMap}
      {file : List UInt8} (hi : Indexed schema indexDef tree H index)
      (hfit : H.size * indexDef.nodeSize ≤ 2 ^ 63) (hsave : Runs (btreeSave tree) H file H₁)
      (hload : Runs (indexLoad indexDef file) H₀ tree' H') :
      Indexed schema indexDef tree' H' index

section Runs

variable {schema : TableSchema} {indexDef : IndexDefinition}
  {tree : Btree (Fixed indexDef.keySize)} {H : Heap (BtreeNode (Fixed indexDef.keySize))}
  {index : KeyMap}

/-- The map of the keys of an index has the entries of the map of its tree, and no others. -/
structure Mirrors [UnionMemory] (schema : TableSchema) (indexDef : IndexDefinition) (index : KeyMap)
    (m : Fixed indexDef.keySize → Option FileOffset) : Prop where
  get : ∀ key, index key.1 = (m key).map UInt64.toNat
  isKey : ∀ key, index key ≠ none → IsKey schema indexDef key

theorem Mirrors.none_iff [UnionMemory] {m : Fixed indexDef.keySize → Option FileOffset}
    (h : Mirrors schema indexDef index m) (key : Fixed indexDef.keySize) :
    index key.1 = none ↔ m key = none := by
  rw [h.get, Option.map_eq_none_iff]

theorem Mirrors.update [UnionMemory] {m : Fixed indexDef.keySize → Option FileOffset}
    (h : Mirrors schema indexDef index m) {key : Fixed indexDef.keySize}
    (hkey : IsKey schema indexDef key.1) (v : Option FileOffset) :
    Mirrors schema indexDef (Function.update index key.1 (v.map UInt64.toNat))
      (Function.update m key v) := by
  constructor
  · intro other
    by_cases heq : other = key
    · rw [heq, Function.update_self, Function.update_self]
    · have hne : other.1 ≠ key.1 := fun hbytes => heq (Subtype.ext hbytes)
      rw [Function.update_of_ne hne, Function.update_of_ne heq]
      exact h.get other
  · intro other hother
    by_cases heq : other = key.1
    · rw [heq]
      exact hkey
    · rw [Function.update_of_ne heq] at hother
      exact h.isKey other hother

theorem indexKeyExists_eq [UnionMemory] {row : DataRow} {key : Key}
    (hkey : rowKey indexDef row = .ok key) :
    indexKeyExists index indexDef row = .ok (index key).isSome := by
  rw [indexKeyExists, Maxql.indexSearch, hkey, Checked.ok_bind, Checked.ok_bind]

/-- An index that has been created, in whatever order it was used, is a tree of `Carried`. -/
theorem Indexed.carried [UnionMemory] (ho : OrderedIndex schema indexDef)
    (hi : Indexed schema indexDef tree H index) :
    ∃ m, Carried indexDef.nodeSize (keyCompare indexDef) tree H m ∧
      Mirrors schema indexDef index m := by
  induction hi with
  | create H => exact ⟨_, .create H, fun _ => rfl, fun _ hkey => absurd rfl hkey⟩
  | @insert tree tree' H H' index index' row offset _ hrow habsent hrun hindex ih =>
    obtain ⟨m, hk, hm⟩ := ih
    obtain ⟨key, hkey, hbytes, hiskey⟩ := ho.indexKey_eq hrow
    rw [indexKeyExists_eq hbytes] at habsent
    have hnone : m key = none := by
      rw [← hm.none_iff, ← Option.isSome_eq_false_iff.trans Option.isNone_iff_eq_none]
      exact Except.ok.inj habsent
    rw [Maxql.indexInsert, hbytes, Checked.ok_bind] at hindex
    cases hindex
    exact ⟨_, .insert hk hnone ((Runs.lift hkey H).rest hrun), hm.update hiskey (some offset)⟩
  | @delete tree tree' H H' index index' row deleted deleted' _ hrow hok hrun hindex ih =>
    obtain ⟨m, hk, hm⟩ := ih
    obtain ⟨key, hkey, hbytes, hiskey⟩ := ho.indexKey_eq hrow
    rw [Maxql.indexDelete, hbytes, Checked.ok_bind] at hindex
    cases hindex
    have hok' : m key ≠ none → deleteOk tree H key := fun hsome =>
      hok key hkey fun hnone => hsome ((hm.none_iff key).1 hnone)
    exact ⟨_, .delete hk hok' ((Runs.lift hkey H).rest hrun), hm.update hiskey none⟩
  | @reload tree tree' H H₀ H₁ H' index file _ hfit hsave hload ih =>
    obtain ⟨m, hk, hm⟩ := ih
    exact ⟨m, .reload hk hfit hsave hload, hm⟩

/-- The tree holds the entries of the map. -/
theorem Indexed.holds [UnionMemory] (ho : OrderedIndex schema indexDef)
    (hi : Indexed schema indexDef tree H index) :
    tree.layout = btreeLayoutCreate indexDef.nodeSize indexDef.keySize ∧ tree.layout.Sound ∧
      tree.layout.Packed indexDef.keySize ∧ tree.compare = keyCompare indexDef ∧
      ∃ entries, Holds tree H entries ∧
        Mirrors schema indexDef index (lookup tree.compare entries) := by
  obtain ⟨m, hk, hm⟩ := hi.carried ho
  have hlow : 11 ≤ indexDef.nodeSize := by rw [ho.nodeSize]; decide
  have hhigh : indexDef.nodeSize < 65536 := by rw [ho.nodeSize]; decide
  have hmax : 3 ≤ (btreeLayoutCreate indexDef.nodeSize indexDef.keySize).maxKeys := by
    rw [ho.nodeSize]
    exact three_le_maxKeys ho.keySize
  obtain ⟨hlayout, hcompare, entries, hH, rfl⟩ := hk.holds hlow hhigh hmax ho.total
  rw [hlayout, hcompare]
  exact ⟨rfl, sound_btreeLayoutCreate hmax, packed_btreeLayoutCreate hlow hhigh, rfl, entries,
    hH, hm⟩

theorem Indexed.search_runs [UnionMemory] (ho : OrderedIndex schema indexDef)
    (hi : Indexed schema indexDef tree H index) {row : DataRow}
    (hrow : RowOfTypes schema.columns row) :
    ∃ found, Runs (indexSearch tree row) H found H ∧
      Maxql.indexSearch index indexDef row = .ok (found.map UInt64.toNat) := by
  obtain ⟨-, hL, -, hcompare, entries, hH, hm⟩ := hi.holds ho
  obtain ⟨key, hkey, hbytes, -⟩ := ho.indexKey_eq hrow
  have hsearch := runs_btreeSearch hL (hcompare ▸ ho.total) hH key
  refine ⟨_, Runs.bind (Runs.lift hkey H) hsearch, ?_⟩
  rw [Maxql.indexSearch, hbytes, Checked.ok_bind, hm.get]

theorem Indexed.insert_runs [UnionMemory] (ho : OrderedIndex schema indexDef)
    (hi : Indexed schema indexDef tree H index) {row : DataRow} {offset : FileOffset}
    (hrow : RowOfTypes schema.columns row)
    (habsent : indexKeyExists index indexDef row = .ok false) :
    ∃ tree' H' index', Runs (indexInsert tree row offset) H tree' H' ∧
      Maxql.indexInsert index indexDef row offset.toNat = .ok index' ∧
      Indexed schema indexDef tree' H' index' := by
  obtain ⟨-, hL, -, hcompare, entries, hH, hm⟩ := hi.holds ho
  obtain ⟨key, hkey, hbytes, -⟩ := ho.indexKey_eq hrow
  have hc : TotalCmp tree.compare := hcompare ▸ ho.total
  have hnot : key ∉ entries.map Prod.fst := by
    intro hmem
    rw [indexKeyExists_eq hbytes, hm.get, Option.isSome_map] at habsent
    have hsome := (mem_keys_iff hc).1 hmem
    rw [Option.ne_none_iff_isSome] at hsome
    exact Bool.false_ne_true ((Except.ok.inj habsent).symm.trans hsome)
  obtain ⟨root, H', hrun, -⟩ := runs_btreeInsert (v := offset) hL hc hH hnot
  have hinsert : Runs (indexInsert tree row offset) H _ H' := Runs.bind (Runs.lift hkey H) hrun
  have hindex : Maxql.indexInsert index indexDef row offset.toNat
      = .ok (Function.update index key.1 (some offset.toNat)) := by
    rw [Maxql.indexInsert, hbytes, Checked.ok_bind]
  exact ⟨_, H', _, hinsert, hindex, .insert hi hrow habsent hinsert hindex⟩

theorem Indexed.delete_runs [UnionMemory] (ho : OrderedIndex schema indexDef)
    (hi : Indexed schema indexDef tree H index) {row : DataRow}
    (hrow : RowOfTypes schema.columns row)
    (hok : ∀ key, indexKey indexDef row = .ok key → index key.1 ≠ none → deleteOk tree H key) :
    ∃ deleted tree' H' index', Runs (indexDelete tree row) H (deleted, tree') H' ∧
      Maxql.indexDelete index indexDef row = .ok (deleted, index') ∧
      Indexed schema indexDef tree' H' index' := by
  obtain ⟨-, hL, -, hcompare, entries, hH, hm⟩ := hi.holds ho
  obtain ⟨key, hkey, hbytes, -⟩ := ho.indexKey_eq hrow
  have hc : TotalCmp tree.compare := hcompare ▸ ho.total
  have hok' : key ∈ entries.map Prod.fst → deleteOk tree H key := fun hmem =>
    hok key hkey fun hnone => (mem_keys_iff hc).1 hmem ((hm.none_iff key).1 hnone)
  obtain ⟨root, H', hrun, -⟩ := runs_btreeDelete hL hc hH hok'
  have hdelete : Runs (indexDelete tree row) H _ H' := Runs.bind (Runs.lift hkey H) hrun
  have hindex : Maxql.indexDelete index indexDef row
      = .ok ((lookup tree.compare entries key).isSome, Function.update index key.1 none) := by
    rw [Maxql.indexDelete, hbytes, Checked.ok_bind, hm.get, Option.isSome_map]
  exact ⟨_, _, H', _, hdelete, hindex, .delete hi hrow hok hdelete hindex⟩

/-- The file of a tree with nodes can be loaded, that of a tree without nodes has no byte. -/
theorem Indexed.reload_runs [UnionMemory] (ho : OrderedIndex schema indexDef)
    (hi : Indexed schema indexDef tree H index) (hfit : H.size * indexDef.nodeSize ≤ 2 ^ 63) :
    ∃ file, Runs (btreeSave tree) H file H ∧ ∀ H₀,
      (tree.root ≠ none → ∃ tree' H',
        Runs (indexLoad indexDef file) H₀ tree' H' ∧ Indexed schema indexDef tree' H' index) ∧
      (tree.root = none → ∀ tree' H', ¬Runs (indexLoad indexDef file) H₀ tree' H') := by
  by_cases hroot : tree.root = none
  · refine ⟨[], runs_btreeSave_empty hroot H, fun H₀ => ⟨fun hsome => absurd hroot hsome, ?_⟩⟩
    exact fun _ tree' H' => openIndex_empty
  · obtain ⟨hlayout, hL, hP, hcompare, entries, hH, -⟩ := hi.holds ho
    obtain ⟨file, hsave, hreopen⟩ := runs_reopen hL hP hlayout hH hroot hfit
    refine ⟨file, hsave, fun H₀ => ⟨fun _ => ?_, fun hnone => absurd hnone hroot⟩⟩
    obtain ⟨tree', H', hload, -⟩ := hreopen H₀
    rw [hcompare] at hload
    exact ⟨tree', H', hload, .reload hi hfit hsave hload⟩

/-- The functions of an index that CREATE INDEX has made do to its tree what the engine's map
takes them to do, in every state of a run, over any number of statements and processes.  The
comparisons are those of `compound_compare`, which reads nothing behind the keys. -/
theorem indexed_refines [UnionMemory] {indexMeta : IndexMeta} (hsound : SchemaSound schema)
    (hmeta : BuiltIndexes schema indexMeta) (hmem : indexDef ∈ indexMeta)
    (hfloat : ∀ part ∈ indexDef.parts, part.partCompare ≠ .compareFloatKeys)
    (hinside : IntPartsInside indexDef.parts) (hi : Indexed schema indexDef tree H index) :
    (∀ row, RowOfTypes schema.columns row → ∃ found, Runs (indexSearch tree row) H found H ∧
        Maxql.indexSearch index indexDef row = .ok (found.map UInt64.toNat)) ∧
      (∀ row offset, RowOfTypes schema.columns row →
        indexKeyExists index indexDef row = .ok false →
        ∃ tree' H' index', Runs (indexInsert tree row offset) H tree' H' ∧
          Maxql.indexInsert index indexDef row offset.toNat = .ok index' ∧
          Indexed schema indexDef tree' H' index') ∧
      (∀ row, RowOfTypes schema.columns row →
        (∀ key, indexKey indexDef row = .ok key → index key.1 ≠ none → deleteOk tree H key) →
        ∃ deleted tree' H' index', Runs (indexDelete tree row) H (deleted, tree') H' ∧
          Maxql.indexDelete index indexDef row = .ok (deleted, index') ∧
          Indexed schema indexDef tree' H' index') ∧
      (H.size * indexDef.nodeSize ≤ 2 ^ 63 → ∃ file, Runs (btreeSave tree) H file H ∧ ∀ H₀,
        (tree.root ≠ none → ∃ tree' H', Runs (indexLoad indexDef file) H₀ tree' H' ∧
          Indexed schema indexDef tree' H' index) ∧
        (tree.root = none → ∀ tree' H', ¬Runs (indexLoad indexDef file) H₀ tree' H')) ∧
      (∀ key, index key ≠ none → IsKey schema indexDef key) ∧
      ∀ a b : Fixed indexDef.keySize, IsKey schema indexDef a.1 → IsKey schema indexDef b.1 →
        ∀ behind behind', compoundCompare indexDef (a.1 ++ behind) (b.1 ++ behind')
          = .ok (keyCompare indexDef a b) := by
  have ho := orderedIndex_of_built hsound hmeta hmem hfloat hinside
  obtain ⟨m, -, hm⟩ := hi.carried ho
  exact ⟨fun row hrow => hi.search_runs ho hrow,
    fun row offset hrow habsent => hi.insert_runs ho hrow habsent,
    fun row hrow hok => hi.delete_runs ho hrow hok,
    fun hfit => hi.reload_runs ho hfit, hm.isKey,
    fun a b ha hb => ho.compares ha hb⟩

end Runs

open ClearedMemory

/-- `create unique index i on t (a(1), b)` -/
theorem built_bothColumns :
    BuiltIndexes shopTable ([] ++ [shopIndex [firstByte, wholeText]]) :=
  .create .none (show parseInput (text "create unique index i on t (a(1), b)")
      = .ok (.createIndex (shopIndexStmt [⟨text "a", text "1", true⟩, ⟨text "b", [], false⟩]), none)
    by decide +kernel) rfl (by decide +kernel)

theorem schemaSound_shopTable : SchemaSound shopTable where
  count := by decide
  resolved := by
    intro c hc
    simp only [shopTable, List.mem_cons, List.not_mem_nil, or_false] at hc
    rcases hc with rfl | rfl
    · exact ⟨text "int", false, 0, by decide⟩
    · exact ⟨text "varchar", true, 20, by decide⟩
  defaults := by
    intro c hc hdefault
    simp only [shopTable, List.mem_cons, List.not_mem_nil, or_false] at hc
    rcases hc with rfl | rfl <;> cases hdefault

/-- The index that it makes. -/
def pairIndex : IndexDefinition := shopIndex [firstByte, wholeText]

/-- The row `1, name`. -/
def shopRow (name : Text) : DataRow := [.int 1, .string (.copy name)]

def shopKey (name : Text) : Key := 1 :: name ++ List.replicate 19 0

theorem rowKey_shopRow_x : rowKey pairIndex (shopRow (text "x")) = .ok (shopKey (text "x")) := by
  decide +kernel

theorem rowKey_shopRow_y : rowKey pairIndex (shopRow (text "y")) = .ok (shopKey (text "y")) := by
  decide +kernel

/-- An index with two rows. -/
def twoRows : NodeProg (Fixed pairIndex.keySize) (Btree (Fixed pairIndex.keySize)) := do
  let index ← indexInsert (indexCreate pairIndex) (shopRow (text "x")) 10
  indexInsert index (shopRow (text "y")) 20

/-- The deletion of a key from it goes well. -/
theorem twoRows_deleteOk : (twoRows.run Heap.empty).toOption.any (fun r =>
    (indexKey pairIndex (shopRow (text "x"))).toOption.all (deleteOk r.1 r.2)) := by
  decide +kernel

/-- The index when the first row has been deleted. -/
def oneRowLeft : NodeProg (Fixed pairIndex.keySize) (Bool × Btree (Fixed pairIndex.keySize)) := do
  let index ← twoRows
  indexDelete index (shopRow (text "x"))

theorem oneRowLeft_size : (oneRowLeft.run Heap.empty).toOption.all (fun r =>
    decide (r.2.size ≤ 3) && r.1.2.root.isSome) := by
  decide +kernel

/-- Of two rows the first is deleted; the index is saved and loaded, and has the second only. -/
theorem indexed_refines_bothColumns : ∃ (tree tree' loaded : Btree (Fixed pairIndex.keySize))
    (H H' H₁ : Heap (BtreeNode (Fixed pairIndex.keySize))) (file : List UInt8),
    Runs twoRows Heap.empty tree H ∧
    Runs (indexSearch tree (shopRow (text "x"))) H (some 10) H ∧
    Runs (indexDelete tree (shopRow (text "x"))) H (true, tree') H' ∧
    Runs (btreeSave tree') H' file H' ∧
    Runs (indexLoad pairIndex file) Heap.empty loaded H₁ ∧
    Runs (indexSearch loaded (shopRow (text "x"))) H₁ none H₁ ∧
    Runs (indexSearch loaded (shopRow (text "y"))) H₁ (some 20) H₁ := by
  have hfloat : ∀ part ∈ pairIndex.parts, part.partCompare ≠ .compareFloatKeys := by
    intro part hpart
    simp only [pairIndex, shopIndex, List.mem_cons, List.not_mem_nil, or_false] at hpart
    rcases hpart with rfl | rfl <;> decide
  have hinside : IntPartsInside pairIndex.parts :=
    ⟨fun _ => by decide, fun h => absurd h (by decide), trivial⟩
  have hmem : pairIndex ∈ [] ++ [pairIndex] := List.mem_singleton_self _
  have hrow : ∀ name, RowOfTypes shopTable.columns (shopRow name) := fun _ =>
    .cons rfl (.cons rfl .nil)
  have hne : shopKey (text "y") ≠ shopKey (text "x") := by decide
  -- the two rows
  have hcreate : Indexed shopTable pairIndex _ _ _ := .create Heap.empty
  obtain ⟨-, hinsert, -⟩ := indexed_refines schemaSound_shopTable built_bothColumns hmem hfloat
    hinside hcreate
  obtain ⟨tree₁, H₁, index₁, hrun₁, hindex₁, hi₁⟩ := hinsert (shopRow (text "x")) 10 (hrow _)
    (by decide +kernel)
  rw [Maxql.indexInsert, rowKey_shopRow_x, Checked.ok_bind] at hindex₁
  cases hindex₁
  obtain ⟨-, hinsert, -⟩ := indexed_refines schemaSound_shopTable built_bothColumns hmem hfloat
    hinside hi₁
  obtain ⟨tree, H, index, hrun, hindex, hi⟩ := hinsert (shopRow (text "y")) 20 (hrow _) (by
    rw [indexKeyExists_eq rowKey_shopRow_y, Function.update_of_ne hne]
    rfl)
  rw [Maxql.indexInsert, rowKey_shopRow_y, Checked.ok_bind] at hindex
  cases hindex
  have htwo : Runs twoRows Heap.empty tree H := Runs.bind hrun₁ hrun
  -- the deletion
  have hok : ∀ key, indexKey pairIndex (shopRow (text "x")) = .ok key → deleteOk tree H key := by
    intro key hkey
    have hall := twoRows_deleteOk
    rw [show twoRows.run Heap.empty = .ok (tree, H) from htwo, hkey] at hall
    exact hall
  obtain ⟨hsearch, -, hdelete, -⟩ := indexed_refines schemaSound_shopTable built_bothColumns hmem
    hfloat hinside hi
  obtain ⟨deleted, tree', H', index', hrun', hindex', hi'⟩ := hdelete (shopRow (text "x"))
    (hrow _) fun key hkey _ => hok key hkey
  obtain ⟨found, hfound, hx⟩ := hsearch (shopRow (text "x")) (hrow _)
  rw [Maxql.indexSearch, rowKey_shopRow_x, Checked.ok_bind, Function.update_of_ne hne.symm,
    Function.update_self] at hx
  obtain rfl : found = some 10 :=
    Option.map_injective (fun _ _ => UInt64.toNat_inj.1) (Except.ok.inj hx).symm
  rw [Maxql.indexDelete, rowKey_shopRow_x, Checked.ok_bind, Function.update_of_ne hne.symm,
    Function.update_self] at hindex'
  cases hindex'
  -- the file
  have hone : Runs oneRowLeft Heap.empty (true, tree') H' := Runs.bind htwo hrun'
  have hsize := oneRowLeft_size
  rw [show oneRowLeft.run Heap.empty = .ok ((true, tree'), H') from hone] at hsize
  obtain ⟨hsize, hroot⟩ := Bool.and_eq_true_iff.1 hsize
  have hfit : H'.size * pairIndex.nodeSize ≤ 2 ^ 63 :=
    Nat.le_trans (Nat.mul_le_mul_right _ (of_decide_eq_true hsize))
      (show 3 * pairIndex.nodeSize ≤ 2 ^ 63 by decide)
  obtain ⟨-, -, -, hreload, -⟩ := indexed_refines schemaSound_shopTable built_bothColumns hmem
    hfloat hinside hi'
  obtain ⟨file, hsave, hloads⟩ := hreload hfit
  obtain ⟨loaded, H₁', hload, hloaded⟩ :=
    (hloads Heap.empty).1 (Option.ne_none_iff_isSome.2 hroot)
  obtain ⟨hsearch', -⟩ := indexed_refines schemaSound_shopTable built_bothColumns hmem hfloat
    hinside hloaded
  obtain ⟨gone, hgone, hx⟩ := hsearch' (shopRow (text "x")) (hrow _)
  obtain ⟨kept, hkept, hy⟩ := hsearch' (shopRow (text "y")) (hrow _)
  rw [Maxql.indexSearch, rowKey_shopRow_x, Checked.ok_bind, Function.update_self] at hx
  rw [Maxql.indexSearch, rowKey_shopRow_y, Checked.ok_bind, Function.update_of_ne hne,
    Function.update_self] at hy
  obtain rfl : gone = none := Option.map_eq_none_iff.1 (Except.ok.inj hx).symm
  obtain rfl : kept = some 20 :=
    Option.map_injective (fun _ _ => UInt64.toNat_inj.1) (Except.ok.inj hy).symm
  exact ⟨tree, tree', loaded, H, H', H₁', file, htwo, hfound, hrun', hsave, hload, hgone, hkept⟩

end Maxql.Index
