import Maxql.Engine.DatabaseRefines
import Maxql.Index.RowIndex

/-!
# Trees behind the indexes

The engine takes an index for the map of its keys.  Its tree does what the map
does as long as `compound_compare` orders the keys, and as long as keys are
deleted only where `deleteOk` holds.

* `LogicalTable.KeepsTrees`: what a statement must meet for this;
* `orderedIndex_of_keepsTrees`: the keys of a new index are ordered;
* `deleteOk_of_keepsTrees`: every tree behind an index of the table loses its
  keys as the map does.
-/

namespace Maxql

open Program Bytes SortedEntries Index

/-- A tree of so many keys is one node. -/
def IndexDefinition.oneNode (indexDef : IndexDefinition) : Nat :=
  2 * (btreeLayoutCreate indexDef.nodeSize indexDef.keySize).minKeys

/-- What a query must meet so that the trees of the indexes do what their maps do. -/
def LogicalTable.KeepsTrees (l : LogicalTable) : Query → Prop
  | .delete _ | .update _ => ∀ indexDef ∈ l.table.indexes, l.table.rows.length ≤ indexDef.oneNode
  | .createIndex stmt => ∀ indexDef, planCreateIndex l.schema l.table.indexes stmt = .ok indexDef →
    (∀ part ∈ indexDef.parts, part.partCompare ≠ .compareFloatKeys) ∧
      IntPartsInside indexDef.parts
  | _ => True

section Trees

variable [UnionMemory] {t : TableState} {l : LogicalTable}

theorem orderedIndex_of_keepsTrees (hplanned : PlannedTable l.schema)
    (hbuilt : BuiltIndexes l.schema l.table.indexes) {input : Text} {stmt : CreateIndexStmt}
    (hk : l.KeepsTrees (.createIndex stmt))
    (hparse : parseInput input = .ok (.createIndex stmt, none))
    (hvalidate : validateCreateIndex stmt = .ok ()) {indexDef : IndexDefinition}
    (hplan : planCreateIndex l.schema l.table.indexes stmt = .ok indexDef) :
    OrderedIndex l.schema indexDef := by
  obtain ⟨hfloat, hinside⟩ := hk indexDef hplan
  have hnew := BuiltIndexes.create hbuilt hparse hvalidate hplan
  exact orderedIndex_of_built hplanned.sound hnew (List.mem_append_right _ List.mem_cons_self)
    hfloat hinside

/-- Every tree behind a map of few keys is one node. -/
theorem deleteOk_of_few {schema : TableSchema} {indexDef : IndexDefinition} {index : KeyMap}
    {tree : Btree (Fixed indexDef.keySize)} {H : Heap (BtreeNode (Fixed indexDef.keySize))}
    (ho : OrderedIndex schema indexDef) (hi : Indexed schema indexDef tree H index)
    {keys : List Key} (hkeys : ∀ key, index key ≠ none → key ∈ keys)
    (hfew : keys.length ≤ indexDef.oneNode) (key : Fixed indexDef.keySize) :
    deleteOk tree H key := by
  obtain ⟨hlayout, -, -, hcompare, entries, hH, hm⟩ := hi.holds ho
  have hc : TotalCmp tree.compare := hcompare ▸ ho.total
  have hnodup : (entries.map fun e => e.1.1).Nodup := by
    refine List.pairwise_map.2 (hH.ascending.imp fun {a b} hlt heq => ?_)
    rw [hc.eq_zero.2 (Subtype.ext heq)] at hlt
    exact Int.lt_irrefl 0 hlt
  have hsub : (entries.map fun e => e.1.1) ⊆ keys := by
    intro bytes hbytes
    obtain ⟨e, he, rfl⟩ := List.mem_map.1 hbytes
    have hmem := (mem_keys_iff hc).1 (List.mem_map_of_mem (f := Prod.fst) he)
    exact hkeys e.1.1 fun hnone => hmem ((hm.none_iff e.1).1 hnone)
  have hlen := (List.subperm_of_subset hnodup hsub).length_le
  rw [List.length_map] at hlen
  apply hH.deleteOk_of_few
  rw [hlayout]
  exact Nat.le_trans hlen hfew

/-- Where a statement may remove rows, every tree behind an index of the table loses its keys as
the map does. -/
theorem deleteOk_of_keepsTrees (hrep : Represents t l) {q : Query} (hk : l.KeepsTrees q)
    (hremoves : (∃ stmt, q = .delete stmt) ∨ ∃ stmt, q = .update stmt)
    {entry : IndexDefinition × KeyMap} (hentry : entry ∈ t.indexes)
    (ho : OrderedIndex t.schema entry.1) {tree : Btree (Fixed entry.1.keySize)}
    {H : Heap (BtreeNode (Fixed entry.1.keySize))}
    (hi : Indexed t.schema entry.1 tree H entry.2) (key : Fixed entry.1.keySize) :
    deleteOk tree H key := by
  have hfew : l.table.rows.length ≤ entry.1.oneNode := by
    have hmem : entry.1 ∈ l.table.indexes := hrep.indexes ▸ List.mem_map_of_mem hentry
    rcases hremoves with ⟨stmt, rfl⟩ | ⟨stmt, rfl⟩
    · exact hk _ hmem
    · exact hk _ hmem
  obtain ⟨rows, live, -, ht, -, hlive⟩ := hrep.rows
  have hkeys : ∀ bytes, entry.2 bytes ≠ none → bytes ∈ live.map fun x => keyBytes entry.1 x.row := by
    intro bytes hsome
    obtain ⟨offset, hlookup⟩ := Option.ne_none_iff_exists'.1 hsome
    obtain ⟨x, hx, -, hkey⟩ := (ht.exact entry hentry bytes offset).1 hlookup
    rw [(ho.keyed (ht.typed x hx).ofTypes).1] at hkey
    exact List.mem_map.2 ⟨x, hx, Except.ok.inj hkey⟩
  apply deleteOk_of_few ho hi hkeys
  rw [List.length_map, ← List.length_map (fun x => x.row), hlive]
  exact hfew

end Trees

end Maxql
