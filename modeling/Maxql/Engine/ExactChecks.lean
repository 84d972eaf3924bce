import Maxql.Engine.LogicalTable

/-!
# The checks of unique keys, exactly

`UpdateChecks` says when a check finds nothing.  Here is what each one finds:
the first index, in the order of the definitions, whose keys are in the way.
The order decides which name an error message has.

The groups are the checks of one row, those of a batch, the filling of a new
index, and the writes behind the checks of an UPDATE.
-/

namespace Maxql

open Program Bytes

/-! ## One row -/

section Row

variable {indexes : IndexSet} {values : DataRow} {offset : Nat} {q : IndexDefinition → Bool}

theorem indexSetHasDuplicate_find [UnionMemory] (h : HasKeys indexes values)
    (hq : ∀ entry ∈ indexes, q entry.1 = (entry.2 (keyBytes entry.1 values)).isSome) :
    indexSetHasDuplicate indexes values = .ok ((indexes.map Prod.fst).find? q) := by
  induction indexes with
  | nil => rfl
  | cons entry indexes ih =>
    obtain ⟨indexDef, index⟩ := entry
    obtain ⟨⟨hunique, hkey⟩, hrest⟩ := List.forall_mem_cons.1 h
    obtain ⟨hfirst, hq⟩ := List.forall_mem_cons.1 hq
    have hexists : indexKeyExists index indexDef values = .ok (q indexDef) := by
      rw [hfirst, indexKeyExists, indexSearch, hkey]
      rfl
    rw [indexSetHasDuplicate, hunique, hexists, List.map_cons]
    cases hfound : q indexDef with
    | true =>
      rw [List.find?_cons_of_pos hfound]
      rfl
    | false =>
      rw [List.find?_cons_of_neg (by simp [hfound])]
      exact ih hrest hq

theorem indexSetHasConflict_find [UnionMemory] (h : HasKeys indexes values)
    (hq : ∀ entry ∈ indexes, q entry.1 = true ↔
      ∃ o, entry.2 (keyBytes entry.1 values) = some o ∧ offset ≠ o) :
    indexSetHasConflict indexes values offset = .ok ((indexes.map Prod.fst).find? q) := by
  induction indexes with
  | nil => rfl
  | cons entry indexes ih =>
    obtain ⟨indexDef, index⟩ := entry
    obtain ⟨⟨hunique, hkey⟩, hrest⟩ := List.forall_mem_cons.1 h
    obtain ⟨hfirst, hq⟩ := List.forall_mem_cons.1 hq
    have hsearch : indexSearch index indexDef values = .ok (index (keyBytes indexDef values)) := by
      rw [indexSearch, hkey]
      rfl
    have hconflicts : indexKeyConflicts index indexDef values offset = .ok (q indexDef) := by
      rw [indexKeyConflicts, hsearch, Checked.ok_bind]
      simp only at hfirst
      cases hlook : index (keyBytes indexDef values) with
      | none =>
        have hnot : q indexDef = false := by
          rw [← Bool.not_eq_true, hfirst, hlook]
          simp
        rw [hnot]
      | some o =>
        rw [hlook] at hfirst
        simp only [Except.ok.injEq]
        rw [Bool.eq_iff_iff, hfirst]
        simp
    rw [indexSetHasConflict, hunique, hconflicts, List.map_cons]
    cases hfound : q indexDef with
    | true =>
      rw [List.find?_cons_of_pos hfound]
      rfl
    | false =>
      rw [List.find?_cons_of_neg (by simp [hfound])]
      exact ih hrest hq

end Row

/-! ## A batch -/

section Batch

variable {indexes : IndexSet} {pairs : List UpdatePair}

theorem updateConflict_find [UnionMemory] {q : UpdatePair → IndexDefinition → Bool}
    (h : ∀ pair ∈ pairs, HasKeys indexes pair.updated)
    (hq : ∀ pair ∈ pairs, ∀ entry ∈ indexes, q pair entry.1 = true ↔
      ∃ o, entry.2 (keyBytes entry.1 pair.updated) = some o ∧ pair.original.offset ≠ o) :
    updateConflict indexes pairs
      = .ok (pairs.findSome? fun pair => (indexes.map Prod.fst).find? (q pair)) := by
  induction pairs with
  | nil => rfl
  | cons pair pairs ih =>
    obtain ⟨hfirst, hrest⟩ := List.forall_mem_cons.1 h
    obtain ⟨hqfirst, hqrest⟩ := List.forall_mem_cons.1 hq
    rw [updateConflict, indexSetHasConflict_find hfirst hqfirst, Checked.ok_bind,
      List.findSome?_cons]
    cases (indexes.map Prod.fst).find? (q pair) with
    | some indexDef => rfl
    | none => exact ih hrest hqrest

theorem batchCheckUniqueKeys_find [UnionMemory] {schema : TableSchema} {q : IndexDefinition → Bool}
    (hindexes : ∀ entry ∈ indexes, entry.1.Valid schema)
    (hpairs : ∀ pair ∈ pairs, RowOfTypes schema.columns pair.updated)
    (hq : ∀ entry ∈ indexes, q entry.1 = false ↔
      pairs.Pairwise fun a b => ¬EqualIn entry.1 a.updated b.updated) :
    batchCheckUniqueKeys pairs indexes = .ok ((indexes.map Prod.fst).find? q) := by
  induction indexes with
  | nil => rfl
  | cons entry indexes ih =>
    obtain ⟨hentry, hrest⟩ := List.forall_mem_cons.1 hindexes
    obtain ⟨hfirst, hq⟩ := List.forall_mem_cons.1 hq
    obtain ⟨r, hr, hbatch⟩ := indexBatchHasDuplicates_spec hentry hpairs
    have hsame : r = q entry.1 := by
      rw [← hfirst] at hbatch
      cases r <;> cases hcase : q entry.1 <;> simp_all
    rw [batchCheckUniqueKeys, hr, Checked.ok_bind, hsame, List.map_cons]
    cases hfound : q entry.1 with
    | true =>
      rw [List.find?_cons_of_pos hfound]
      rfl
    | false =>
      rw [List.find?_cons_of_neg (by simp [hfound])]
      exact ih hrest hq

end Batch

/-! ## A new index -/

section Backfill

variable {dataFile : List UInt8} {schema : TableSchema} {indexDef : IndexDefinition}

/-- The loop goes on while the keys are new, and stops with an error at the first one that is
not. -/
theorem backfillIndexFrom_total [UnionMemory] (hvalid : indexDef.Valid schema)
    (hcolumns : ∀ c ∈ schema.columns, c.resolvedType.Sound) :
    ∀ {fuel pos : Nat} {done rows : List StoredRow} {index : KeyMap},
      (∀ key, (index key).isSome = true ↔ key ∈ done.map fun x => keyBytes indexDef x.row) →
      (done.map fun x => keyBytes indexDef x.row).Nodup →
      (∀ x ∈ rows, RowOfTypes schema.columns x.row) →
      tableScanFrom dataFile schema fuel pos = .ok rows →
      (((done ++ rows).map fun x => keyBytes indexDef x.row).Nodup ∧
        ∃ index', backfillIndexFrom dataFile schema indexDef fuel pos index = .ok (.ok index')) ∨
      (¬((done ++ rows).map fun x => keyBytes indexDef x.row).Nodup ∧
        backfillIndexFrom dataFile schema indexDef fuel pos index
          = .ok (.error (duplicateError indexDef))) := by
  intro fuel
  induction fuel with
  | zero => intro pos done rows index _ _ _ hscan; cases hscan
  | succ fuel ih =>
    intro pos done rows index hindex hdone hrows hscan
    rw [tableScanFrom] at hscan
    rw [backfillIndexFrom]
    by_cases hend : pos ≥ dataFile.length
    · rw [if_pos hend] at hscan ⊢
      cases hscan
      rw [List.append_nil]
      exact Or.inl ⟨hdone, index, rfl⟩
    · rw [if_neg hend] at hscan ⊢
      obtain ⟨⟨row, next⟩, hread, hscan⟩ := Checked.bind_eq_ok.1 hscan
      obtain ⟨rest, hrest, hscan⟩ := Checked.bind_eq_ok.1 hscan
      rw [hread, Checked.ok_bind]
      cases row with
      | none =>
        cases hscan
        exact ih hindex hdone hrows hrest
      | some values =>
        cases hscan
        obtain ⟨hrow, hrows⟩ := List.forall_mem_cons.1 hrows
        have hkey : rowKey indexDef values = .ok (keyBytes indexDef values) :=
          rowKey_eq hvalid hcolumns hrow
        have hexists : indexKeyExists index indexDef values
            = .ok (index (keyBytes indexDef values)).isSome := by
          rw [indexKeyExists, indexSearch, hkey]
          rfl
        have hcons : (done ++ ({ row := values, offset := pos } : StoredRow) :: rest)
            = (done ++ [{ row := values, offset := pos }]) ++ rest := by simp
        simp only [hvalid.unique, hexists, Checked.ok_bind, Bool.true_and]
        by_cases hfound : (index (keyBytes indexDef values)).isSome = true
        · refine Or.inr ⟨?_, ?_⟩
          · intro hnodup
            rw [List.map_append, List.map_cons] at hnodup
            exact List.disjoint_of_nodup_append hnodup ((hindex _).1 hfound) List.mem_cons_self
          · rw [if_pos hfound]
            rfl
        · have hnew := fun hmem => hfound ((hindex (keyBytes indexDef values)).2 hmem)
          rw [if_neg hfound, indexInsert, hkey, Checked.ok_bind, hcons]
          apply ih _ _ hrows hrest
          · intro key
            rw [List.map_append, List.mem_append, List.map_singleton, List.mem_singleton]
            by_cases hsame : key = keyBytes indexDef values
            · subst hsame
              rw [Function.update_self]
              simp
            · rw [Function.update_of_ne hsame, hindex]
              simp [hsame]
          · rw [List.map_append, List.map_singleton, ← List.concat_eq_append]
            exact List.Nodup.concat hnew hdone

/-- A new index is filled if and only if the rows have different keys in it. -/
theorem backfillIndex_total [UnionMemory] (hvalid : indexDef.Valid schema)
    (hcolumns : ∀ c ∈ schema.columns, c.resolvedType.Sound) {rows : List StoredRow}
    (hrows : ∀ x ∈ rows, RowOfTypes schema.columns x.row)
    (hscan : tableScan dataFile schema = .ok rows) :
    ((rows.map fun x => keyBytes indexDef x.row).Nodup ∧
        ∃ index, backfillIndex dataFile schema indexDef indexCreate = .ok (.ok index)) ∨
      (¬(rows.map fun x => keyBytes indexDef x.row).Nodup ∧
        backfillIndex dataFile schema indexDef indexCreate
          = .ok (.error (duplicateError indexDef))) := by
  have hempty : ∀ key, (indexCreate key).isSome = true ↔
      key ∈ ([] : List StoredRow).map fun x => keyBytes indexDef x.row := by
    intro key
    simp [indexCreate]
  have h := backfillIndexFrom_total hvalid hcolumns hempty List.nodup_nil hrows hscan
  rw [List.nil_append] at h
  exact h

end Backfill

/-! ## The writes of an UPDATE -/

/-- What is left to write after the checks goes through. -/
theorem exists_writeUpdates [UnionMemory] {pairs : List UpdatePair} :
    ∀ {t : TableState} {rows : Nat → Option DataRow}, TypedFile t.schema t.dataFile rows →
      (∀ d ∈ t.indexMeta, d.Valid t.schema) →
      (∀ pair ∈ pairs, rows pair.original.offset = some pair.original.row) →
      (∀ pair ∈ pairs, RowTyped t.schema.columns pair.updated) →
      pairs.Pairwise (fun a b => a.original.offset < b.original.offset) →
      ∃ t', writeUpdates pairs t = .ok t' := by
  induction pairs with
  | nil => exact fun {t} _ _ _ _ _ _ => ⟨t, rfl⟩
  | cons pair pairs ih =>
    intro t rows h hvalid hpresent htyped hasc
    obtain ⟨hpair, hpresent⟩ := List.forall_mem_cons.1 hpresent
    obtain ⟨hrow, htyped⟩ := List.forall_mem_cons.1 htyped
    obtain ⟨hlt, hasc⟩ := List.pairwise_cons.1 hasc
    have hdeleted := h.delete hpair
    obtain ⟨dataFile, hstore, -⟩ := hdeleted.file.insert hdeleted.count hdeleted.columns hrow
    obtain ⟨-, -, h'⟩ := hdeleted.insert hrow hstore
    have hkeys : ∀ {indexes : IndexSet} {values : DataRow},
        indexes.map Prod.fst = t.indexMeta → RowOfTypes t.schema.columns values →
        HasKeys indexes values := by
      intro indexes values hmeta hvalues entry hentry
      have hd := hvalid entry.1 (hmeta ▸ List.mem_map_of_mem hentry)
      exact ⟨hd.unique, rowKey_eq hd h.columns hvalues⟩
    obtain ⟨all, indexes₁, hdelete, hmeta₁⟩ :=
      exists_indexSetDelete (hkeys rfl (h.typed _ _ hpair).ofTypes)
    have hinsert := @indexSetInsert_eq _ _ _
      (storageDeleteRow t.dataFile pair.original.offset).length (hkeys hmeta₁ hrow.ofTypes)
    have hlen := length_storageDeleteRow t.dataFile pair.original.offset
    have hkept : ∀ other ∈ pairs, Function.update (Function.update rows pair.original.offset none)
        (storageDeleteRow t.dataFile pair.original.offset).length
        (some (storedRow t.schema.columns pair.updated)) other.original.offset
          = some other.original.row := by
      intro other hother
      have hsome := hpresent other hother
      have hne : other.original.offset
          ≠ (storageDeleteRow t.dataFile pair.original.offset).length := by
        intro heq
        rw [heq, h.file.fresh hlen] at hsome
        cases hsome
      rw [Function.update_of_ne hne, Function.update_of_ne (Nat.ne_of_gt (hlt other hother))]
      exact hsome
    rw [writeUpdates]
    simp only [hstore, hdelete, Checked.ok_bind, hinsert]
    refine @ih { t with dataFile, indexes := _ } _ h' ?_ hkept htyped hasc
    intro d hd
    obtain ⟨entry', hentry', rfl⟩ := List.mem_map.1 hd
    obtain ⟨entry, hentry, rfl⟩ := List.mem_map.1 hentry'
    have hmem : entry.1 ∈ indexes₁.map Prod.fst := List.mem_map_of_mem hentry
    rw [hmeta₁] at hmem
    exact hvalid entry.1 hmem

end Maxql
