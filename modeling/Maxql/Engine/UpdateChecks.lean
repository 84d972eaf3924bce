import Maxql.Engine.NewRows
import Maxql.Engine.RowSource

/-!
# The checks of UPDATE

`index_set_has_conflict` compares the key of every changed row with the keys of
the other rows as they were; `batch_check_unique_keys` compares the changed
rows with each other, but by the values of whole columns.

A key has the first bytes of each of its columns only, so two changed rows can
get one key although the second check tells them apart; and two `float` values
can be equal although their bytes differ.

The groups are the two checks, the rows that result, the rows by what was there
before, and the comparison.
-/

namespace Maxql

open Program Bytes

/-! ## The keys of a row in the indexes -/

section Keys

variable {indexes : IndexSet} {values : DataRow} {offset : Nat}

/-- The indexes are unique, and the row has a key in each of them. -/
def HasKeys [UnionMemory] (indexes : IndexSet) (values : DataRow) : Prop :=
  ∀ entry ∈ indexes, entry.1.isUnique = true ∧
    rowKey entry.1 values = .ok (keyBytes entry.1 values)

theorem indexSetHasDuplicate_spec [UnionMemory] (h : HasKeys indexes values) :
    ∃ found, indexSetHasDuplicate indexes values = .ok found ∧
      (found = none ↔ ∀ entry ∈ indexes, entry.2 (keyBytes entry.1 values) = none) := by
  induction indexes with
  | nil => exact ⟨none, rfl, by simp⟩
  | cons entry indexes ih =>
    obtain ⟨indexDef, index⟩ := entry
    obtain ⟨⟨hunique, hkey⟩, hrest⟩ := List.forall_mem_cons.1 h
    obtain ⟨found, hfound, hiff⟩ := ih hrest
    have hexists : indexKeyExists index indexDef values
        = .ok (index (keyBytes indexDef values)).isSome := by
      rw [indexKeyExists, indexSearch, hkey]
      rfl
    rw [indexSetHasDuplicate, hunique, hexists]
    simp only [Bool.not_true, Bool.false_eq_true, if_false, Checked.ok_bind,
      List.forall_mem_cons]
    cases hlook : index (keyBytes indexDef values) with
    | none => exact ⟨found, hfound, by rw [hiff]; simp⟩
    | some o => exact ⟨some indexDef, rfl, by simp⟩

theorem indexSetHasConflict_spec [UnionMemory] (h : HasKeys indexes values) :
    ∃ found, indexSetHasConflict indexes values offset = .ok found ∧
      (found = none ↔ ∀ entry ∈ indexes, ∀ o, entry.2 (keyBytes entry.1 values) = some o →
        o = offset) := by
  induction indexes with
  | nil => exact ⟨none, rfl, by simp⟩
  | cons entry indexes ih =>
    obtain ⟨indexDef, index⟩ := entry
    obtain ⟨⟨hunique, hkey⟩, hrest⟩ := List.forall_mem_cons.1 h
    obtain ⟨found, hfound, hiff⟩ := ih hrest
    have hsearch : indexSearch index indexDef values
        = .ok (index (keyBytes indexDef values)) := by
      rw [indexSearch, hkey]
      rfl
    rw [indexSetHasConflict, hunique, indexKeyConflicts, hsearch]
    simp only [Bool.not_true, Bool.false_eq_true, if_false, Checked.ok_bind,
      List.forall_mem_cons]
    cases hlook : index (keyBytes indexDef values) with
    | none => exact ⟨found, hfound, by rw [hiff]; simp⟩
    | some o =>
      by_cases ho : o = offset
      · refine ⟨found, ?_, by rw [hiff]; simp [ho]⟩
        simp only [Checked.ok_bind, ho, ne_eq, not_true_eq_false, decide_false,
          Bool.false_eq_true, if_false]
        exact hfound
      · refine ⟨some indexDef, ?_, by simp [ho]⟩
        simp only [Checked.ok_bind, ne_eq, Ne.symm ho, not_false_eq_true, decide_true, if_true]

end Keys

/-! ## The rows of a batch -/

/-- The rows agree in all columns of the index. -/
def EqualIn [UnionMemory] (indexDef : IndexDefinition) (a b : DataRow) : Prop :=
  ∀ part ∈ indexDef.parts, Equals (a.getD part.columnPos .null) (b.getD part.columnPos .null)

section Batch

variable {schema : TableSchema} {indexDef : IndexDefinition}

theorem equalInIndex_spec [UnionMemory] {a b : DataRow} {parts : List IndexPart}
    (hparts : ∀ part ∈ parts, ∃ column, schema.columns[part.columnPos]? = some column)
    (ha : RowOfTypes schema.columns a) (hb : RowOfTypes schema.columns b) :
    ∃ r, equalInIndex a b parts = .ok r ∧ (r = true ↔ ∀ part ∈ parts,
      Equals (a.getD part.columnPos .null) (b.getD part.columnPos .null)) := by
  induction parts with
  | nil => exact ⟨true, rfl, by simp⟩
  | cons part parts ih =>
    obtain ⟨⟨column, hcolumn⟩, hrest⟩ := List.forall_mem_cons.1 hparts
    obtain ⟨r, hr, hiff⟩ := ih hrest
    obtain ⟨va, hva, hta⟩ := ha.getElem hcolumn
    obtain ⟨vb, hvb, htb⟩ := hb.getElem hcolumn
    obtain ⟨n, hn⟩ := exists_compareValue (hta ▸ column.resolvedType.valueType_ne_null) vb
    have hfirst : Equals (a.getD part.columnPos .null) (b.getD part.columnPos .null)
        ↔ n = 0 := by
      rw [List.getD_eq_getElem?_getD, List.getD_eq_getElem?_getD, hva, hvb]
      show compareValue va vb = .ok 0 ↔ n = 0
      rw [hn, Except.ok.injEq]
    rw [equalInIndex, readAt_of_getElem? hva, Checked.ok_bind, readAt_of_getElem? hvb,
      Checked.ok_bind, hn, Checked.ok_bind]
    by_cases hzero : n = 0
    · refine ⟨r, by rw [if_neg (not_not.2 hzero)]; exact hr, ?_⟩
      rw [List.forall_mem_cons, hfirst, hiff]
      exact ⟨fun h => ⟨hzero, h⟩, fun h => h.2⟩
    · refine ⟨false, if_pos hzero, ?_⟩
      rw [List.forall_mem_cons, hfirst]
      exact ⟨fun h => (by cases h), fun h => absurd h.1 hzero⟩

theorem hasEqual_spec [UnionMemory] (hindex : indexDef.Valid schema) {a : DataRow}
    (ha : RowOfTypes schema.columns a) {pairs : List UpdatePair}
    (hpairs : ∀ pair ∈ pairs, RowOfTypes schema.columns pair.updated) :
    ∃ r, hasEqual indexDef a pairs = .ok r ∧
      (r = false ↔ ∀ pair ∈ pairs, ¬EqualIn indexDef a pair.updated) := by
  have hparts : ∀ part ∈ indexDef.parts, ∃ column,
      schema.columns[part.columnPos]? = some column := fun part hpart =>
    (hindex.parts part hpart).imp fun _ h => h.1
  induction pairs with
  | nil => exact ⟨false, rfl, by simp⟩
  | cons pair pairs ih =>
    obtain ⟨hpair, hrest⟩ := List.forall_mem_cons.1 hpairs
    obtain ⟨r, hr, hiff⟩ := ih hrest
    obtain ⟨e, he, hequal⟩ := equalInIndex_spec hparts ha hpair
    have hequal' : e = true ↔ EqualIn indexDef a pair.updated := hequal
    rw [hasEqual, he, Checked.ok_bind, List.forall_mem_cons, ← hequal']
    cases e with
    | true => exact ⟨true, rfl, by simp⟩
    | false => exact ⟨r, hr, by rw [hiff]; simp⟩

theorem indexBatchHasDuplicates_spec [UnionMemory] (hindex : indexDef.Valid schema)
    {pairs : List UpdatePair} (hpairs : ∀ pair ∈ pairs, RowOfTypes schema.columns pair.updated) :
    ∃ r, indexBatchHasDuplicates indexDef pairs = .ok r ∧
      (r = false ↔ pairs.Pairwise fun a b => ¬EqualIn indexDef a.updated b.updated) := by
  induction pairs with
  | nil => exact ⟨false, rfl, by simp⟩
  | cons pair pairs ih =>
    obtain ⟨hpair, hrest⟩ := List.forall_mem_cons.1 hpairs
    obtain ⟨r, hr, hiff⟩ := ih hrest
    obtain ⟨e, he, hequal⟩ := hasEqual_spec hindex hpair hrest
    rw [indexBatchHasDuplicates, he, Checked.ok_bind, List.pairwise_cons, ← hequal]
    cases e with
    | true => exact ⟨true, rfl, by simp⟩
    | false => exact ⟨r, hr, by rw [hiff]; simp⟩

theorem batchCheckUniqueKeys_spec [UnionMemory] {indexes : IndexSet}
    (hindexes : ∀ entry ∈ indexes, entry.1.Valid schema) {pairs : List UpdatePair}
    (hpairs : ∀ pair ∈ pairs, RowOfTypes schema.columns pair.updated) :
    ∃ found, batchCheckUniqueKeys pairs indexes = .ok found ∧
      (found = none ↔ ∀ entry ∈ indexes,
        pairs.Pairwise fun a b => ¬EqualIn entry.1 a.updated b.updated) := by
  induction indexes with
  | nil => exact ⟨none, rfl, by simp⟩
  | cons entry indexes ih =>
    obtain ⟨hentry, hrest⟩ := List.forall_mem_cons.1 hindexes
    obtain ⟨found, hfound, hiff⟩ := ih hrest
    obtain ⟨r, hr, hbatch⟩ := indexBatchHasDuplicates_spec hentry hpairs
    rw [batchCheckUniqueKeys, hr, Checked.ok_bind, List.forall_mem_cons, ← hbatch]
    cases r with
    | true => exact ⟨some entry.1, rfl, by simp⟩
    | false => exact ⟨found, hfound, by rw [hiff]; simp⟩

end Batch

/-! ## The rows of an UPDATE -/

/-- The rows of the table that an UPDATE leaves as they are. -/
def keptRows (live : List StoredRow) (pairs : List UpdatePair) : List StoredRow :=
  live.filter fun x => pairs.all fun pair => pair.original.offset != x.offset

/-- The rows that result from an UPDATE. -/
def resultRows (live : List StoredRow) (pairs : List UpdatePair) : List DataRow :=
  pairs.map (·.updated) ++ (keptRows live pairs).map (·.row)

/-- The rows have different keys in the index. -/
def UniqueKeys (indexDef : IndexDefinition) (rows : List DataRow) : Prop :=
  rows.Pairwise fun a b => keyBytes indexDef a ≠ keyBytes indexDef b

/-- A changed row gets a key that one of the rows has at another offset. -/
def MeetsKey (t : TableState) (rows : List StoredRow) (pairs : List UpdatePair) : Prop :=
  ∃ entry ∈ t.indexes, ∃ pair ∈ pairs, ∃ x ∈ rows, x.offset ≠ pair.original.offset ∧
    keyBytes entry.1 x.row = keyBytes entry.1 pair.updated

/-- Two changed rows get the same key in an index. -/
def ShareKey (t : TableState) (pairs : List UpdatePair) : Prop :=
  ∃ entry ∈ t.indexes, ¬UniqueKeys entry.1 (pairs.map (·.updated))

/-- Two changed rows agree in all columns of an index. -/
def ShareColumns [UnionMemory] (t : TableState) (pairs : List UpdatePair) : Prop :=
  ∃ entry ∈ t.indexes, ¬pairs.Pairwise fun a b => ¬EqualIn entry.1 a.updated b.updated

section Update

variable [UnionMemory] {t : TableState} {live : List StoredRow} {pairs : List UpdatePair}

theorem IndexedTable.hasKeys (h : IndexedTable t live) {row : DataRow}
    (hrow : RowOfTypes t.schema.columns row) : HasKeys t.indexes row :=
  fun entry hentry => ⟨(h.valid entry hentry).unique,
    rowKey_eq (h.valid entry hentry) h.columns hrow⟩

/-- What an index of the table says about a key. -/
theorem IndexedTable.lookup (h : IndexedTable t live) {entry : IndexDefinition × KeyMap}
    (hentry : entry ∈ t.indexes) {key : Key} {offset : Nat} :
    entry.2 key = some offset ↔ ∃ x ∈ live, x.offset = offset ∧ keyBytes entry.1 x.row = key := by
  rw [h.exact entry hentry]
  have hkey : ∀ x ∈ live, rowKey entry.1 x.row = .ok key ↔ keyBytes entry.1 x.row = key := by
    intro x hx
    rw [rowKey_eq (h.valid entry hentry) h.columns (h.typed x hx).ofTypes, Except.ok.injEq]
  exact exists_congr fun x => and_congr_right fun hx => and_congr_right fun _ => hkey x hx

/-- The rows of a table have different keys. -/
theorem IndexedTable.uniqueKeys (h : IndexedTable t live) {entry : IndexDefinition × KeyMap}
    (hentry : entry ∈ t.indexes) :
    live.Pairwise fun x y => keyBytes entry.1 x.row ≠ keyBytes entry.1 y.row := by
  refine (tableScan_ascending h.scan).imp_of_mem fun {x y} hx hy hlt heq => ?_
  have hx' := (h.lookup hentry).2 ⟨x, hx, rfl, heq⟩
  have hy' := (h.lookup hentry).2 ⟨y, hy, rfl, rfl⟩
  exact Nat.ne_of_lt hlt (Option.some.inj (hx'.symm.trans hy'))

theorem IndexedTable.updateConflict_spec (h : IndexedTable t live)
    (hpairs : ∀ pair ∈ pairs, RowOfTypes t.schema.columns pair.updated) :
    ∃ found, updateConflict t.indexes pairs = .ok found ∧
      (found = none ↔ ¬MeetsKey t live pairs) := by
  have hmeets : ¬MeetsKey t live pairs ↔ ∀ pair ∈ pairs, ∀ entry ∈ t.indexes, ∀ o,
      entry.2 (keyBytes entry.1 pair.updated) = some o → o = pair.original.offset := by
    constructor
    · intro hno pair hpair entry hentry o ho
      obtain ⟨x, hx, rfl, heq⟩ := (h.lookup hentry).1 ho
      by_contra hne
      exact hno ⟨entry, hentry, pair, hpair, x, hx, hne, heq⟩
    · rintro hall ⟨entry, hentry, pair, hpair, x, hx, hne, heq⟩
      exact hne (hall pair hpair entry hentry x.offset ((h.lookup hentry).2 ⟨x, hx, rfl, heq⟩))
  rw [hmeets]
  clear hmeets
  induction pairs with
  | nil => exact ⟨none, rfl, by simp⟩
  | cons pair pairs ih =>
    obtain ⟨hpair, hrest⟩ := List.forall_mem_cons.1 hpairs
    obtain ⟨found, hfound, hiff⟩ := ih hrest
    obtain ⟨r, hr, hconflict⟩ :
        ∃ r, indexSetHasConflict t.indexes pair.updated pair.original.offset = .ok r ∧ _ :=
      indexSetHasConflict_spec (h.hasKeys hpair)
    rw [updateConflict, hr, Checked.ok_bind, List.forall_mem_cons, ← hconflict]
    cases r with
    | none => exact ⟨found, hfound, by rw [hiff]; simp⟩
    | some d => exact ⟨some d, rfl, by simp⟩

/-- Both checks pass if no changed row meets the key of another row and no two changed rows
agree in the columns of an index. -/
theorem IndexedTable.checkUpdates_spec (h : IndexedTable t live)
    (hpairs : ∀ pair ∈ pairs, RowOfTypes t.schema.columns pair.updated) :
    checkUpdates t pairs = .ok (.ok ()) ↔
      ¬MeetsKey t live pairs ∧ ¬ShareColumns t pairs := by
  obtain ⟨found, hfound, hmeets⟩ := h.updateConflict_spec hpairs
  obtain ⟨batch, hbatch, hshare⟩ := batchCheckUniqueKeys_spec h.valid hpairs
  have hshare' : batch = none ↔ ¬ShareColumns t pairs := by
    rw [hshare, ShareColumns]
    constructor
    · rintro hall ⟨entry, hentry, hno⟩
      exact hno (hall entry hentry)
    · intro hno entry hentry
      by_contra hbad
      exact hno ⟨entry, hentry, hbad⟩
  rw [checkUpdates, hfound, Checked.ok_bind, ← hmeets, ← hshare']
  cases found with
  | some d => simp
  | none =>
    simp only [hbatch, Checked.ok_bind]
    cases batch with
    | some d => simp
    | none => simp

/-- The result has different keys if no changed row meets the key of a row that is kept and
no two changed rows get the same key. -/
theorem IndexedTable.uniqueKeys_result (h : IndexedTable t live) :
    (∀ entry ∈ t.indexes, UniqueKeys entry.1 (resultRows live pairs)) ↔
      ¬MeetsKey t (keptRows live pairs) pairs ∧ ¬ShareKey t pairs := by
  have hkept : ∀ entry ∈ t.indexes, UniqueKeys entry.1 ((keptRows live pairs).map (·.row)) := by
    intro entry hentry
    exact List.pairwise_map.2 ((h.uniqueKeys hentry).sublist List.filter_sublist)
  have hother : ∀ pair ∈ pairs, ∀ x ∈ keptRows live pairs,
      x.offset ≠ pair.original.offset := by
    intro pair hpair x hx heq
    have hall := List.all_eq_true.1 (List.mem_filter.1 hx).2 pair hpair
    simp [heq] at hall
  constructor
  · intro hall
    refine ⟨?_, ?_⟩
    · rintro ⟨entry, hentry, pair, hpair, x, hx, _, heq⟩
      have hcross := (List.pairwise_append.1 (hall entry hentry)).2.2
      exact hcross _ (List.mem_map_of_mem hpair) _ (List.mem_map_of_mem hx) heq.symm
    · rintro ⟨entry, hentry, hno⟩
      exact hno (List.pairwise_append.1 (hall entry hentry)).1
  · rintro ⟨hmeets, hshare⟩ entry hentry
    refine List.pairwise_append.2 ⟨?_, hkept entry hentry, ?_⟩
    · by_contra hno
      exact hshare ⟨entry, hentry, hno⟩
    · intro a ha b hb heq
      obtain ⟨pair, hpair, rfl⟩ := List.mem_map.1 ha
      obtain ⟨x, hx, rfl⟩ := List.mem_map.1 hb
      exact hmeets ⟨entry, hentry, pair, hpair, x, hx, hother pair hpair x hx, heq.symm⟩

/-- The rows of an UPDATE, which are there without a fault. -/
theorem IndexedTable.exists_pairs (h : IndexedTable t live) {plan : UpdateExecPlan}
    (hfilter : FilterTyped t.schema plan.filter)
    (hvalues : AssignsApart t.schema.columns plan.values) :
    ∃ decision rows, planUpdate t plan = .ok decision ∧
      matchedRows t plan.filter decision = .ok rows ∧
      collectUpdates t plan decision = .ok (filledPairs plan.values rows) ∧
      (∀ x ∈ rows, x ∈ live) ∧ rows.Pairwise fun x y => x.offset < y.offset := by
  obtain ⟨decision, rows, hselect, hrows, hsub, hasc⟩ := h.matchedRows_live hfilter
  refine ⟨decision, rows, hselect, hrows, ?_, hsub, hasc⟩
  rw [collectUpdates, hrows, Checked.ok_bind]
  exact updatePairs_eq hvalues fun x hx => ((h.typed x (hsub x hx)).length_eq).symm

end Update

end Maxql
