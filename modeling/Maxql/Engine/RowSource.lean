import Maxql.Engine.Where

/-!
# Decisions of the planner and row sources

A decision names an index and, for each of its parts, the value of a predicate
`=` on the column of the part.  On a table whose indexes have one entry for
each row, the row source of a decision gives rows of the table.

The groups are the decisions, the tables, their row sources, and a table with
an index over a prefix of one column and another column.
-/

namespace Maxql

open Program Bytes

/-! ## Decisions -/

/-- The predicate that decides over a column, if it is an equality. -/
def covering (columnPos : Nat) (filter : WhereFilter) : Option WherePredicate :=
  (filter.find? fun predicate => columnPos == predicate.columnIndex).filter
    fun predicate => predicate.op == .equals

/-- The predicates on the parts up to the first one that is not covered. -/
def coveredFront (filter : WhereFilter) : List IndexPart → List (Nat × WherePredicate)
  | [] => []
  | part :: parts =>
    match covering part.columnPos filter with
    | none => []
    | some predicate => (part.columnPos, predicate) :: coveredFront filter parts

theorem columnCovered_eq (columnPos : Nat) (filter : WhereFilter) :
    columnCovered columnPos .btree filter = .ok (covering columnPos filter) := by
  unfold columnCovered covering
  cases filter.find? fun predicate => columnPos == predicate.columnIndex with
  | none => rfl
  | some p =>
    show (if p.op == .equals then Except.ok (some p) else Except.ok none : Checked _) = _
    rw [Option.filter_some]
    split <;> rfl

theorem mem_of_covering {columnPos : Nat} {filter : WhereFilter} {p : WherePredicate}
    (h : covering columnPos filter = some p) :
    p ∈ filter ∧ p.columnIndex = columnPos ∧ p.op = .equals := by
  obtain ⟨hfind, hop⟩ := Option.filter_eq_some_iff.1 h
  have hpos := List.find?_some hfind
  exact ⟨List.mem_of_find?_eq_some hfind, (beq_iff_eq.1 hpos).symm, beq_iff_eq.1 hop⟩

theorem scoreParts_eq (filter : WhereFilter) (parts : List IndexPart) :
    scoreParts .btree filter parts = .ok (coveredFront filter parts).length := by
  induction parts with
  | nil => rfl
  | cons part parts ih =>
    rw [scoreParts, columnCovered_eq, Checked.ok_bind, coveredFront]
    cases covering part.columnPos filter with
    | none => rfl
    | some p => rw [ih]; rfl

theorem coveringPredicates_eq (filter : WhereFilter) (parts : List IndexPart) :
    coveringPredicates .btree filter parts = .ok (coveredFront filter parts) := by
  induction parts with
  | nil => rfl
  | cons part parts ih =>
    rw [coveringPredicates, columnCovered_eq, Checked.ok_bind, coveredFront]
    cases covering part.columnPos filter with
    | none => rfl
    | some p => rw [ih]; rfl

/-- For every part of the index there is an equality in the filter with the value. -/
def Covers (filter : WhereFilter) (parts : List IndexPart) (values : DataRow) : Prop :=
  List.Forall₂ (fun part value => ∃ p ∈ filter, p.columnIndex = part.columnPos ∧
    p.op = .equals ∧ p.value = value) parts values

theorem covers_of_length {filter : WhereFilter} {parts : List IndexPart}
    (h : (coveredFront filter parts).length = parts.length) :
    Covers filter parts ((coveredFront filter parts).map fun q => q.2.value) := by
  induction parts with
  | nil => exact .nil
  | cons part parts ih =>
    rw [coveredFront] at h ⊢
    cases hp : covering part.columnPos filter with
    | none =>
      rw [hp] at h
      cases h
    | some p =>
      rw [hp] at h
      obtain ⟨hmem, hpos, hop⟩ := mem_of_covering hp
      exact .cons ⟨p, hmem, hpos, hop, rfl⟩ (ih (Nat.succ.inj h))

/-- The index that is chosen has a predicate for each of its parts. -/
theorem chooseBestIndex_spec {filter : WhereFilter} {indexMeta : IndexMeta}
    (htype : ∀ d ∈ indexMeta, d.type = .btree) : ∀ (maxScore : Nat)
    (best : Option IndexDefinition), ∃ best',
      chooseBestIndex filter indexMeta maxScore best = .ok best' ∧
      ∀ d, best' = some d → best = some d ∨
        (d ∈ indexMeta ∧ (coveredFront filter d.parts).length = d.parts.length) := by
  induction indexMeta with
  | nil => exact fun _ best => ⟨best, rfl, fun _ h => Or.inl h⟩
  | cons d indexMeta ih =>
    intro maxScore best
    have hd := htype d List.mem_cons_self
    have ih := ih fun e he => htype e (List.mem_cons_of_mem _ he)
    have hvt : indexVtableOf .btree = .ok (indexRegistry.head (by decide)) := rfl
    rw [chooseBestIndex, scoreIndex, hd, scoreParts_eq, Checked.ok_bind, hvt, Checked.ok_bind]
    have hfull : (indexRegistry.head (by decide)).requiresFullMatch = true := rfl
    rw [hfull, Bool.true_and]
    by_cases hlen : (coveredFront filter d.parts).length = d.parts.length
    · have hskip : ((coveredFront filter d.parts).length != d.parts.length) = false := by
        simp [hlen]
      rw [hskip]
      simp only [Bool.false_eq_true, if_false]
      by_cases hscore : (coveredFront filter d.parts).length > maxScore
      · rw [if_pos hscore]
        obtain ⟨best', hrun, hbest⟩ := ih (coveredFront filter d.parts).length (some d)
        refine ⟨best', hrun, fun e he => Or.inr ?_⟩
        rcases hbest e he with h | ⟨hmem, hcov⟩
        · cases h
          exact ⟨List.mem_cons_self, hlen⟩
        · exact ⟨List.mem_cons_of_mem _ hmem, hcov⟩
      · rw [if_neg hscore]
        obtain ⟨best', hrun, hbest⟩ := ih maxScore best
        exact ⟨best', hrun, fun e he => (hbest e he).imp id fun h =>
          ⟨List.mem_cons_of_mem _ h.1, h.2⟩⟩
    · have hskip : ((coveredFront filter d.parts).length != d.parts.length) = true := by
        simp [hlen]
      rw [if_pos hskip]
      obtain ⟨best', hrun, hbest⟩ := ih maxScore best
      exact ⟨best', hrun, fun e he => (hbest e he).imp id fun h =>
        ⟨List.mem_cons_of_mem _ h.1, h.2⟩⟩

/-- What the planner decides. -/
theorem selectBestIndex_spec {filter : WhereFilter} {indexMeta : IndexMeta}
    (htype : ∀ d ∈ indexMeta, d.type = .btree) :
    ∃ decision, selectBestIndex filter indexMeta = .ok decision ∧
      ∀ d, decision = some d → d.indexDef ∈ indexMeta ∧
        Covers filter d.indexDef.parts d.values := by
  obtain ⟨best, hbest, hspec⟩ := chooseBestIndex_spec htype 0 none
  rw [selectBestIndex, hbest, Checked.ok_bind]
  cases best with
  | none => exact ⟨none, rfl, fun _ h => by cases h⟩
  | some indexDef =>
    obtain ⟨hmem, hlen⟩ := (hspec indexDef rfl).resolve_left (by simp)
    rw [fillBestIndex, htype indexDef hmem, coveringPredicates_eq, Checked.ok_bind]
    split
    · exact ⟨none, rfl, fun _ h => by cases h⟩
    · refine ⟨_, rfl, fun d h => ?_⟩
      cases h
      exact ⟨hmem, covers_of_length hlen⟩

/-! ## Tables -/

/-- A table with the rows `live`, whose indexes have one entry for each row. -/
structure IndexedTable [UnionMemory] (t : TableState) (live : List StoredRow) : Prop where
  scan : tableScan t.dataFile t.schema = .ok live
  columns : ∀ c ∈ t.schema.columns, c.resolvedType.Sound
  typed : ∀ x ∈ live, RowTyped t.schema.columns x.row
  valid : ∀ entry ∈ t.indexes, entry.1.Valid t.schema
  exact : ∀ entry ∈ t.indexes, ∀ key offset, entry.2 key = some offset ↔
    ∃ x ∈ live, x.offset = offset ∧ rowKey entry.1 x.row = .ok key

/-- The index with an entry for each of the rows. -/
def indexOfRows (indexDef : IndexDefinition) (rows : List StoredRow) : KeyMap := fun key =>
  (rows.find? fun x => keyBytes indexDef x.row == key).map (·.offset)

theorem indexOfRows_eq_some {indexDef : IndexDefinition} {rows : List StoredRow}
    (hkeys : (rows.map fun x => keyBytes indexDef x.row).Nodup) {key : Key} {offset : Nat} :
    indexOfRows indexDef rows key = some offset ↔
      ∃ x ∈ rows, x.offset = offset ∧ keyBytes indexDef x.row = key := by
  unfold indexOfRows
  rw [Option.map_eq_some_iff]
  constructor
  · rintro ⟨x, hfind, rfl⟩
    exact ⟨x, List.mem_of_find?_eq_some hfind, rfl, by simpa using List.find?_some hfind⟩
  · rintro ⟨x, hx, rfl, rfl⟩
    refine ⟨x, ?_, rfl⟩
    induction rows with
    | nil => cases hx
    | cons y rows ih =>
      rw [List.map_cons, List.nodup_cons] at hkeys
      rcases List.mem_cons.1 hx with rfl | hx
      · rw [List.find?_cons_of_pos (by simp)]
      · have hne : keyBytes indexDef y.row ≠ keyBytes indexDef x.row := fun heq =>
          hkeys.1 (heq ▸ List.mem_map_of_mem hx)
        rw [List.find?_cons_of_neg (by simpa using hne)]
        exact ih hkeys.2 hx

/-- A table whose indexes are made of its rows. -/
theorem indexedTable_of_rows [UnionMemory] {t : TableState} {live : List StoredRow}
    (scan : tableScan t.dataFile t.schema = .ok live)
    (columns : ∀ c ∈ t.schema.columns, c.resolvedType.Sound)
    (typed : ∀ x ∈ live, RowTyped t.schema.columns x.row)
    (valid : ∀ entry ∈ t.indexes, entry.1.Valid t.schema)
    (hrows : ∀ entry ∈ t.indexes, entry.2 = indexOfRows entry.1 live ∧
      (live.map fun x => keyBytes entry.1 x.row).Nodup) : IndexedTable t live where
  scan := scan
  columns := columns
  typed := typed
  valid := valid
  exact := fun entry hentry key offset => by
    obtain ⟨hindex, hkeys⟩ := hrows entry hentry
    rw [hindex, indexOfRows_eq_some hkeys]
    have hkey : ∀ x ∈ live, rowKey entry.1 x.row = .ok key ↔ keyBytes entry.1 x.row = key := by
      intro x hx
      rw [rowKey_eq (valid entry hentry) columns (typed x hx).ofTypes, Except.ok.injEq]
    exact exists_congr fun x => and_congr_right fun hx => and_congr_right fun _ => (hkey x hx).symm

section Sources

variable {t : TableState} {live : List StoredRow} {filter : WhereFilter}

theorem IndexedTable.typeOf [UnionMemory] (h : IndexedTable t live) :
    ∀ d ∈ t.indexMeta, d.type = .btree := by
  intro d hd
  obtain ⟨entry, hentry, rfl⟩ := List.mem_map.1 hd
  exact (h.valid entry hentry).type_eq

theorem IndexedTable.open [UnionMemory] (h : IndexedTable t live) {indexDef : IndexDefinition}
    (hmem : indexDef ∈ t.indexMeta) :
    ∃ index, indexOpen t indexDef = .ok index ∧ indexDef.Valid t.schema ∧
      ∀ key offset, index key = some offset ↔
        ∃ x ∈ live, x.offset = offset ∧ rowKey indexDef x.row = .ok key := by
  unfold indexOpen
  cases hfind : t.indexes.find? fun entry => entry.1 == indexDef with
  | none =>
    obtain ⟨entry, hentry, rfl⟩ := List.mem_map.1 hmem
    exact absurd (beq_self_eq_true entry.1) (List.find?_eq_none.1 hfind entry hentry)
  | some entry =>
    have hentry := List.mem_of_find?_eq_some hfind
    have hsame := List.find?_some hfind
    obtain rfl : entry.1 = indexDef := beq_iff_eq.1 hsame
    exact ⟨entry.2, rfl, h.valid entry hentry, h.exact entry hentry⟩

/-- The values of the decision make a key. -/
theorem Covers.key [UnionMemory] (hfilter : FilterTyped t.schema filter)
    (hcolumns : ∀ c ∈ t.schema.columns, c.resolvedType.Sound) {indexDef : IndexDefinition}
    (hvalid : indexDef.Valid t.schema) {values : DataRow}
    (hcovers : Covers filter indexDef.parts values) :
    indexBuildKey indexDef values values.length = .ok (keyPieces indexDef.parts values) := by
  have hlen : values.length = indexDef.parts.length := hcovers.length_eq.symm
  rw [hlen]
  refine prepareIndexKey_eq hvalid.keySize_eq ?_
  refine (List.forall₂_iff_get.2 ⟨hcovers.length_eq, fun i hi hi' => ?_⟩)
  obtain ⟨p, hp, hpos, _, hvalue⟩ := List.Forall₂.get hcovers hi hi'
  obtain ⟨column, hcolumn, htype⟩ := hfilter p hp
  obtain ⟨column', hcolumn', hle⟩ := hvalid.parts _ (List.get_mem indexDef.parts ⟨i, hi⟩)
  rw [hpos, hcolumn'] at hcolumn
  cases hcolumn
  exact partFits_of_type (hcolumns _ (List.mem_of_getElem? hcolumn')) hle (hvalue ▸ htype)

/-- An index scan gives the row under the key of the decision, if there is one. -/
theorem IndexedTable.indexScan_spec [UnionMemory] (h : IndexedTable t live)
    (hfilter : FilterTyped t.schema filter) {decision : IndexDecision}
    (hmem : decision.indexDef ∈ t.indexMeta)
    (hcovers : Covers filter decision.indexDef.parts decision.values) :
    ∃ rows, indexScan t decision = .ok rows ∧ (∀ x ∈ rows, x ∈ live) ∧ rows.length ≤ 1 ∧
      ∀ y ∈ live, keyBytes decision.indexDef y.row
        = keyPieces decision.indexDef.parts decision.values → rows = [y] := by
  obtain ⟨index, hopen, hvalid, hexact⟩ := h.open hmem
  have hkey := hcovers.key hfilter h.columns hvalid
  have hfound : ∀ y ∈ live, keyBytes decision.indexDef y.row
      = keyPieces decision.indexDef.parts decision.values →
      index (keyPieces decision.indexDef.parts decision.values) = some y.offset :=
    fun y hy heq => (hexact _ _).2 ⟨y, hy, rfl,
      heq ▸ rowKey_eq hvalid h.columns (h.typed y hy).ofTypes⟩
  rw [indexScan, hopen, Checked.ok_bind, hkey, Checked.ok_bind]
  cases hlook : index (keyPieces decision.indexDef.parts decision.values) with
  | none =>
    refine ⟨[], rfl, fun x hx => absurd hx List.not_mem_nil, Nat.zero_le _, fun y hy heq => ?_⟩
    rw [hfound y hy heq] at hlook
    cases hlook
  | some offset =>
    obtain ⟨x, hx, rfl, _⟩ := (hexact _ _).1 hlook
    refine ⟨[x], ?_, fun y hy => List.mem_singleton.1 hy ▸ hx, Nat.le_refl _, fun y hy heq => ?_⟩
    · simp only [tableScan_load h.scan hx, Checked.ok_bind]
    · have hoffset := Option.some.inj ((hfound y hy heq).symm.trans hlook)
      rw [eq_of_offset_eq (tableScan_ascending h.scan) hy hx hoffset]

/-- A row source of the planner gives rows of the table, none of them twice. -/
theorem IndexedTable.rowSource_spec [UnionMemory] (h : IndexedTable t live)
    (hfilter : FilterTyped t.schema filter) :
    ∃ decision rows, selectBestIndex filter t.indexMeta = .ok decision ∧
      createRowSource t decision = .ok rows ∧ (∀ x ∈ rows, x ∈ live) ∧
      rows.Pairwise fun x y => x.offset < y.offset := by
  obtain ⟨decision, hselect, hspec⟩ := selectBestIndex_spec h.typeOf
  cases decision with
  | none => exact ⟨none, live, hselect, h.scan, fun _ hx => hx, tableScan_ascending h.scan⟩
  | some d =>
    obtain ⟨hmem, hcovers⟩ := hspec d rfl
    obtain ⟨rows, hrows, hsub, hlen, _⟩ := h.indexScan_spec hfilter hmem hcovers
    refine ⟨some d, rows, hselect, hrows, hsub, ?_⟩
    match rows, hlen with
    | [], _ => exact .nil
    | [x], _ => exact List.pairwise_singleton _ _

/-- The rows that an executor works on. -/
theorem IndexedTable.matchedRows_live [UnionMemory] (h : IndexedTable t live)
    (hfilter : FilterTyped t.schema filter) :
    ∃ decision rows, selectBestIndex filter t.indexMeta = .ok decision ∧
      matchedRows t filter decision = .ok rows ∧ (∀ x ∈ rows, x ∈ live) ∧
      rows.Pairwise fun x y => x.offset < y.offset := by
  obtain ⟨decision, source, hselect, hsource, hsub, hasc⟩ := h.rowSource_spec hfilter
  refine ⟨decision, source.filter fun x => passes filter x.row, hselect, ?_,
    fun x hx => hsub x (List.mem_of_mem_filter hx),
    hasc.sublist List.filter_sublist⟩
  rw [matchedRows, hsource, Checked.ok_bind,
    matchingRows_eq hfilter fun x hx => (h.typed x (hsub x hx)).ofTypes]

end Sources

/-! ## A prefix of a column next to a whole column -/

open ClearedMemory

def prefixIndex : IndexDefinition :=
  { name := text "i", type := .btree, nodeSize := 4096, keySize := 6, isUnique := true
    parts := [⟨text "a", 0, 2, .string, .compareStringKeys⟩,
      ⟨text "b", 1, 4, .int, .compareIntKeys⟩] }

def prefixSchema : TableSchema :=
  { tableName := text "t"
    columns := [
      { columnName := text "a", resolvedType := ⟨.varchar, 3, text "varchar(3)"⟩
        hasDefault := false, defaultValue := .null },
      { columnName := text "b", resolvedType := ⟨.int, 4, text "int"⟩, hasDefault := false
        defaultValue := .null }] }

def prefixRow (name : String) (b : Int32) : DataRow :=
  [.string (VarcharValue.copy (text name)), .int b]

def prefixRows : List StoredRow :=
  [⟨prefixRow "abx" 1, 0⟩, ⟨prefixRow "aby" 2, 11⟩, ⟨prefixRow "cd" 0, 22⟩]

/-- The rows `('abx', 1)`, `('aby', 2)` and `('cd', 0)`. -/
def prefixTable : TableState :=
  { schema := prefixSchema
    dataFile := [0, 11, 0, 3, 97, 98, 120, 1, 0, 0, 0] ++ [0, 11, 0, 3, 97, 98, 121, 2, 0, 0, 0]
      ++ [0, 10, 0, 2, 99, 100, 0, 0, 0, 0]
    indexes := [(prefixIndex, indexOfRows prefixIndex prefixRows)] }

theorem indexedTable_prefixTable : IndexedTable prefixTable prefixRows := by
  refine indexedTable_of_rows (by decide +kernel) ?_ ?_ ?_ ?_
  · intro c hc
    rcases List.mem_cons.1 hc with rfl | hc
    · exact ⟨by decide, by decide⟩
    · obtain rfl := List.mem_singleton.1 hc
      rfl
  · intro x hx
    have hrow : ∀ name b, (text name).length ≤ 3 →
        RowTyped prefixSchema.columns (prefixRow name b) := by
      intro name b hlen
      refine .cons ?_ (.cons rfl .nil)
      rw [resolvedTypeValidate_eq_ok]
      exact Nat.le_trans (length_cstr_le _) (Nat.le_trans (List.length_take_le' _ _) hlen)
    simp only [prefixRows, List.mem_cons, List.not_mem_nil, or_false] at hx
    rcases hx with rfl | rfl | rfl <;> exact hrow _ _ (by decide)
  · intro entry hentry
    obtain rfl := List.mem_singleton.1 hentry
    refine ⟨rfl, rfl, rfl, fun part hpart => ?_⟩
    rcases List.mem_cons.1 hpart with rfl | hpart
    · exact ⟨_, rfl, by decide⟩
    · obtain rfl := List.mem_singleton.1 hpart
      exact ⟨_, rfl, by decide⟩
  · intro entry hentry
    obtain rfl := List.mem_singleton.1 hentry
    exact ⟨rfl, by decide +kernel⟩

end Maxql
