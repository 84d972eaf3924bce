import Maxql.Compare
import Maxql.DataFile
import Maxql.Engine.Dml
import Maxql.Index.RowKey

/-!
# WHERE filters

What `analyze_where_conditions` lets through, and what `matches_where` and the
loops of the executors do with it: on rows of the types of the table a filter
never faults, and it keeps the rows on which every predicate holds.
-/

namespace Maxql

open Program Bytes

/-! ## Columns -/

theorem findColumnIndex_spec {schema : TableSchema} {columnName : Text} {pos : Nat}
    (h : findColumnIndex schema columnName = .ok pos) :
    ∃ column, schema.columns[pos]? = some column ∧ column.columnName = columnName := by
  unfold findColumnIndex at h
  split at h
  · next columnIndex hfind =>
    cases h
    obtain ⟨hpos, hname, _⟩ := List.findIdx?_eq_some_iff_getElem.1 hfind
    exact ⟨_, List.getElem?_eq_getElem hpos, (by simpa using hname : columnName = _).symm⟩
  · cases h

/-! ## Filters -/

/-- Each value is of the type of its column. -/
def FilterTyped (schema : TableSchema) (filter : WhereFilter) : Prop :=
  ∀ p ∈ filter, ∃ column, schema.columns[p.columnIndex]? = some column ∧
    p.value.type = column.resolvedType.typeInfo.valueType

theorem analyzeCondition_typed {strtof : Strtof} {schema : TableSchema} {condition : Condition}
    {p : WherePredicate} (h : analyzeCondition strtof schema condition = .ok p) :
    ∃ column, schema.columns[p.columnIndex]? = some column ∧
      p.value.type = column.resolvedType.typeInfo.valueType := by
  obtain ⟨pos, hpos, h⟩ := bind_eq_ok.1 h
  obtain ⟨value, _, h⟩ := bind_eq_ok.1 h
  obtain ⟨column, hcolumn, _⟩ := findColumnIndex_spec hpos
  rw [columnAt_eq hcolumn] at h
  simp only at h
  split at h
  · cases h
  · next htype =>
    cases h
    exact ⟨column, hcolumn, (not_not.1 htype).symm⟩

theorem analyzeWhere_typed {strtof : Strtof} {schema : TableSchema}
    {conditions : List Condition} {filter : WhereFilter}
    (h : analyzeWhereConditions strtof conditions schema = .ok filter) :
    FilterTyped schema filter := by
  have hall := mapM_eq_ok.1 h
  intro p hp
  obtain ⟨i, hi, rfl⟩ := List.mem_iff_getElem.1 hp
  have hlt : i < conditions.length := hall.length_eq ▸ hi
  exact analyzeCondition_typed (List.Forall₂.get hall hlt hi)

/-- The predicate holds of the value. -/
def Satisfies [UnionMemory] (value : DataValue) (p : WherePredicate) : Prop :=
  ∃ n, compareValue value p.value = .ok n ∧ compareMatchesOp p.op n = true

/-- Whether a row passes a filter. -/
def passes [UnionMemory] (filter : WhereFilter) (row : DataRow) : Bool :=
  (matchesWhere row filter).toOption.getD false

section Row

variable {schema : TableSchema} {filter : WhereFilter} {row : DataRow}

theorem ResolvedType.valueType_ne_null (rt : ResolvedType) :
    rt.typeInfo.valueType ≠ .null := by
  cases hc : rt.columnType <;> simp [ResolvedType.typeInfo, typeMapping, hc]

/-- One comparison of `matches_where`. -/
theorem exists_compare [UnionMemory] (hrow : RowOfTypes schema.columns row) {p : WherePredicate}
    (hp : ∃ column, schema.columns[p.columnIndex]? = some column ∧
      p.value.type = column.resolvedType.typeInfo.valueType) :
    ∃ v n, row[p.columnIndex]? = some v ∧ compareValue v p.value = .ok n := by
  obtain ⟨column, hcolumn, _⟩ := hp
  obtain ⟨v, hv, hvtype⟩ := hrow.getElem hcolumn
  have hnull : v.type ≠ .null := by
    rw [hvtype]
    exact column.resolvedType.valueType_ne_null
  obtain ⟨n, hn⟩ := exists_compareValue hnull p.value
  exact ⟨v, n, hv, hn⟩

/-- `matches_where` evaluates the predicates up to the first that fails. -/
theorem matchesWhere_spec [UnionMemory] (hrow : RowOfTypes schema.columns row)
    (hfilter : FilterTyped schema filter) :
    matchesWhere row filter = .ok (passes filter row) ∧
      (passes filter row = true ↔
        ∀ p ∈ filter, ∃ v, row[p.columnIndex]? = some v ∧ Satisfies v p) := by
  induction filter with
  | nil => exact ⟨rfl, fun _ p hp => absurd hp List.not_mem_nil, fun _ => rfl⟩
  | cons p filter ih =>
    obtain ⟨hrest, hiff⟩ := ih fun q hq => hfilter q (List.mem_cons_of_mem _ hq)
    obtain ⟨v, n, hv, hn⟩ := exists_compare hrow (hfilter p List.mem_cons_self)
    have hstep : matchesWhere row (p :: filter)
        = if compareMatchesOp p.op n then matchesWhere row filter else .ok false := by
      rw [matchesWhere, readAt_of_getElem? hv, Checked.ok_bind, hn, Checked.ok_bind]
    have hsat : Satisfies v p ↔ compareMatchesOp p.op n = true := by
      refine ⟨fun ⟨m, hm, h⟩ => ?_, fun h => ⟨n, hn, h⟩⟩
      cases hn.symm.trans hm
      exact h
    rw [passes, hstep]
    by_cases hop : compareMatchesOp p.op n = true
    · rw [if_pos hop]
      refine ⟨hrest, ?_⟩
      rw [hrest, List.forall_mem_cons, ← hiff]
      exact ⟨fun h => ⟨⟨v, hv, hsat.2 hop⟩, h⟩, fun h => h.2⟩
    · rw [if_neg hop]
      refine ⟨rfl, fun h => absurd h Bool.false_ne_true, fun h => ?_⟩
      obtain ⟨v', hv', h⟩ := h p List.mem_cons_self
      cases hv.symm.trans hv'
      exact absurd (hsat.1 h) hop

/-- The loop of an executor over a row source. -/
theorem matchingRows_eq [UnionMemory] (hfilter : FilterTyped schema filter) {rows : List StoredRow}
    (hrows : ∀ x ∈ rows, RowOfTypes schema.columns x.row) :
    matchingRows filter rows = .ok (rows.filter fun x => passes filter x.row) := by
  induction rows with
  | nil => rfl
  | cons x rows ih =>
    rw [matchingRows, (matchesWhere_spec (hrows x List.mem_cons_self) hfilter).1,
      Checked.ok_bind, ih fun y hy => hrows y (List.mem_cons_of_mem _ hy), Checked.ok_bind,
      List.filter_cons]

end Row

end Maxql
