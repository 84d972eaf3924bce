import Maxql.Engine.RowSource

/-!
# The index plan against the full scan

A row that passes the filter has the values that the planner has taken from
it, so it has the key that is looked up, and the lookup finds no other row.
-/

namespace Maxql

open Program Bytes

/-- Equal `float` values in the rows and in the filter have the same bits. -/
def FloatsExact (live : List StoredRow) (filter : WhereFilter) : Prop :=
  ∀ x ∈ live, ∀ v ∈ x.row, ∀ p ∈ filter, ExactFloats v p.value

section Plan

variable {t : TableState} {live : List StoredRow} {filter : WhereFilter}

/-- A row that passes the filter has the values of the decision. -/
theorem Covers.row [UnionMemory] {x : StoredRow} (hrow : RowOfTypes t.schema.columns x.row)
    (hfilter : FilterTyped t.schema filter)
    (hfloats : ∀ v ∈ x.row, ∀ p ∈ filter, ExactFloats v p.value)
    (hpass : passes filter x.row = true) {parts : List IndexPart} {values : DataRow}
    (hcovers : Covers filter parts values) : indexValues parts x.row = values := by
  have hall := (matchesWhere_spec hrow hfilter).2.1 hpass
  induction hcovers with
  | nil => rfl
  | @cons part value parts values hp _ ih =>
    obtain ⟨p, hp, hpos, hop, rfl⟩ := hp
    obtain ⟨v, hv, n, hn, hmatch⟩ := hall p hp
    rw [hop] at hmatch
    obtain rfl : n = 0 := by simpa [compareMatchesOp] using hmatch
    obtain ⟨column, hcolumn, htype⟩ := hfilter p hp
    obtain ⟨v', hv', hvtype⟩ := hrow.getElem hcolumn
    obtain rfl : v = v' := Option.some.inj (hv.symm.trans hv')
    have heq : v = p.value :=
      Equals.eq hn (hvtype.trans htype.symm) (hfloats v (List.mem_of_getElem? hv) p hp)
    have hget : x.row.getD part.columnPos .null = p.value := by
      rw [← hpos, List.getD_eq_getElem?_getD, hv, heq]
      rfl
    exact congrArg₂ List.cons hget ih

/-- The rows of a list with different offsets that have a property only the row `x` can
have. -/
theorem filter_eq_of_unique {p : StoredRow → Bool} {rows : List StoredRow}
    (hasc : rows.Pairwise fun x y => x.offset < y.offset) {x : StoredRow} (hx : x ∈ rows)
    (hp : ∀ y ∈ rows, p y = true → y.offset = x.offset) : rows.filter p = [x].filter p := by
  induction rows with
  | nil => cases hx
  | cons z rows ih =>
    obtain ⟨hz, hrows⟩ := List.pairwise_cons.1 hasc
    rcases List.mem_cons.1 hx with rfl | hx
    · have hrest : rows.filter p = [] := by
        refine List.filter_eq_nil_iff.2 fun y hy hpy => ?_
        exact Nat.ne_of_gt (hz y hy) (hp y (List.mem_cons_of_mem _ hy) hpy)
      rw [List.filter_cons, hrest, List.filter_cons, List.filter_nil]
    · have hne : ¬p z = true := fun hpz =>
        Nat.ne_of_lt (hz x hx) (hp z List.mem_cons_self hpz)
      rw [List.filter_cons_of_neg hne]
      exact ih hrows hx fun y hy => hp y (List.mem_cons_of_mem _ hy)

/-- The filter keeps the same rows of an index scan as of the whole table. -/
theorem IndexedTable.indexScan_filter [UnionMemory] (h : IndexedTable t live)
    (hfilter : FilterTyped t.schema filter) (hfloats : FloatsExact live filter)
    {decision : IndexDecision} (hmem : decision.indexDef ∈ t.indexMeta)
    (hcovers : Covers filter decision.indexDef.parts decision.values) :
    ∃ rows, indexScan t decision = .ok rows ∧ (∀ x ∈ rows, x ∈ live) ∧
      rows.filter (fun x => passes filter x.row)
        = live.filter fun x => passes filter x.row := by
  obtain ⟨rows, hrows, hsub, _, hfound⟩ := h.indexScan_spec hfilter hmem hcovers
  -- a row that passes is the one under the key that is looked up
  have hpass : ∀ y ∈ live, passes filter y.row = true → rows = [y] := fun y hy hp =>
    hfound y hy (by rw [keyBytes, hcovers.row (h.typed y hy).ofTypes hfilter (hfloats y hy) hp])
  refine ⟨rows, hrows, hsub, ?_⟩
  by_cases hnone : ∀ y ∈ live, ¬passes filter y.row = true
  · rw [List.filter_eq_nil_iff.2 hnone]
    exact List.filter_eq_nil_iff.2 fun x hx => hnone x (hsub x hx)
  · obtain ⟨y, hy, hp⟩ : ∃ y ∈ live, passes filter y.row = true := by
      by_contra hall
      exact hnone fun y hy hp => hall ⟨y, hy, hp⟩
    rw [hpass y hy hp]
    refine (filter_eq_of_unique (tableScan_ascending h.scan) hy fun z hz hzp => ?_).symm
    have hsame : z = y := by
      have := (hpass z hz hzp).symm.trans (hpass y hy hp)
      exact (List.cons.inj this).1
    rw [hsame]

/-- Whatever the planner decides, the rows are those that the filter keeps of the table. -/
theorem IndexedTable.matchedRows_spec [UnionMemory] (h : IndexedTable t live)
    (hfilter : FilterTyped t.schema filter) (hfloats : FloatsExact live filter) :
    ∃ decision, selectBestIndex filter t.indexMeta = .ok decision ∧
      matchedRows t filter decision = .ok (live.filter fun x => passes filter x.row) ∧
      matchedRows t filter none = .ok (live.filter fun x => passes filter x.row) := by
  obtain ⟨decision, hselect, hspec⟩ := selectBestIndex_spec h.typeOf
  have hscan : matchedRows t filter none = .ok (live.filter fun x => passes filter x.row) := by
    show tableScan t.dataFile t.schema >>= matchingRows filter = _
    rw [h.scan, Checked.ok_bind, matchingRows_eq hfilter fun x hx => (h.typed x hx).ofTypes]
  refine ⟨decision, hselect, ?_, hscan⟩
  cases decision with
  | none => exact hscan
  | some d =>
    obtain ⟨hmem, hcovers⟩ := hspec d rfl
    obtain ⟨rows, hrows, hsub, heq⟩ := h.indexScan_filter hfilter hfloats hmem hcovers
    show indexScan t d >>= matchingRows filter = _
    rw [hrows, Checked.ok_bind,
      matchingRows_eq hfilter fun x hx => (h.typed x (hsub x hx)).ofTypes, heq]

/-- SELECT gives the same rows with and without indexes, and DELETE and UPDATE do what they
would do on a full scan. -/
theorem indexPlan_agrees [UnionMemory] (strtof : Strtof) (h : IndexedTable t live)
    {conditions : List Condition}
    (hfilter : analyzeWhereConditions strtof conditions t.schema = .ok filter)
    (hfloats : FloatsExact live filter) :
    (∃ decision, selectBestIndex filter t.indexMeta = .ok decision ∧
      matchedRows t filter decision = .ok (live.filter fun x => passes filter x.row)) ∧
    matchedRows t filter none = .ok (live.filter fun x => passes filter x.row) ∧
    (∀ columns ignoreIndex, planSelect t ⟨columns, filter, ignoreIndex⟩ >>=
        executeSelect t ⟨columns, filter, ignoreIndex⟩
      = .ok (live.filter fun x => passes filter x.row)) ∧
    planDelete t filter >>= executeDelete t filter = executeDelete t filter none ∧
    ∀ values, planUpdate t ⟨values, filter⟩ >>= executeUpdate t ⟨values, filter⟩
      = executeUpdate t ⟨values, filter⟩ none := by
  obtain ⟨decision, hselect, hplan, hscan⟩ :=
    h.matchedRows_spec (analyzeWhere_typed hfilter) hfloats
  refine ⟨⟨decision, hselect, hplan⟩, hscan, fun columns ignoreIndex => ?_, ?_, fun values => ?_⟩
  · cases ignoreIndex with
    | true => exact hscan
    | false =>
      show selectBestIndex filter t.indexMeta >>= _ = _
      rw [hselect]
      exact hplan
  · rw [planDelete, hselect, Checked.ok_bind, executeDelete, executeDelete, hplan, hscan]
  · show selectBestIndex filter t.indexMeta >>= _ = _
    rw [hselect, Checked.ok_bind, executeUpdate, executeUpdate, collectUpdates, collectUpdates,
      hplan, hscan]

end Plan

/-! ## Lookups of a prefix and a column -/

open ClearedMemory

/-- `a = name and b = 1` -/
def nameAndOne (name : String) : WhereFilter :=
  [⟨0, .string (VarcharValue.copy (text name)), .equals⟩, ⟨1, .int 1, .equals⟩]

theorem noFloats_nameAndOne (live : List StoredRow) (name : String) :
    FloatsExact live (nameAndOne name) := by
  intro x _ v _ p hp a b _ hb
  rcases List.mem_cons.1 hp with rfl | hp
  · cases hb
  · obtain rfl := List.mem_singleton.1 hp
    cases hb

/-- The key `('ab', 1)` leads to the row `('abx', 1)`, which has the name that is asked for or,
with another rest behind the prefix, has not. -/
theorem indexPlan_agrees_prefixes : ∃ found dropped : IndexDecision,
    selectBestIndex (nameAndOne "abx") prefixTable.indexMeta = .ok (some found) ∧
    matchedRows prefixTable (nameAndOne "abx") (some found) = .ok [⟨prefixRow "abx" 1, 0⟩] ∧
    planDelete prefixTable (nameAndOne "abx") >>= executeDelete prefixTable (nameAndOne "abx")
      = executeDelete prefixTable (nameAndOne "abx") none ∧
    selectBestIndex (nameAndOne "abz") prefixTable.indexMeta = .ok (some dropped) ∧
    indexScan prefixTable dropped = .ok [⟨prefixRow "abx" 1, 0⟩] ∧
    matchedRows prefixTable (nameAndOne "abz") (some dropped) = .ok [] := by
  have hagrees := fun name filter => @indexPlan_agrees prefixTable prefixRows filter _
    (fun s => ⟨false, 1, s⟩) indexedTable_prefixTable
    [⟨text "a", .equals, ⟨.string, text name⟩⟩, ⟨text "b", .equals, ⟨.number, text "1"⟩⟩]
  obtain ⟨⟨d, hfound, hrows⟩, -, -, hdelete, -⟩ :=
    hagrees "abx" (nameAndOne "abx") rfl (noFloats_nameAndOne _ _)
  obtain ⟨⟨d', hdropped, hnone⟩, -⟩ :=
    hagrees "abz" (nameAndOne "abz") rfl (noFloats_nameAndOne _ _)
  have hdecision : selectBestIndex (nameAndOne "abx") prefixTable.indexMeta
      = .ok (some ⟨prefixIndex, _, _⟩) := rfl
  have hdecision' : selectBestIndex (nameAndOne "abz") prefixTable.indexMeta
      = .ok (some ⟨prefixIndex, _, _⟩) := rfl
  cases hfound.symm.trans hdecision
  cases hdropped.symm.trans hdecision'
  refine ⟨_, _, hdecision, hrows.trans ?_, hdelete, hdecision', ?_, hnone.trans ?_⟩
  · decide +kernel
  · decide +kernel
  · decide +kernel

end Maxql
