import Maxql.Engine.Step
import Maxql.Engine.Where

/-!
# Rows made by INSERT and UPDATE

The values of an INSERT are checked one by one, and the columns without a value
take their default.  The rows of an UPDATE are rows of the table with some
values set.

The groups are rows column by column, INSERT, and UPDATE.
-/

namespace Maxql

open Program Bytes

/-! ## Column by column -/

/-- Setting a value that fits its column. -/
theorem forall₂_set {α β : Type} {R : α → β → Prop} {xs : List α} {ys : List β} {b : β}
    (h : List.Forall₂ R xs ys) :
    ∀ {i : Nat}, (∀ a, xs[i]? = some a → R a b) → List.Forall₂ R xs (ys.set i b) := by
  induction h with
  | nil => exact fun _ => .nil
  | cons hxy hrest ih =>
    intro i hb
    cases i with
    | zero => exact .cons (hb _ rfl) hrest
    | succ i => exact .cons hxy (ih fun a ha => hb a ha)

/-! ## INSERT -/

/-- The values that are there fit their columns. -/
def Assigned (columns : List Column) (values : List (Option DataValue)) : Prop :=
  List.Forall₂ (fun column value => ∀ v, value = some v →
    resolvedTypeValidate column.resolvedType v = .ok) columns values

theorem assigned_none (columns : List Column) :
    Assigned columns (List.replicate columns.length none) := by
  induction columns with
  | nil => exact .nil
  | cons c columns ih => exact .cons (fun v h => by cases h) ih

theorem Assigned.step {strtof : Strtof} {schema : TableSchema} {assignments : List Assignment} :
    ∀ {values values' : List (Option DataValue)}, Assigned schema.columns values →
      analyzeAssignments strtof schema assignments values = .ok values' →
      Assigned schema.columns values' := by
  induction assignments with
  | nil =>
    intro values values' hvalues h
    cases h
    exact hvalues
  | cons assignment assignments ih =>
    intro values values' hvalues h
    rw [analyzeAssignments] at h
    obtain ⟨pos, hpos, h⟩ := bind_eq_ok.1 h
    obtain ⟨value, _, h⟩ := bind_eq_ok.1 h
    obtain ⟨column, hcolumn, _⟩ := findColumnIndex_spec hpos
    rw [columnAt_eq hcolumn] at h
    simp only at h
    split at h
    · cases h
    · next hvalid =>
      refine ih (forall₂_set hvalues fun c hc v hv => ?_) h
      cases hcolumn.symm.trans hc
      cases hv
      exact not_not.1 hvalid

theorem fillDefaults_typed {columns : List Column}
    (hdefaults : ∀ c ∈ columns, c.hasDefault = true →
      resolvedTypeValidate c.resolvedType c.defaultValue = .ok) :
    ∀ {values : List (Option DataValue)} {row : DataRow}, Assigned columns values →
      fillDefaults columns values = .ok row → RowTyped columns row := by
  induction columns with
  | nil =>
    intro values row _ h
    cases h
    exact .nil
  | cons c columns ih =>
    intro values row hvalues h
    obtain ⟨hc, hcolumns⟩ := List.forall_mem_cons.1 hdefaults
    cases hvalues with
    | @cons _ value _ values hvalue hrest =>
      rw [fillDefaults] at h
      obtain ⟨v, hv, h⟩ := bind_eq_ok.1 h
      obtain ⟨rest, hfill, h⟩ := bind_eq_ok.1 h
      cases h
      refine .cons ?_ (ih hcolumns hrest hfill)
      cases value with
      | some w =>
        cases hv
        exact hvalue _ rfl
      | none =>
        unfold valueOrDefault at hv
        simp only [List.headD_cons] at hv
        split at hv
        · next hdefault =>
          cases hv
          exact hc hdefault
        · cases hv

/-- A row that `analyze_insert` makes. -/
theorem analyzeInsert_typed {strtof : Strtof} {t : TableState} (ht : SchemaSound t.schema)
    {stmt : InsertStmt} {values : DataRow} (h : analyzeInsert strtof t stmt = .ok values) :
    RowTyped t.schema.columns values := by
  obtain ⟨_, _, h⟩ := bind_eq_ok.1 h
  split at h
  · cases h
  · obtain ⟨assigned, hassigned, h⟩ := bind_eq_ok.1 h
    exact fillDefaults_typed ht.defaults ((assigned_none _).step hassigned) h

/-! ## UPDATE -/

/-- Each value that is assigned is in a relation to its column. -/
def AssignsEach (R : Column → DataValue → Prop) (columns : List Column)
    (values : List (Nat × DataValue)) : Prop :=
  ∀ q ∈ values, ∀ column, columns[q.1]? = some column → R column q.2

theorem matchingRows_sublist [UnionMemory] {filter : WhereFilter} {rows : List StoredRow} :
    ∀ {matched : List StoredRow}, matchingRows filter rows = .ok matched →
      matched.Sublist rows := by
  induction rows with
  | nil =>
    intro matched h
    cases h
    exact .slnil
  | cons x rows ih =>
    intro matched h
    rw [matchingRows] at h
    obtain ⟨found, _, h⟩ := bind_eq_ok.1 h
    obtain ⟨rest, hrest, h⟩ := bind_eq_ok.1 h
    cases found with
    | false =>
      cases h
      exact (ih hrest).cons x
    | true =>
      cases h
      exact (ih hrest).cons_cons x

end Maxql
