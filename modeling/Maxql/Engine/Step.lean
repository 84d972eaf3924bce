import Maxql.DataFile
import Maxql.Engine.Ddl
import Maxql.Lib.UniqueIndex

/-!
# Runs of statements

What a statement that succeeds has done to its table, one case for each kind of
statement, and the tables that a run of statements reaches.  A statement that
fails with an error leaves the table as it is, so it does not show in a run.

The groups are the steps, the rows that a step hands to `storage_insert_row`,
the runs, the tables that CREATE TABLE makes, the offsets in the indexes, and
the filling of a new index.
-/

namespace Maxql

open Program Bytes UniqueIndex

/-! ## Steps -/

theorem runStages_eq_ok {α β : Type} {stages : Except Error α}
    {execute : α → Checked (Except Error β)} {b : β} :
    runStages stages execute = .ok (.ok b) ↔ ∃ plan, stages = .ok plan ∧
      execute plan = .ok (.ok b) := by
  cases stages with
  | error e => exact ⟨fun h => (by cases h), fun ⟨_, h, _⟩ => (by cases h)⟩
  | ok plan => exact ⟨fun h => ⟨plan, rfl, h⟩, fun ⟨_, h, hrun⟩ => (by cases h; exact hrun)⟩

/-- What a statement has done when it succeeds. -/
inductive StatementStep [UnionMemory] (strtof : Strtof) (t : TableState)
    : Statement → TableState → Prop
  | insert {stmt : InsertStmt} {values : DataRow} {dataFile : List UInt8} {offset : Nat}
      {indexes : IndexSet}
      (hplan : (do validateInsert stmt; analyzeInsert strtof t stmt) = .ok values)
      (hcheck : indexSetHasDuplicate t.indexes values = .ok none)
      (hstore : storageInsertRow t.dataFile values t.schema = .ok (dataFile, offset))
      (hindex : indexSetInsert t.indexes values offset = .ok indexes) :
      StatementStep strtof t (.insert stmt) { t with dataFile, indexes }
  | delete {stmt : DeleteStmt} {filter : WhereFilter} {decision : Option IndexDecision}
      {rows : List StoredRow} {indexes : IndexSet}
      (hplan : (do validateDelete stmt; analyzeDelete strtof t stmt) = .ok filter)
      (hdecision : planDelete t filter = .ok decision)
      (hrows : matchedRows t filter decision = .ok rows)
      (hindex : deleteFromIndexes rows t.indexes = .ok indexes) :
      StatementStep strtof t (.delete stmt)
        { t with
          dataFile := storageDeleteRows t.dataFile (rows.map (·.offset))
          indexes }
  | update {stmt : UpdateStmt} {plan : UpdateExecPlan} {decision : Option IndexDecision}
      {pairs : List UpdatePair} {t' : TableState}
      (hplan : (do validateUpdate stmt; analyzeUpdate strtof t stmt) = .ok plan)
      (hdecision : planUpdate t plan = .ok decision)
      (hpairs : collectUpdates t plan decision = .ok pairs)
      (hcheck : checkUpdates t pairs = .ok (.ok ()))
      (hwrite : writeUpdates pairs t = .ok t') :
      StatementStep strtof t (.update stmt) t'
  | createIndex {stmt : CreateIndexStmt} {indexDef : IndexDefinition} {index : KeyMap}
      (hplan : planCreateIndex t.schema t.indexMeta stmt = .ok indexDef)
      (hindex : backfillIndex t.dataFile t.schema indexDef indexCreate = .ok (.ok index)) :
      StatementStep strtof t (.createIndex stmt)
        { t with indexes := t.indexes ++ [(indexDef, index)] }
  | dropIndex {stmt : DropIndexStmt} (pos : Nat) :
      StatementStep strtof t (.dropIndex stmt) { t with indexes := t.indexes.eraseIdx pos }
  | truncate {stmt : TruncateTableStmt} :
      StatementStep strtof t (.truncate stmt)
        { t with
          dataFile := []
          indexes := t.indexes.map fun entry => (entry.1, indexCreate) }

theorem statementStep_of_run [UnionMemory] {strtof : Strtof} {t t' : TableState} {s : Statement}
    (h : runStatement strtof t s = .ok (.ok t')) : StatementStep strtof t s t' := by
  cases s with
  | insert stmt =>
    obtain ⟨values, hplan, h⟩ := runStages_eq_ok.1 h
    obtain ⟨found, hcheck, h⟩ := bind_eq_ok.1 h
    cases found with
    | some indexDef => cases h
    | none =>
      obtain ⟨⟨dataFile, offset⟩, hstore, h⟩ := bind_eq_ok.1 h
      obtain ⟨indexes, hindex, h⟩ := bind_eq_ok.1 h
      cases h
      exact .insert hplan hcheck hstore hindex
  | delete stmt =>
    obtain ⟨filter, hplan, h⟩ := runStages_eq_ok.1 h
    obtain ⟨decision, hdecision, h⟩ := bind_eq_ok.1 h
    obtain ⟨rows, hrows, h⟩ := bind_eq_ok.1 h
    obtain ⟨indexes, hindex, h⟩ := bind_eq_ok.1 h
    have hstep := StatementStep.delete hplan hdecision hrows hindex
    split at h
    · next hnone =>
      subst hnone
      cases hindex
      cases h
      exact hstep
    · cases h
      exact hstep
  | update stmt =>
    obtain ⟨plan, hplan, h⟩ := runStages_eq_ok.1 h
    obtain ⟨decision, hdecision, h⟩ := bind_eq_ok.1 h
    obtain ⟨pairs, hpairs, h⟩ := bind_eq_ok.1 h
    obtain ⟨checked, hcheck, h⟩ := bind_eq_ok.1 h
    cases checked with
    | error e => cases h
    | ok _ =>
      obtain ⟨t'', hwrite, h⟩ := bind_eq_ok.1 h
      cases h
      exact .update hplan hdecision hpairs hcheck hwrite
  | createIndex stmt =>
    obtain ⟨indexDef, hplan, h⟩ := runStages_eq_ok.1 h
    obtain ⟨_, _, hplan⟩ := bind_eq_ok.1 hplan
    obtain ⟨_, _, hplan⟩ := bind_eq_ok.1 hplan
    obtain ⟨result, hindex, h⟩ := bind_eq_ok.1 h
    cases result with
    | error e => cases h
    | ok index =>
      cases h
      exact .createIndex hplan hindex
  | dropIndex stmt =>
    obtain ⟨pos, _, h⟩ := runStages_eq_ok.1 h
    cases h
    exact .dropIndex pos
  | truncate stmt =>
    obtain ⟨_, _, h⟩ := runStages_eq_ok.1 h
    cases h
    exact .truncate

/-! ## Rows on their way to the data file -/

/-- The statement calls `storage_insert_row` with these values. -/
inductive HandsOver [UnionMemory] (strtof : Strtof) (t : TableState) : Statement → DataRow → Prop
  | insert {stmt : InsertStmt} {values : DataRow}
      (hplan : (do validateInsert stmt; analyzeInsert strtof t stmt) = .ok values)
      (hcheck : indexSetHasDuplicate t.indexes values = .ok none) :
      HandsOver strtof t (.insert stmt) values
  | update {stmt : UpdateStmt} {plan : UpdateExecPlan} {decision : Option IndexDecision}
      {pairs : List UpdatePair} {pair : UpdatePair}
      (hplan : (do validateUpdate stmt; analyzeUpdate strtof t stmt) = .ok plan)
      (hdecision : planUpdate t plan = .ok decision)
      (hpairs : collectUpdates t plan decision = .ok pairs)
      (hcheck : checkUpdates t pairs = .ok (.ok ())) (hpair : pair ∈ pairs) :
      HandsOver strtof t (.update stmt) pair.updated

/-! ## Runs -/

/-- The tables that a run reaches from CREATE TABLE on, if every statement that it runs
meets the condition. -/
inductive Reached [UnionMemory] (strtof : Strtof) (Condition : TableState → Statement → Prop) :
    TableState → Prop
  | create {tableNames : List Text} {stmt : CreateTableStmt} {schema : TableSchema}
      (hvalidate : validateCreateTable stmt = .ok ())
      (hplan : planCreateTable strtof tableNames stmt = .ok schema) :
      Reached strtof Condition { schema, dataFile := [], indexes := [] }
  | run {t t' : TableState} {s : Statement} (ht : Reached strtof Condition t)
      (hs : Condition t s) (hrun : runStatement strtof t s = .ok (.ok t')) :
      Reached strtof Condition t'

/-! ## Tables that CREATE TABLE makes -/

/-- The columns have types that `resolve_type` gives, and defaults of these types. -/
structure SchemaSound (schema : TableSchema) : Prop where
  count : schema.columns.length ≤ maxColumnsPerTable
  resolved : ∀ c ∈ schema.columns, ∃ typeName hasLen len,
    resolveType typeName hasLen len = .ok c.resolvedType
  defaults : ∀ c ∈ schema.columns, c.hasDefault = true →
    resolvedTypeValidate c.resolvedType c.defaultValue = .ok

theorem SchemaSound.columns {schema : TableSchema} (h : SchemaSound schema) :
    ∀ c ∈ schema.columns, c.resolvedType.Sound := fun c hc => by
  obtain ⟨typeName, hasLen, len, hresolve⟩ := h.resolved c hc
  exact resolveType_sound hresolve

theorem planDefault_valid {strtof : Strtof} {columnName : Text} {rt : ResolvedType}
    {columnDef : ColumnDef} {value : DataValue}
    (h : planDefault strtof columnName rt columnDef = .ok value)
    (hdefault : columnDef.hasDefault = true) : resolvedTypeValidate rt value = .ok := by
  unfold planDefault at h
  rw [hdefault] at h
  simp only [Bool.not_true, Bool.false_eq_true, if_false] at h
  split at h
  · cases h
  · split at h
    · cases h
    · next hvalid =>
      cases h
      exact not_not.1 hvalid

theorem planColumn_sound {strtof : Strtof} {columnDef : ColumnDef} {c : Column}
    (h : planColumn strtof columnDef = .ok c) :
    (∃ typeName hasLen len, resolveType typeName hasLen len = .ok c.resolvedType) ∧
      (c.hasDefault = true → resolvedTypeValidate c.resolvedType c.defaultValue = .ok) := by
  obtain ⟨len, _, h⟩ := bind_eq_ok.1 h
  split at h
  · cases h
  · next rt hresolve =>
    obtain ⟨value, hdefault, h⟩ := bind_eq_ok.1 h
    cases h
    exact ⟨⟨_, _, _, hresolve⟩, planDefault_valid hdefault⟩

theorem schemaSound_of_plan {strtof : Strtof} {tableNames : List Text} {stmt : CreateTableStmt}
    {schema : TableSchema} (hvalidate : validateCreateTable stmt = .ok ())
    (hplan : planCreateTable strtof tableNames stmt = .ok schema) : SchemaSound schema := by
  have hcount : stmt.columnDefs.length ≤ maxColumnsPerTable := by
    unfold validateCreateTable at hvalidate
    split at hvalidate
    · cases hvalidate
    · next hle => exact Nat.not_lt.1 hle
  unfold planCreateTable at hplan
  simp only at hplan
  split at hplan
  · cases hplan
  · obtain ⟨columns, hcolumns, hplan⟩ := bind_eq_ok.1 hplan
    cases hplan
    have hall := mapM_eq_ok.1 hcolumns
    have hcolumn : ∀ c ∈ columns, ∃ columnDef, planColumn strtof columnDef = .ok c := by
      intro c hc
      obtain ⟨i, hi, rfl⟩ := List.mem_iff_getElem.1 hc
      exact ⟨_, List.Forall₂.get hall (hall.length_eq ▸ hi) hi⟩
    refine ⟨hall.length_eq ▸ hcount, fun c hc => ?_, fun c hc => ?_⟩
    · obtain ⟨_, hplan⟩ := hcolumn c hc
      exact (planColumn_sound hplan).1
    · obtain ⟨_, hplan⟩ := hcolumn c hc
      exact (planColumn_sound hplan).2

/-! ## Offsets in the indexes -/

/-- Every entry of the indexes leads to an offset with the property. -/
def OffsetsIn (indexes : IndexSet) (P : Nat → Prop) : Prop :=
  ∀ entry ∈ indexes, ∀ key offset, entry.2 key = some offset → P offset

section Offsets

variable {indexes indexes' : IndexSet} {P Q : Nat → Prop} {values : DataRow} {offset : Nat}

theorem OffsetsIn.imp (h : OffsetsIn indexes P) (hPQ : ∀ o, P o → Q o) : OffsetsIn indexes Q :=
  fun entry hentry key o ho => hPQ o (h entry hentry key o ho)

theorem offsetsIn_cons {entry : IndexDefinition × KeyMap} : OffsetsIn (entry :: indexes) P ↔
    (∀ key o, entry.2 key = some o → P o) ∧ OffsetsIn indexes P :=
  List.forall_mem_cons

theorem OffsetsIn.insert [UnionMemory] (h : OffsetsIn indexes P) (hoffset : P offset)
    (hrun : indexSetInsert indexes values offset = .ok indexes') : OffsetsIn indexes' P := by
  induction indexes generalizing indexes' with
  | nil =>
    cases hrun
    exact h
  | cons entry indexes ih =>
    obtain ⟨indexDef, index⟩ := entry
    obtain ⟨hfirst, hrest⟩ := offsetsIn_cons.1 h
    obtain ⟨index', hinsert, hrun⟩ := bind_eq_ok.1 hrun
    obtain ⟨key, _, hinsert⟩ := bind_eq_ok.1 hinsert
    cases hinsert
    obtain ⟨indexes'', hinsert, hrun⟩ := bind_eq_ok.1 hrun
    cases hrun
    have hindex := update_some hfirst key (some offset) fun o ho =>
      Option.some.inj ho ▸ hoffset
    exact offsetsIn_cons.2 ⟨hindex, ih hrest hinsert⟩

theorem OffsetsIn.delete [UnionMemory] (h : OffsetsIn indexes P) {all : Bool}
    (hrun : indexSetDelete indexes values = .ok (all, indexes')) : OffsetsIn indexes' P := by
  induction indexes generalizing all indexes' with
  | nil =>
    cases hrun
    exact h
  | cons entry indexes ih =>
    obtain ⟨indexDef, index⟩ := entry
    obtain ⟨hfirst, hrest⟩ := offsetsIn_cons.1 h
    obtain ⟨⟨deleted, index'⟩, hdelete, hrun⟩ := bind_eq_ok.1 hrun
    obtain ⟨key, _, hdelete⟩ := bind_eq_ok.1 hdelete
    cases hdelete
    have hindex := update_some hfirst key none fun o ho => by cases ho
    simp only at hrun
    split at hrun
    · cases hrun
      exact offsetsIn_cons.2 ⟨hindex, hrest⟩
    · obtain ⟨⟨all', indexes''⟩, hdelete, hrun⟩ := bind_eq_ok.1 hrun
      cases hrun
      exact offsetsIn_cons.2 ⟨hindex, ih hrest hdelete⟩

theorem OffsetsIn.deleteRows [UnionMemory] {rows : List StoredRow} (h : OffsetsIn indexes P)
    (hrun : deleteFromIndexes rows indexes = .ok indexes') : OffsetsIn indexes' P := by
  induction rows generalizing indexes with
  | nil =>
    cases hrun
    exact h
  | cons x rows ih =>
    obtain ⟨⟨all, indexes''⟩, hdelete, hrun⟩ := bind_eq_ok.1 hrun
    exact ih (h.delete hdelete) hrun

end Offsets

/-! ## Backfill -/

/-- The loop of `backfill_index` goes over the rows of a table scan.  `I` is its invariant
over the rows that are done. -/
theorem backfillIndexFrom_rule [UnionMemory] {dataFile : List UInt8} {schema : TableSchema}
    {indexDef : IndexDefinition} {I : List StoredRow → KeyMap → Prop}
    (hstep : ∀ done x index key, I done index → rowKey indexDef x.row = .ok key →
      (indexDef.isUnique = true → index key = none) →
      I (done ++ [x]) (Function.update index key (some x.offset))) :
    ∀ {fuel pos : Nat} {done rows : List StoredRow} {index index' : KeyMap}, I done index →
      tableScanFrom dataFile schema fuel pos = .ok rows →
      backfillIndexFrom dataFile schema indexDef fuel pos index = .ok (.ok index') →
      I (done ++ rows) index' := by
  intro fuel
  induction fuel with
  | zero => intro pos done rows index index' _ hscan; cases hscan
  | succ fuel ih =>
    intro pos done rows index index' hI hscan hrun
    rw [tableScanFrom] at hscan
    rw [backfillIndexFrom] at hrun
    split at hscan
    · next hend =>
      rw [if_pos hend] at hrun
      cases hscan
      cases hrun
      rwa [List.append_nil]
    · next hmore =>
      rw [if_neg hmore] at hrun
      obtain ⟨⟨row, next⟩, hread, hscan⟩ := bind_eq_ok.1 hscan
      obtain ⟨rest, hrest, hscan⟩ := bind_eq_ok.1 hscan
      rw [hread, Checked.ok_bind] at hrun
      cases row with
      | none =>
        cases hscan
        exact ih hI hrest hrun
      | some row =>
        cases hscan
        obtain ⟨found, hfound, hrun⟩ := bind_eq_ok.1 hrun
        obtain ⟨entry, hsearch, hfound⟩ := bind_eq_ok.1 hfound
        obtain ⟨key, hkey, hsearch⟩ := bind_eq_ok.1 hsearch
        cases hsearch
        cases hfound
        split at hrun
        · cases hrun
        · next hnodup =>
          obtain ⟨index'', hinsert, hrun⟩ := bind_eq_ok.1 hrun
          rw [indexInsert, hkey, Checked.ok_bind] at hinsert
          cases hinsert
          have hfree : indexDef.isUnique = true → index key = none := fun hunique => by
            simpa [hunique] using hnodup
          have hI' := ih (hstep done ⟨row, pos⟩ index key hI hkey hfree) hrest hrun
          rwa [List.append_assoc] at hI'

end Maxql
