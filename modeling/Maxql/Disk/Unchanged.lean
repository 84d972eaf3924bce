import Maxql.Disk.Dml

/-!
# Errors of INSERT, UPDATE and CREATE INDEX

The executors read files until the last check of the unique keys has passed,
and what they write then cannot be refused any more.  So as long as no file
operation fails, an error leaves the files and the tables as they were.

* `indexSetLoad_untouched`, `createRowSource_untouched`,
  `backfillIndex_untouched`: what comes before the checks only reads;
* `keyStatement_unchanged`: an error changes nothing.
-/

namespace Maxql.Disk

open Program Bytes

/-! ## What only reads -/

theorem storageOpen_untouched (tableName : Text) : Within Untouched (storageOpen tableName) :=
  Within.bind (openFile_untouched _ _ _ (.inr rfl)) fun _ => Within.pure _

theorem indexLoad_untouched (tableName : Text) (indexDef : IndexDefinition) :
    Within Untouched (indexLoad tableName indexDef) :=
  Within.bind (openFile_untouched _ _ _ (.inl rfl)) fun opened =>
    Within.bind opened.1.contents_untouched fun contents => by
      cases contents with
      | some index => exact Within.pure _
      | none => exact Within.lift _

theorem indexSetLoad_untouched (tableName : Text) (indexMeta : IndexMeta) :
    Within Untouched (indexSetLoad tableName indexMeta) := by
  induction indexMeta with
  | nil => exact Within.pure _
  | cons indexDef indexMeta ih =>
    refine Within.bind (indexLoad_untouched tableName indexDef) fun index => ?_
    exact Within.bind ih fun indexSet => Within.pure _

theorem backfillIndex_untouched [UnionMemory] (schema : TableSchema)
    (indexDef : IndexDefinition) : Within Untouched (backfillIndex schema indexDef) := by
  refine Within.bind (storageOpen_untouched _) fun dataFile => ?_
  refine Within.bind dataFile.contents_untouched fun bytes => ?_
  refine Within.bind (Within.lift _) fun filled => ?_
  cases filled with
  | error e => exact Within.pure _
  | ok index => exact Within.bind (Within.lift _) fun rows => Within.pure _

theorem indexScan_untouched [UnionMemory] (schema : TableSchema) (decision : IndexDecision) :
    Within Untouched (indexScan schema decision) := by
  refine Within.bind (openFile_untouched _ _ _ (.inl rfl)) fun opened => ?_
  refine Within.bind (Within.lift _) fun key => ?_
  refine Within.bind opened.1.contents_untouched fun contents => ?_
  cases contents with
  | none => exact Within.lift _
  | some index =>
    refine Within.bind (storageOpen_untouched _) fun dataFile => ?_
    cases index key with
    | none => exact Within.pure _
    | some offset =>
      refine Within.bind dataFile.contents_untouched fun bytes => ?_
      refine Within.bind (Within.lift _) fun row => ?_
      cases row <;> exact Within.pure _

theorem createRowSource_untouched [UnionMemory] (schema : TableSchema)
    (decision : Option IndexDecision) : Within Untouched (createRowSource schema decision) := by
  cases decision with
  | some decision => exact indexScan_untouched schema decision
  | none =>
    refine Within.bind (storageOpen_untouched _) fun dataFile => ?_
    exact Within.bind dataFile.contents_untouched fun bytes => Within.lift _

/-! ## Executors -/

variable {w : World} (hgoes : w.failsIn = none)
include hgoes

/-- A part that only reads does not matter. -/
theorem onError_reads {α β : Type} {p : Prog World β} {f : β → Prog World (Except Error α)}
    {I : World → Prop} (hp : Within Untouched p) (hf : ∀ b, OnError (f b) w I) :
    OnError (p >>= f) w I := by
  intro e w'' hrun
  obtain ⟨b, w', hfirst, hrest⟩ := hrun.exists_of_bind
  obtain rfl := hp hfirst hgoes
  exact hf b e w'' hrest

theorem onError_executeInsert [UnionMemory] (table : TableMeta) (values : DataRow) :
    OnError (executeInsert table values) w (· = w) := by
  refine onError_reads hgoes (storageOpen_untouched _) fun dataFile => ?_
  refine onError_reads hgoes (indexSetLoad_untouched _ _) fun indexSet => ?_
  refine OnError.lift fun found _ => ?_
  cases found with
  | some indexDef => exact (onError_of_error (Runs.pure _ _)).2 rfl
  | none =>
    -- from here on there are only writes
    refine OnError.bind fun offset w₁ => OnError.bind fun indexSet w₂ => ?_
    exact onError_bind_ok _ () w₂ _

theorem onError_executeUpdate [UnionMemory] (table : TableMeta) (plan : UpdateExecPlan)
    (decision : Option IndexDecision) :
    OnError (executeUpdate table plan decision) w (· = w) := by
  refine onError_reads hgoes (indexSetLoad_untouched _ _) fun indexSet => ?_
  refine onError_reads hgoes (createRowSource_untouched _ _) fun source => ?_
  refine OnError.lift fun rows _ => OnError.lift fun pairs _ => OnError.lift fun conflict _ => ?_
  cases conflict with
  | some indexDef => exact (onError_of_error (Runs.pure _ _)).2 rfl
  | none =>
    refine OnError.lift fun duplicate _ => ?_
    cases duplicate with
    | some indexDef => exact (onError_of_error (Runs.pure _ _)).2 rfl
    | none =>
      refine OnError.bind fun dataFile w₁ => OnError.bind fun indexSet w₂ => ?_
      exact onError_bind_ok _ () w₂ _

theorem onError_executeCreateIndex [UnionMemory] (unwritten : Unwritten) (printFloat : FloatFormat)
    (pos : Nat) (indexDef : IndexDefinition) :
    OnError (executeCreateIndex unwritten printFloat pos indexDef) w (· = w) := by
  refine (onError_of_runs (Runs.get w)).2 (OnError.lift fun table _ => ?_)
  refine onError_reads hgoes (backfillIndex_untouched _ _) fun backfilled => ?_
  cases backfilled with
  | error e => exact (onError_of_error (Runs.pure _ _)).2 rfl
  | ok index =>
    -- the index has been filled; the schema file can be opened
    have hne : w.failsIn ≠ some 0 := by simp [hgoes]
    refine (onError_of_runs (indexSave_goes hne _ _ _)).2 ?_
    refine (onError_of_runs (Runs.modify _ _)).2 ?_
    refine schemaSaveTable_onError ?_ _ _ _ _ _
    show w.tick.failsIn ≠ some 0
    rw [World.tick_of_none hgoes]
    exact hne

omit hgoes

/-- While no file operation fails, an error leaves the files and the tables as they were. -/
theorem keyStatement_unchanged [UnionMemory] (strtof : Strtof) (unwritten : Unwritten)
    (printFloat : FloatFormat)
    (w : World) (hgoes : w.failsIn = none) (stmt : KeyStatement) (e : Error) (w' : World)
    (hrun : Runs (runKeyStatement strtof unwritten printFloat stmt) w (.error e) w') :
    w'.files = w.files ∧ w'.tables = w.tables := by
  suffices h : OnError (runKeyStatement strtof unwritten printFloat stmt) w (· = w) by
    obtain rfl := h e w' hrun
    exact ⟨rfl, rfl⟩
  cases stmt with
  | insert stmt =>
    refine (onError_runPipeline (· = w) rfl).2 fun plan _ => ?_
    exact onError_executeInsert hgoes plan.1 plan.2
  | update stmt =>
    refine (onError_runPipeline (· = w) rfl).2 fun plan _ => OnError.lift fun decision _ => ?_
    exact onError_executeUpdate hgoes plan.1 plan.2 decision
  | createIndex stmt =>
    refine (onError_runPipeline (· = w) rfl).2 fun plan _ => ?_
    exact onError_executeCreateIndex hgoes unwritten printFloat plan.1 plan.2

open ClearedMemory

/-- A table with one row and a unique index. -/
def oneRow : World where
  tables := [{ name := text "t", schema := indexedSchema, indexMeta := indexedMeta }]
  files
    | .catalog => some (text "t\n")
    | .schema tableName => if tableName = text "t" then some indexedFile else none
    | .data tableName =>
      if tableName = text "t" then some ([0, 7, 0, 5, 0, 0, 0] : List UInt8) else none
    | .index tableName indexName =>
      if tableName = text "t" ∧ indexName = text "i" then
        some (some fun key => if key = [5, 0, 0, 0] then some 0 else none)
      else none
  failsIn := none

/-- The key of the row again. -/
def insertFive : KeyStatement := .insert ⟨text "t", [⟨text "a", ⟨.number, text "5"⟩⟩]⟩

theorem keyStatement_unchanged_insertFive : ∃ e w',
    Runs (runKeyStatement (fun s => ⟨false, 0, s⟩) (fun size => Vector.replicate size 0)
      (fun _ => text "0") insertFive) oneRow (.error e) w' ∧
    w'.files = oneRow.files ∧ w'.tables = oneRow.tables := by
  have hresult : ((runKeyStatement (fun s => ⟨false, 0, s⟩) (fun size => Vector.replicate size 0)
      (fun _ => text "0") insertFive).run oneRow).map Prod.fst
      = .ok (.error { code := .executor, msg := text "Duplicate value(s) for unique index 'i'" }) := by
    decide +kernel
  obtain ⟨w', hrun⟩ := exists_runs hresult
  exact ⟨_, w', hrun, keyStatement_unchanged _ _ _ oneRow rfl insertFive _ w' hrun⟩

end Maxql.Disk
