import Maxql.Disk.Tables
import Maxql.Engine.DatabaseRefines

/-!
# The engine over files refines the engine over tables

While no file operation fails, the names of the tables fit in the catalog and
every index file that is read has a byte, every text has the same answer over
files as over a list of tables, and the files hold the tables again afterwards.

The groups are the stages, the index files that are read, the pipelines and the
texts.

* `stages_found`, `stages_missing`: the stages over a list of entries;
* `OpensIndex`: a statement that reads an index file;
* `onTable_runsOn`: a statement on the table that it names;
* `pipelineRun_stored`: one text.
-/

namespace Maxql.Disk

open Program Bytes Simulation

variable {strtof : Strtof} {unwritten : Unwritten} {printFloat : FloatFormat} {w w' : World}
  {database : DatabaseState} {t t' : TableState} {pos : Nat}

/-! ## Stages -/

section Stages

variable {α : Type}

/-- The lookup in the list of the entries. -/
theorem lookupTable_map [UnionMemory] (strtof : Strtof) (code : ErrorCode) (complaint : Text)
    (database : DatabaseState) (table : Text) :
    lookupTable code complaint (database.map tableMeta) table
      = (lookupNamed (databaseTables strtof).name database code complaint table).map
          fun entry => (tableMeta entry.1, entry.2) := by
  refine Eq.trans ?_ (lookupNamed_map tableMeta (·.name) database code complaint table)
  unfold lookupTable lookupNamed databaseTableByName
  dsimp only
  generalize (database.map tableMeta).zipIdx.find? (fun entry =>
    svToCstr table (maxTableNameSize + 1) == entry.1.name) = found
  cases found <;> rfl

/-- Stages whose lookup fails. -/
theorem stages_missing [UnionMemory] {validate : Except Error Unit} {code : ErrorCode}
    {complaint table : Text} {e : Error} {rest : TableMeta × Nat → Except Error α}
    (h : (do validate; lookupNamed (databaseTables strtof).name database code complaint table)
      = .error e) :
    (do validate; let entry ← lookupTable code complaint (database.map tableMeta) table; rest entry)
      = .error e := by
  rw [lookupTable_map strtof]
  cases validate with
  | error e' =>
    cases h
    rfl
  | ok =>
    have h : lookupNamed (databaseTables strtof).name database code complaint table = .error e := h
    rw [h]
    rfl

/-- Stages whose lookup finds a table go on with its entry. -/
theorem stages_found [UnionMemory] {validate : Except Error Unit} {code : ErrorCode}
    {complaint table : Text} {rest : TableMeta × Nat → Except Error α}
    (h : (do validate; lookupNamed (databaseTables strtof).name database code complaint table)
      = .ok (t, pos)) :
    (do validate; let entry ← lookupTable code complaint (database.map tableMeta) table; rest entry)
      = rest (tableMeta t, pos) := by
  obtain ⟨⟨⟩, hvalidate, h⟩ := bind_eq_ok.1 h
  rw [hvalidate, lookupTable_map strtof, h]
  rfl

/-- The table has the name that is looked for. -/
theorem findTable_found [UnionMemory] {validate : Except Error Unit} {code : ErrorCode}
    {complaint table : Text}
    (h : (do validate; lookupNamed (databaseTables strtof).name database code complaint table)
      = .ok (t, pos)) : validate = .ok () ∧ findTable code complaint t table = .ok () := by
  obtain ⟨⟨⟩, hvalidate, h⟩ := bind_eq_ok.1 h
  refine ⟨hvalidate, ?_⟩
  have hname := (lookupNamed_eq_ok h).2
  unfold findTable
  dsimp only
  rw [← hname]
  exact if_pos (beq_self_eq_true _)

theorem stages_table [UnionMemory] {validate : Except Error Unit} {code : ErrorCode}
    {complaint table : Text} {rest : Except Error α}
    (h : (do validate; lookupNamed (databaseTables strtof).name database code complaint table)
      = .ok (t, pos)) : (do validate; findTable code complaint t table; rest) = rest := by
  obtain ⟨hvalidate, hfind⟩ := findTable_found h
  rw [hvalidate, hfind]
  rfl

theorem except_map_bind {ε β γ : Type} (x : Except ε α) (f : α → Except ε β) (g : β → γ) :
    (x >>= f).map g = x >>= fun a => (f a).map g := by
  cases x <;> rfl

theorem except_bind_pure {ε β : Type} (x : Except ε α) (g : α → β) :
    (do let a ← x; return g a) = x.map g := by
  cases x <;> rfl

theorem insertStages_eq [UnionMemory] {stmt : InsertStmt}
    (h : lookupStages (lookupNamed (databaseTables strtof).name database) (.insert stmt)
      = .ok (t, pos)) :
    insertStages strtof stmt (database.map tableMeta)
      = (do validateInsert stmt; analyzeInsert strtof t stmt).map (tableMeta t, ·) := by
  unfold insertStages analyzeInsert analyzeTable
  rw [stages_found h, stages_table h]
  by_cases hmany : stmt.assignments.length > t.schema.columns.length
  · rw [if_pos hmany]
    exact if_pos hmany
  · rw [if_neg hmany]
    refine (if_neg hmany).trans ?_
    rw [except_map_bind]
    exact bind_congr fun values => except_bind_pure _ _

theorem selectStages_eq [UnionMemory] {stmt : SelectStmt}
    (h : lookupStages (lookupNamed (databaseTables strtof).name database) (.select stmt)
      = .ok (t, pos)) :
    selectStages strtof stmt (database.map tableMeta)
      = (do validateSelect stmt; analyzeSelect strtof t stmt).map (tableMeta t, ·) := by
  unfold selectStages analyzeSelect analyzeTable
  rw [stages_found h, stages_table h, except_map_bind]
  refine bind_congr fun queryColumnOrder => ?_
  rw [except_map_bind]
  rfl

theorem deleteStages_eq [UnionMemory] {stmt : DeleteStmt}
    (h : lookupStages (lookupNamed (databaseTables strtof).name database) (.delete stmt)
      = .ok (t, pos)) :
    deleteStages strtof stmt (database.map tableMeta)
      = (do validateDelete stmt; analyzeDelete strtof t stmt).map (tableMeta t, ·) := by
  unfold deleteStages analyzeDelete analyzeTable
  rw [stages_found h, stages_table h]
  exact except_bind_pure _ _

theorem updateStages_eq [UnionMemory] {stmt : UpdateStmt}
    (h : lookupStages (lookupNamed (databaseTables strtof).name database) (.update stmt)
      = .ok (t, pos)) :
    updateStages strtof stmt (database.map tableMeta)
      = (do validateUpdate stmt; analyzeUpdate strtof t stmt).map (tableMeta t, ·) := by
  unfold updateStages analyzeUpdate analyzeTable
  rw [stages_found h, stages_table h, except_map_bind]
  refine bind_congr fun values => ?_
  rw [except_map_bind]
  rfl

theorem createIndexStages_eq [UnionMemory] {stmt : CreateIndexStmt}
    (h : lookupStages (lookupNamed (databaseTables strtof).name database) (.createIndex stmt)
      = .ok (t, pos)) :
    createIndexStages stmt (database.map tableMeta) = (do
      validateCreateIndex stmt
      planTable t stmt.table
      planCreateIndex t.schema t.indexMeta stmt).map (pos, ·) := by
  unfold createIndexStages planTable
  rw [stages_found h, stages_table h]
  exact except_bind_pure _ _

theorem dropIndexStages_eq [UnionMemory] {stmt : DropIndexStmt}
    (h : lookupStages (lookupNamed (databaseTables strtof).name database) (.dropIndex stmt)
      = .ok (t, pos)) :
    dropIndexStages stmt (database.map tableMeta) = (do
      validateDropIndex stmt
      planTable t stmt.table
      planDropIndex t stmt).map (pos, ·, svToCstr stmt.index (maxIndexNameSize + 1)) := by
  unfold dropIndexStages planTable planDropIndex
  rw [stages_found h, stages_table h]
  have hmeta : (tableMeta t).indexMeta = t.indexMeta := rfl
  dsimp only
  rw [hmeta]
  generalize t.indexMeta.findIdx? (fun indexDef =>
    indexDef.name == svToCstr stmt.index (maxIndexNameSize + 1)) = found
  cases found <;> rfl

theorem truncateTableStages_eq [UnionMemory] {stmt : TruncateTableStmt}
    (h : lookupStages (lookupNamed (databaseTables strtof).name database) (.truncateTable stmt)
      = .ok (t, pos)) :
    truncateTableStages stmt (database.map tableMeta)
      = (do validateTruncateTable stmt; planTable t stmt.table).map fun _ => pos := by
  obtain ⟨hvalidate, hfind⟩ := findTable_found h
  unfold truncateTableStages planTable
  rw [stages_found h, hvalidate, hfind]
  rfl

theorem runPipeline_error {stages : Database → Except Error α}
    {execute : α → Prog World (Except Error Unit)} {e : Error} (h : stages w.tables = .error e) :
    Runs (runPipeline stages execute) w (.error e) w := by
  refine Runs.bind (Runs.get w) ?_
  rw [h]
  exact Runs.pure _ _

theorem runPipeline_ok {stages : Database → Except Error α}
    {execute : α → Prog World (Except Error Unit)} {plan : α} {r : Except Error Unit}
    (h : stages w.tables = .ok plan) (hrun : Runs (execute plan) w r w') :
    Runs (runPipeline stages execute) w r w' := by
  refine Runs.bind (Runs.get w) ?_
  rw [h]
  exact hrun

theorem answerPipeline_error {stages : Database → Except Error α}
    {execute : α → Prog World (Except Error Response)} {e : Error}
    (h : stages w.tables = .error e) :
    Runs (answerPipeline stages execute) w (.error e) w := by
  refine Runs.bind (Runs.get w) ?_
  rw [h]
  exact Runs.pure _ _

theorem answerPipeline_ok {stages : Database → Except Error α}
    {execute : α → Prog World (Except Error Response)} {plan : α} {r : Except Error Response}
    (h : stages w.tables = .ok plan) (hrun : Runs (execute plan) w r w') :
    Runs (answerPipeline stages execute) w r w' := by
  refine Runs.bind (Runs.get w) ?_
  rw [h]
  exact hrun

theorem printing_runs {response : Response} {p : Prog World (Except Error Unit)}
    {r : Except Error Unit} (h : Runs p w r w') :
    Runs (printing response p) w (r.map fun _ => response) w' :=
  Runs.bind h (Runs.pure _ _)

end Stages

/-! ## Index files that are read -/

/-- The statement reads an index file of the table that it names.  INSERT, UPDATE and DELETE load
the indexes of the table, SELECT searches the one that its plan takes. -/
def OpensIndex (strtof : Strtof) (t : TableState) : Query → Prop
  | .insert stmt =>
    (∃ values, (do validateInsert stmt; analyzeInsert strtof t stmt) = .ok values) ∧
      t.indexMeta ≠ []
  | .update stmt =>
    (∃ plan, (do validateUpdate stmt; analyzeUpdate strtof t stmt) = .ok plan) ∧
      t.indexMeta ≠ []
  | .delete stmt =>
    (∃ filter, (do validateDelete stmt; analyzeDelete strtof t stmt) = .ok filter) ∧
      t.indexMeta ≠ []
  | .select stmt => ∃ plan decision,
    (do validateSelect stmt; analyzeSelect strtof t stmt) = .ok plan ∧
      planSelect t plan = .ok (some decision)
  | _ => False

/-- A statement that reads an index file finds keys in it. -/
def OpensFilled (strtof : Strtof) (t : TableState) (q : Query) : Prop :=
  OpensIndex strtof t q → Filled t.indexes

/-- Where there is no index, there is none without a key. -/
theorem filled_of_loads {P : Prop} (h : P ∧ t.indexMeta ≠ [] → Filled t.indexes) (hP : P) :
    Filled t.indexes := by
  by_cases hnil : t.indexMeta = []
  · intro entry hentry
    rw [List.map_eq_nil_iff.1 hnil] at hentry
    cases hentry
  · exact h ⟨hP, hnil⟩

/-! ## Pipelines -/

section Pipelines

/-- What a statement on one table does to the files. -/
def Follows (printFloat : FloatFormat) (w w' : World) (pos : Nat) (t : TableState)
    (result : Except Error (TableState × Response)) : Prop :=
  (∀ e, result = .error e → w' = w) ∧
    ∀ t' response, result = .ok (t', response) → Writes printFloat w w' pos t t'

theorem follows_error (e : Error) : Follows printFloat w w pos t (.error e) :=
  ⟨fun _ _ => rfl, nofun⟩

theorem follows_ok {response : Response} (h : Writes printFloat w w' pos t t') :
    Follows printFloat w w' pos t (.ok (t', response)) := by
  refine ⟨nofun, ?_⟩
  intro t'' response' heq
  cases heq
  exact h

/-- A statement on one table, over the files. -/
def RunsOn (printFloat : FloatFormat) (p : Prog World (Except Error Response)) (w : World)
    (pos : Nat) (t : TableState) (result : Except Error (TableState × Response)) : Prop :=
  ∃ w', Runs p w (result.map Prod.snd) w' ∧ Follows printFloat w w' pos t result

/-- What is printed at the end of an executor. -/
theorem runsOn_printing {p : Prog World (Except Error Unit)} {result : Except Error TableState}
    {response : Response} (h : ∃ w', Runs p w (result.map fun _ => ()) w' ∧
      (∀ e, result = .error e → w' = w) ∧
      ∀ t', result = .ok t' → Writes printFloat w w' pos t t') :
    RunsOn printFloat (printing response p) w pos t (result.map (·, response)) := by
  obtain ⟨w', hrun, herror, hok⟩ := h
  have hprinted : Runs (printing response p) w ((result.map fun _ => ()).map fun _ => response) w' :=
    printing_runs hrun
  cases result with
  | error e =>
    obtain rfl := herror e rfl
    exact ⟨w', hprinted, follows_error e⟩
  | ok t' => exact ⟨w', hprinted, follows_ok (hok t' rfl)⟩

theorem printing_runPipeline {α : Type} (response : Response) (stages : Database → Except Error α)
    (execute : α → Prog World (Except Error Unit)) :
    printing response (runPipeline stages execute)
      = answerPipeline stages fun plan => printing response (execute plan) := by
  unfold printing runPipeline answerPipeline
  rw [bind_assoc]
  refine bind_congr fun w => ?_
  cases stages w.tables with
  | error e => rfl
  | ok plan => rfl

theorem runStages_map {α : Type} (stages : Except Error α)
    (execute : α → Checked (Except Error TableState)) (response : Response) :
    (do return (← runStages stages execute).map (·, response))
      = runStages stages fun plan => do return (← execute plan).map (·, response) := by
  cases stages <;> rfl

/-- Stages that are those of the table, and an executor that does what that of the table does. -/
theorem runsOn_answerPipeline {α β : Type} {stages : Except Error α}
    {answer : α → Checked (Except Error (TableState × Response))}
    {diskStages : Database → Except Error β} {g : α → β}
    {execute : β → Prog World (Except Error Response)}
    {result : Except Error (TableState × Response)}
    (hstages : diskStages w.tables = stages.map g) (hrun : runStages stages answer = .ok result)
    (hexecute : ∀ plan, stages = .ok plan → answer plan = .ok result →
      RunsOn printFloat (execute (g plan)) w pos t result) :
    RunsOn printFloat (answerPipeline diskStages execute) w pos t result := by
  cases stages with
  | error e =>
    cases hrun
    exact ⟨w, answerPipeline_error hstages, follows_error e⟩
  | ok plan =>
    obtain ⟨w', hrun', hfollows⟩ := hexecute plan rfl hrun
    exact ⟨w', answerPipeline_ok hstages hrun', hfollows⟩

theorem insert_runsOn [UnionMemory] (h : Stored strtof printFloat w database)
    (hpos : database[pos]? = some t)
    {stmt : InsertStmt} (hopens : OpensFilled strtof t (.insert stmt))
    {result : Except Error (TableState × Response)}
    (hlookup : lookupStages (lookupNamed (databaseTables strtof).name database) (.insert stmt)
      = .ok (t, pos)) (hrun : answerStatement strtof t (.insert stmt) = .ok result) :
    RunsOn printFloat (pipelineRun strtof unwritten printFloat (.insert stmt)) w pos t result := by
  have ht := List.mem_of_getElem? hpos
  have hstages := insertStages_eq hlookup
  rw [← h.tables] at hstages
  have hrun : (do return (← runInsert strtof t stmt).map (·, Response.affectedRows 1))
    = Except.ok result := hrun
  unfold runInsert at hrun
  rw [runStages_map] at hrun
  show RunsOn printFloat (printing (.affectedRows 1) (runPipeline _ _)) w pos t result
  rw [printing_runPipeline]
  apply runsOn_answerPipeline hstages hrun
  intro values hplan hrun
  obtain ⟨r, hinsert, hresult⟩ := Checked.bind_eq_ok.1 hrun
  cases hresult
  apply runsOn_printing
  obtain ⟨w', hrun', herror, hok⟩ :=
    executeInsert_runs h.quiet (h.rows t ht) (filled_of_loads hopens ⟨values, hplan⟩)
      (h.indexNames ht) hinsert
  exact ⟨w', hrun', herror, fun t' hr => h.rewrites hpos (hok t' hr)⟩

theorem createIndex_runsOn [UnionMemory] (h : Stored strtof printFloat w database)
    (hfloats : PrintsFloats printFloat) (hpos : database[pos]? = some t)
    {stmt : CreateIndexStmt} {result : Except Error (TableState × Response)}
    (hlookup : lookupStages (lookupNamed (databaseTables strtof).name database) (.createIndex stmt)
      = .ok (t, pos)) (hrun : answerStatement strtof t (.createIndex stmt) = .ok result)
    (hbuilt : ∀ t' response, result = .ok (t', response) → BuiltIndexes t'.schema t'.indexMeta) :
    RunsOn printFloat (pipelineRun strtof unwritten printFloat (.createIndex stmt)) w pos t
      result := by
  have hstages := createIndexStages_eq hlookup
  rw [← h.tables] at hstages
  have hrun : (do return (← runCreateIndex t stmt).map (·, Response.ok)) = Except.ok result := hrun
  unfold runCreateIndex at hrun
  rw [runStages_map] at hrun
  show RunsOn printFloat (printing .ok (runPipeline _ _)) w pos t result
  rw [printing_runPipeline]
  apply runsOn_answerPipeline hstages hrun
  intro indexDef _ hrun
  obtain ⟨r, hcreate, hresult⟩ := Checked.bind_eq_ok.1 hrun
  cases hresult
  apply runsOn_printing
  apply executeCreateIndex_runs h hfloats hpos hcreate
  rintro t' rfl
  exact hbuilt t' .ok rfl

theorem dropIndex_runsOn [UnionMemory] (h : Stored strtof printFloat w database)
    (hfloats : PrintsFloats printFloat) (hpos : database[pos]? = some t)
    {stmt : DropIndexStmt} {result : Except Error (TableState × Response)}
    (hlookup : lookupStages (lookupNamed (databaseTables strtof).name database) (.dropIndex stmt)
      = .ok (t, pos)) (hrun : answerStatement strtof t (.dropIndex stmt) = .ok result) :
    RunsOn printFloat (pipelineRun strtof unwritten printFloat (.dropIndex stmt)) w pos t
      result := by
  have ht := List.mem_of_getElem? hpos
  have hstages := dropIndexStages_eq hlookup
  rw [← h.tables] at hstages
  have hrun : (do return (← runDropIndex t stmt).map (·, Response.ok)) = Except.ok result := hrun
  unfold runDropIndex at hrun
  rw [runStages_map] at hrun
  apply runsOn_answerPipeline hstages hrun
  intro indexPos hplan hrun
  obtain ⟨r, hdrop, hresult⟩ := Checked.bind_eq_ok.1 hrun
  cases hdrop
  cases hresult
  have hindex : ∃ indexDef, t.indexMeta[indexPos]? = some indexDef ∧
      indexDef.name = svToCstr stmt.index (maxIndexNameSize + 1) := by
    obtain ⟨-, -, hplan⟩ := bind_eq_ok.1 hplan
    obtain ⟨-, -, hplan⟩ := bind_eq_ok.1 hplan
    unfold planDropIndex at hplan
    dsimp only at hplan
    split at hplan
    · next found hfound =>
      cases hplan
      obtain ⟨hlt, hname, -⟩ := List.findIdx?_eq_some_iff_getElem.1 hfound
      exact ⟨_, List.getElem?_eq_getElem hlt, beq_iff_eq.1 hname⟩
    · cases hplan
  obtain ⟨indexDef, hget, hname⟩ := hindex
  obtain ⟨w', hrun', hwrites⟩ := executeDropIndex_runs unwritten h hfloats hpos hget
    ((h.sound.built t ht).eraseIdx indexPos)
  rw [hname] at hrun'
  exact ⟨w', printing_runs hrun', follows_ok hwrites⟩

theorem truncate_runsOn [UnionMemory] (h : Stored strtof printFloat w database)
    (hpos : database[pos]? = some t)
    {stmt : TruncateTableStmt} {result : Except Error (TableState × Response)}
    (hlookup : lookupStages (lookupNamed (databaseTables strtof).name database)
      (.truncateTable stmt) = .ok (t, pos))
    (hrun : answerStatement strtof t (.truncate stmt) = .ok result) :
    RunsOn printFloat (pipelineRun strtof unwritten printFloat (.truncateTable stmt)) w pos t
      result := by
  have hstages := truncateTableStages_eq hlookup
  rw [← h.tables] at hstages
  have hrun : (do return (← runTruncateTable t stmt).map (·, Response.ok)) = Except.ok result :=
    hrun
  unfold runTruncateTable at hrun
  rw [runStages_map] at hrun
  show RunsOn printFloat (printing .ok (runPipeline _ _)) w pos t result
  rw [printing_runPipeline]
  apply runsOn_answerPipeline hstages hrun
  intro _ _ hrun
  obtain ⟨r, htruncate, hresult⟩ := Checked.bind_eq_ok.1 hrun
  cases htruncate
  cases hresult
  obtain ⟨w', hrun', hrewrites⟩ := executeTruncateTable_runs h hpos
  exact ⟨w', printing_runs hrun', follows_ok (h.rewrites hpos hrewrites)⟩

theorem delete_runsOn [UnionMemory] (h : Stored strtof printFloat w database)
    (hpos : database[pos]? = some t)
    {stmt : DeleteStmt} (hopens : OpensFilled strtof t (.delete stmt))
    {result : Except Error (TableState × Response)}
    (hlookup : lookupStages (lookupNamed (databaseTables strtof).name database) (.delete stmt)
      = .ok (t, pos)) (hrun : answerStatement strtof t (.delete stmt) = .ok result) :
    RunsOn printFloat (pipelineRun strtof unwritten printFloat (.delete stmt)) w pos t result := by
  have ht := List.mem_of_getElem? hpos
  have hstages := deleteStages_eq hlookup
  rw [← h.tables] at hstages
  apply runsOn_answerPipeline hstages hrun
  intro filter hplan hrun
  obtain ⟨decision, hdecision, hrun⟩ := Checked.bind_eq_ok.1 hrun
  obtain ⟨count, hcount, hrun⟩ := Checked.bind_eq_ok.1 hrun
  obtain ⟨r, hdelete, hresult⟩ := Checked.bind_eq_ok.1 hrun
  cases hresult
  obtain ⟨t', rfl⟩ : ∃ t', r = .ok t' := by
    obtain ⟨rows, -, hdelete⟩ := Checked.bind_eq_ok.1 hdelete
    obtain ⟨indexes, -, hdelete⟩ := Checked.bind_eq_ok.1 hdelete
    split at hdelete
    · cases hdelete
      exact ⟨_, rfl⟩
    · cases hdelete
      exact ⟨_, rfl⟩
  obtain ⟨w', hrun', hrewrites⟩ :=
    executeDelete_runs h.quiet (h.rows t ht) (filled_of_loads hopens ⟨filter, hplan⟩)
      (h.indexNames ht) hcount hdelete
  exact ⟨w', Runs.bind (Runs.lift hdecision w) hrun', follows_ok (h.rewrites hpos hrewrites)⟩

theorem update_runsOn [UnionMemory] (h : Stored strtof printFloat w database)
    (hpos : database[pos]? = some t)
    {stmt : UpdateStmt} (hopens : OpensFilled strtof t (.update stmt))
    {result : Except Error (TableState × Response)}
    (hlookup : lookupStages (lookupNamed (databaseTables strtof).name database) (.update stmt)
      = .ok (t, pos)) (hrun : answerStatement strtof t (.update stmt) = .ok result) :
    RunsOn printFloat (pipelineRun strtof unwritten printFloat (.update stmt)) w pos t result := by
  have ht := List.mem_of_getElem? hpos
  have hstages := updateStages_eq hlookup
  rw [← h.tables] at hstages
  apply runsOn_answerPipeline hstages hrun
  intro plan hplan hrun
  obtain ⟨decision, hdecision, hrun⟩ := Checked.bind_eq_ok.1 hrun
  obtain ⟨count, hcount, hrun⟩ := Checked.bind_eq_ok.1 hrun
  obtain ⟨r, hupdate, hresult⟩ := Checked.bind_eq_ok.1 hrun
  cases hresult
  obtain ⟨w', hrun', herror, hok⟩ :=
    answerUpdate_runs h.quiet (h.rows t ht) (filled_of_loads hopens ⟨plan, hplan⟩)
      (h.indexNames ht) hcount hupdate
  have hanswer := Runs.bind (f := fun decision => answerUpdate (tableMeta t) plan decision)
    (Runs.lift hdecision w) hrun'
  cases r with
  | error e =>
    obtain rfl := herror e rfl
    exact ⟨w', hanswer, follows_error e⟩
  | ok t' => exact ⟨w', hanswer, follows_ok (h.rewrites hpos (hok t' rfl))⟩

theorem select_runsOn [UnionMemory] (h : Stored strtof printFloat w database)
    (hpos : database[pos]? = some t) {stmt : SelectStmt}
    (hopens : OpensFilled strtof t (.select stmt)) {result : Except Error Response}
    (hlookup : lookupStages (lookupNamed (databaseTables strtof).name database) (.select stmt)
      = .ok (t, pos)) (hrun : answerSelect strtof t stmt = .ok result) :
    RunsOn printFloat (pipelineRun strtof unwritten printFloat (.select stmt)) w pos t
      (result.map (t, ·)) := by
  have ht := List.mem_of_getElem? hpos
  have hstages := selectStages_eq hlookup
  rw [← h.tables] at hstages
  have hrun : runStages (do validateSelect stmt; analyzeSelect strtof t stmt) (fun plan => do
      let decision ← planSelect t plan
      let rows ← Maxql.executeSelect t plan decision
      return Except.ok (t, Response.rows plan.queryColumnOrder
        (rows.map fun x => selectedValues plan.queryColumnOrder x.row)))
      = Except.ok (result.map (t, ·)) := by
    unfold answerSelect at hrun
    cases hplan : (do validateSelect stmt; analyzeSelect strtof t stmt) with
    | error e =>
      rw [hplan] at hrun
      cases hrun
      rfl
    | ok plan =>
      rw [hplan] at hrun
      obtain ⟨decision, hdecision, hrun⟩ := Checked.bind_eq_ok.1 hrun
      obtain ⟨rows, hrows, hrun⟩ := Checked.bind_eq_ok.1 hrun
      cases hrun
      exact Checked.bind_eq_ok.2 ⟨decision, hdecision, Checked.bind_eq_ok.2 ⟨rows, hrows, rfl⟩⟩
  apply runsOn_answerPipeline hstages hrun
  intro plan hplan hrun
  obtain ⟨decision, hdecision, hrun⟩ := Checked.bind_eq_ok.1 hrun
  obtain ⟨rows, hrows, hrun⟩ := Checked.bind_eq_ok.1 hrun
  have hfilled : decision ≠ none → Filled t.indexes := by
    intro hsome
    obtain ⟨d, rfl⟩ := Option.ne_none_iff_exists'.1 hsome
    exact hopens ⟨plan, d, hplan, hdecision⟩
  have hselect := executeSelect_runs h.quiet (h.rows t ht) hfilled hrows
  have hresult := Except.ok.inj hrun
  rw [← hresult]
  exact ⟨w, Runs.bind (Runs.lift hdecision w) hselect, follows_ok (h.writes_self hpos)⟩

theorem show_runsOn [UnionMemory] (rows : TableMeta → Checked (List (List Text)))
    (h : Stored strtof printFloat w database) (hpos : database[pos]? = some t)
    {table : Text} {cells : List (List Text)} {names : List Text}
    (hlookup : lookupNamed (databaseTables strtof).name database .executor
      (text "' not found") table = .ok (t, pos)) (hrows : rows (tableMeta t) = .ok cells) :
    RunsOn printFloat (answerPipeline
      (fun tables => lookupTable .executor (text "' not found") tables table) fun entry => do
        let rows ← rows entry.1
        return .ok (.cells names rows)) w pos t (.ok (t, .cells names cells)) := by
  have hfound : lookupTable .executor (text "' not found") w.tables table
      = .ok (tableMeta t, pos) := by
    rw [h.tables, lookupTable_map strtof, hlookup]
    rfl
  exact ⟨w, answerPipeline_ok hfound (Runs.bind (Runs.lift hrows w) (Runs.pure _ _)),
    follows_ok (h.writes_self hpos)⟩

/-- A pipeline whose lookup fails. -/
theorem missing_runs [UnionMemory] (h : Stored strtof printFloat w database) {q : Query} {e : Error}
    (hq : q.namedTable ≠ none)
    (hlookup : lookupStages (lookupNamed (databaseTables strtof).name database) q = .error e) :
    Runs (pipelineRun strtof unwritten printFloat q) w (.error e) w := by
  have hprinted : ∀ {α : Type} {response : Response} {stages : Database → Except Error α}
      {execute : α → Prog World (Except Error Unit)}, stages w.tables = .error e →
      Runs (printing response (runPipeline stages execute)) w (.error e) w :=
    fun hstages => printing_runs (runPipeline_error hstages)
  have hshown : ∀ {table : Text}, lookupNamed (databaseTables strtof).name database .executor
      (text "' not found") table = .error e →
      lookupTable .executor (text "' not found") w.tables table = .error e := by
    intro table hlookup
    rw [h.tables, lookupTable_map strtof, hlookup]
    rfl
  have htables := h.tables
  cases q with
  | createTable | showTables | showIndexTypes | unknown => exact absurd rfl hq
  | showTable stmt | showIndex stmt =>
    refine Runs.bind (Runs.get w) ?_
    beta_reduce
    rw [hshown hlookup]
    exact Runs.pure _ _
  | insert stmt | dropTable stmt | truncateTable stmt | createIndex stmt =>
    apply hprinted
    rw [htables]
    exact stages_missing hlookup
  | select stmt | update stmt | delete stmt | dropIndex stmt =>
    apply answerPipeline_error
    rw [htables]
    exact stages_missing hlookup

/-- A statement on the table that it names. -/
theorem onTable_runsOn [UnionMemory] (h : Stored strtof printFloat w database)
    (hfloats : PrintsFloats printFloat) (hpos : database[pos]? = some t) {q : Query}
    (hopens : OpensFilled strtof t q) {result : Except Error (TableState × Response)} (hq : ∀ stmt, q ≠ .dropTable stmt)
    (hlookup : lookupStages (lookupNamed (databaseTables strtof).name database) q = .ok (t, pos))
    (hrun : (databaseTables strtof).onTable unwritten printFloat t q = .ok result)
    (hbuilt : ∀ t' response, result = .ok (t', response) → BuiltIndexes t'.schema t'.indexMeta) :
    RunsOn printFloat (pipelineRun strtof unwritten printFloat q) w pos t result := by
  cases q with
  | createTable | showTables | showIndexTypes | unknown => cases hlookup
  | dropTable stmt => exact absurd rfl (hq stmt)
  | select stmt =>
    obtain ⟨answer, hanswer, hresult⟩ := Checked.bind_eq_ok.1 hrun
    cases hresult
    exact select_runsOn h hpos hopens hlookup hanswer
  | insert stmt => exact insert_runsOn h hpos hopens hlookup hrun
  | update stmt => exact update_runsOn h hpos hopens hlookup hrun
  | delete stmt => exact delete_runsOn h hpos hopens hlookup hrun
  | truncateTable stmt => exact truncate_runsOn h hpos hlookup hrun
  | createIndex stmt => exact createIndex_runsOn h hfloats hpos hlookup hrun hbuilt
  | dropIndex stmt => exact dropIndex_runsOn h hfloats hpos hlookup hrun
  | showTable stmt =>
    obtain ⟨rows, hrows, hresult⟩ := Checked.bind_eq_ok.1 hrun
    cases hresult
    exact show_runsOn (fun table => showTableRows unwritten printFloat table.schema table.indexMeta)
      h hpos hlookup hrows
  | showIndex stmt =>
    obtain ⟨rows, hrows, hresult⟩ := Checked.bind_eq_ok.1 hrun
    cases hresult
    exact show_runsOn (fun table => showIndexRows table.indexMeta) h hpos hlookup hrows

/-- A pipeline that looks a table up. -/
theorem runOnTable_stored [UnionMemory] (h : Stored strtof printFloat w database)
    (hfloats : PrintsFloats printFloat) {input : Text} {q : Query}
    {answer : Except Error Response} {database' : DatabaseState}
    (hparse : parseInput input = .ok (q, none)) (hnamed : q.namedTable ≠ none)
    (hq : ∀ stmt, q ≠ .dropTable stmt)
    (hopens : NamedMeets (databaseTables strtof) (OpensFilled strtof) database input)
    (hrun : Runs ((databaseTables strtof).runOnTable unwritten printFloat q) database answer
      database') :
    ∃ w', Runs (pipelineRun strtof unwritten printFloat q) w answer w' ∧
      Stored strtof printFloat w' database' := by
  have hK := databaseTables_lawful strtof
  have hsound' := h.sound.runOnTable hK hparse hrun
  have hrest := Runs.rest (Runs.get database) hrun
  cases hlookup : lookupStages (lookupNamed (databaseTables strtof).name database) q with
  | error e =>
    rw [hlookup] at hrest
    cases hrest
    exact ⟨w, missing_runs h hnamed hlookup, h⟩
  | ok entry =>
    obtain ⟨t, pos⟩ := entry
    rw [hlookup] at hrest
    obtain ⟨result, _, hlift, hrest⟩ := hrest.exists_of_bind
    obtain ⟨hresult, rfl⟩ := hlift.eq_of_lift
    have hpos := (lookupStages_eq_ok hlookup).1
    have ht := List.mem_of_getElem? hpos
    have hkept : ∀ t' response, result = .ok (t', response) →
        t'.schema = t.schema ∧ BuiltIndexes t.schema t'.indexMeta := by
      rintro t' response rfl
      exact hK.built hparse (h.sound.built t ht) hresult
    have hruns := onTable_runsOn h hfloats hpos (hopens q t pos hparse hlookup) hq hlookup hresult (by
      intro t' response hr
      obtain ⟨hschema, hbuilt⟩ := hkept t' response hr
      rw [hschema]
      exact hbuilt)
    obtain ⟨w', hdisk, herror, hok⟩ := hruns
    cases result with
    | error e =>
      cases hrest
      obtain rfl := herror e rfl
      exact ⟨w', hdisk, h⟩
    | ok pair =>
      obtain ⟨t', response⟩ := pair
      cases hrest
      exact ⟨w', hdisk, h.writes hpos (hok t' response rfl) (hkept t' response rfl).1 hsound'⟩

end Pipelines

/-! ## Texts -/

/-- The names of the tables after a query. -/
def namesAfterQuery (strtof : Strtof) (names : List Text) : Query → List Text
  | .createTable stmt =>
    match (do validateCreateTable stmt; planCreateTable strtof names stmt) with
    | .error _ => names
    | .ok schema => names ++ [schema.tableName]
  | .dropTable stmt =>
    match lookupStages (lookupNamed id names) (.dropTable stmt) with
    | .error _ => names
    | .ok (_, pos) => names.eraseIdx pos
  | _ => names

/-- A text that changes the names of the tables leaves names that fit in the catalog. -/
def KeepsCatalog (strtof : Strtof) (names : List Text) (input : Text) : Prop :=
  ∀ q, parseInput input = .ok (q, none) → namesAfterQuery strtof names q = names ∨
    CatalogFits (namesAfterQuery strtof names q)

/-- What a text must meet so that it has its answer over the files. -/
def AdmitsFiles [UnionMemory] (strtof : Strtof) (database : DatabaseState) (input : Text) : Prop :=
  KeepsCatalog strtof (tableNames database) input ∧
    NamedMeets (databaseTables strtof) (OpensFilled strtof) database input

theorem createTable_stored [UnionMemory] (h : Stored strtof printFloat w database)
    (hfloats : PrintsFloats printFloat) {input : Text} {stmt : CreateTableStmt}
    {answer : Except Error Response} {database' : DatabaseState}
    (hparse : parseInput input = .ok (.createTable stmt, none))
    (hok : KeepsCatalog strtof (tableNames database) input)
    (hrun : Runs (Maxql.pipelineRun (databaseTables strtof) strtof unwritten printFloat
      (.createTable stmt)) database answer database') :
    ∃ w', Runs (pipelineRun strtof unwritten printFloat (.createTable stmt)) w answer w' ∧
      Stored strtof printFloat w' database' := by
  have hrest := Runs.rest (Runs.get database) hrun
  have hstages : createTableStages strtof stmt w.tables
      = (do validateCreateTable stmt; planCreateTable strtof (tableNames database) stmt) := by
    rw [createTableStages, h.tables, tableMeta_names]
  have hnames : database.map (databaseTables strtof).name = tableNames database := rfl
  rw [hnames] at hrest
  cases hplan : (do
    validateCreateTable stmt
    planCreateTable strtof (tableNames database) stmt) with
  | error e =>
    rw [hplan] at hrest hstages
    cases hrest
    exact ⟨w, printing_runs (runPipeline_error hstages), h⟩
  | ok schema =>
    rw [hplan] at hrest hstages
    cases hrest
    obtain ⟨⟨⟩, hvalidate, hplanned⟩ := bind_eq_ok.1 hplan
    have hsound := h.sound.create (databaseTables_lawful strtof) hparse hvalidate hplanned
    have hafter : namesAfterQuery strtof (tableNames database) (.createTable stmt)
        = tableNames database ++ [schema.tableName] := by
      rw [namesAfterQuery, hplan]
    have hfits : CatalogFits (tableNames database ++ [schema.tableName]) := by
      have hkept := hok _ hparse
      rw [hafter] at hkept
      rcases hkept with hsame | hfits
      · have hlen := congrArg List.length hsame
        simp at hlen
      · exact hfits
    have hlist : tableNames (database ++ [(databaseTables strtof).create schema])
        = tableNames database ++ [schema.tableName] := List.map_append
    rw [← hlist] at hfits
    obtain ⟨w', hcreate, hstored⟩ := executeCreateTable_runs h hfloats rfl hsound hfits unwritten
    exact ⟨w', printing_runs (runPipeline_ok hstages hcreate), hstored⟩

theorem dropTable_stored [UnionMemory] (h : Stored strtof printFloat w database) {input : Text}
    {stmt : DropTableStmt} {answer : Except Error Response} {database' : DatabaseState}
    (hparse : parseInput input = .ok (.dropTable stmt, none))
    (hok : KeepsCatalog strtof (tableNames database) input)
    (hrun : Runs (Maxql.pipelineRun (databaseTables strtof) strtof unwritten printFloat
      (.dropTable stmt)) database answer database') :
    ∃ w', Runs (pipelineRun strtof unwritten printFloat (.dropTable stmt)) w answer w' ∧
      Stored strtof printFloat w' database' := by
  have hrest := Runs.rest (Runs.get database) hrun
  cases hlookup : lookupStages (lookupNamed (databaseTables strtof).name database)
      (.dropTable stmt) with
  | error e =>
    rw [hlookup] at hrest
    cases hrest
    exact ⟨w, missing_runs h nofun hlookup, h⟩
  | ok entry =>
    obtain ⟨t, pos⟩ := entry
    rw [hlookup] at hrest
    cases hrest
    have hpos := (lookupStages_eq_ok hlookup).1
    have hafter : namesAfterQuery strtof (tableNames database) (.dropTable stmt)
        = tableNames (database.eraseIdx pos) := by
      obtain ⟨⟨⟩, hvalidate, hfound⟩ := bind_eq_ok.1 hlookup
      have hnamed : lookupNamed id (tableNames database) .planner (text "' not found") stmt.table
          = .ok (t.schema.tableName, pos) := by
        refine (lookupNamed_map (databaseTables strtof).name id database _ _ _).trans ?_
        exact congrArg (Except.map _) hfound
      have hstages : lookupStages (lookupNamed id (tableNames database)) (.dropTable stmt)
          = .ok (t.schema.tableName, pos) := bind_eq_ok.2 ⟨_, hvalidate, hnamed⟩
      rw [namesAfterQuery, hstages]
      exact List.eraseIdx_map _ _ _
    have hfits : CatalogFits (tableNames (database.eraseIdx pos)) := by
      have hkept := hok _ hparse
      rw [hafter] at hkept
      rcases hkept with hsame | hfits
      · have hlen := congrArg List.length hsame
        obtain ⟨hlt, -⟩ := List.getElem?_eq_some_iff.1 hpos
        simp only [tableNames, List.length_map, List.length_eraseIdx_of_lt hlt] at hlen
        omega
      · exact hfits
    obtain ⟨w', hdrop, hstored⟩ := executeDropTable_runs h hpos hfits unwritten
    have hstages : dropTableStages stmt w.tables = .ok pos := by
      rw [h.tables]
      exact stages_found hlookup
    exact ⟨w', printing_runs (runPipeline_ok hstages hdrop), hstored⟩

/-- Every query has the same answer over the files as over the tables. -/
theorem pipelineRun_stored [UnionMemory] (h : Stored strtof printFloat w database)
    (hfloats : PrintsFloats printFloat) {input : Text} {q : Query}
    {answer : Except Error Response} {database' : DatabaseState}
    (hparse : parseInput input = .ok (q, none)) (hok : AdmitsFiles strtof database input)
    (hrun : Runs (Maxql.pipelineRun (databaseTables strtof) strtof unwritten printFloat q) database
      answer database') :
    ∃ w', Runs (pipelineRun strtof unwritten printFloat q) w answer w' ∧
      Stored strtof printFloat w' database' := by
  cases q with
  | createTable stmt => exact createTable_stored h hfloats hparse hok.1 hrun
  | dropTable stmt => exact dropTable_stored h hparse hok.1 hrun
  | showTables =>
    cases hrun
    refine ⟨w, ?_, h⟩
    have hcells : (w.tables.map fun table => [table.name])
        = database.map fun t => [(databaseTables strtof).name t] := by
      rw [h.tables, List.map_map]
      rfl
    rw [← hcells]
    rfl
  | showIndexTypes | unknown =>
    cases hrun
    exact ⟨w, rfl, h⟩
  | select | insert | update | delete | truncateTable | createIndex | dropIndex | showTable
  | showIndex => exact runOnTable_stored h hfloats hparse nofun nofun hok.2 hrun

end Maxql.Disk
