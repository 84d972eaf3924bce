import Maxql.Disk.Restart
import Maxql.Engine.Trees
import Maxql.View.Terminal

/-!
# What the terminal shows over files

`maxql_execute` of `src/main.c` over the files of a database.  SELECT reads the
rows of a data file, or those that an index file leads to, and prints them; the
other pipelines print their answer.  There are four groups.

* The functions.
* One statement.  The tables with data files and indexes stand between the
  files and the logical tables.  `select_prints` is the text of a SELECT.
* One line.  `execute_shows`: it shows the report of the logical tables.
* Lines that are admitted, and a database of one table, line by line.
-/

/-! ## The functions -/

namespace Maxql.Disk

open Program Bytes Simulation View

section Functions

variable [UnionMemory] (strtof : Strtof) (unwritten : Unwritten) (printFloat : FloatFormat)

/-- `execute_select` over files, with what it prints. -/
def printSelect (table : TableMeta) (plan : SelectExecPlan) (decision : Option IndexDecision) :
    Prog (World × Text) (Except Error Unit) := do
  let source ← onFst (createRowSource table.schema decision)
  let rows ← matchingRows plan.filter source
  onSnd (printResult unwritten printFloat table.schema.columns plan decision (rows.map (·.row)))
  return .ok ()

/-- `pipeline_run` over files, with what the stages print. -/
def pipelinePrint : Query → Prog (World × Text) (Except Error Unit)
  | .select stmt => do
    let (w, _) ← get
    match selectStages strtof stmt w.tables with
    | .error e => return .error e
    | .ok (table, plan) =>
      let decision ← (if plan.ignoreIndex then .ok none
        else selectBestIndex plan.filter table.indexMeta : Checked (Option IndexDecision))
      printSelect unwritten printFloat table plan decision
  | q => printRun unwritten (pipelineRun strtof unwritten printFloat q)

end Functions

end Maxql.Disk

namespace Maxql.View

open Program Bytes Simulation Disk

section Functions

variable [UnionMemory] (strtof : Strtof) (unwritten : Unwritten) (printFloat : FloatFormat)

/-- What a line must meet in a logical database so that its report is shown. -/
structure AdmitsLine (shown : List LogicalTable × Text) (request : Text × TimeDelta) : Prop where
  report : AdmitsReport strtof shown request
  catalog : KeepsCatalog strtof (shown.1.map (logicalTables strtof).name) request.1
  /-- A statement that reads an index file is about a table that has a row. -/
  opens : NamedMeets (logicalTables strtof)
    (fun l q => OpensIndex strtof l.bare q → l.table.rows ≠ []) shown.1 request.1
  /-- The maps in the index files are those of trees. -/
  trees : NamedMeets (logicalTables strtof) LogicalTable.KeepsTrees shown.1 request.1

end Functions

/-! ## One statement -/

section Statement

variable {strtof : Strtof} {unwritten : Unwritten} {printFloat : FloatFormat}
  {w : World} {database database' : DatabaseState}

/-- What is printed for an answer does not depend on the state that gives it. -/
theorem printRun_cases {σ τ : Type} {p : Prog σ (Except Error Response)}
    {p' : Prog τ (Except Error Response)} {s s' : σ} {out out' : Text} {r : Except Error Unit}
    (h : Runs (printRun unwritten p) (s, out) r (s', out')) :
    ∃ answer, Runs p s answer s' ∧ ∀ t t', Runs p' t answer t' →
      Runs (printRun unwritten p') (t, out) r (t', out') := by
  obtain ⟨answer, ⟨s₁, out₁⟩, hfirst, hrest⟩ := h.exists_of_bind
  obtain ⟨hrun, rfl⟩ := hfirst.of_onFst
  cases answer with
  | error e =>
    cases hrest
    refine ⟨.error e, hrun, fun t t' hrun' => Runs.bind (hrun'.onFst _) ?_⟩
    exact Runs.pure _ _
  | ok response =>
    obtain ⟨⟨⟩, ⟨s₂, out₂⟩, hsecond, hpure⟩ := hrest.exists_of_bind
    cases hpure
    obtain ⟨hprint, rfl⟩ := hsecond.of_onSnd
    refine ⟨.ok response, hrun, fun t t' hrun' => Runs.bind (hrun'.onFst out₁) ?_⟩
    exact Runs.bind (hprint.onSnd t') (Runs.pure _ _)

variable [UnionMemory]

theorem runs_pipelinePrint_select {tables : List TableState} {stmt : SelectStmt} {t : TableState}
    {pos : Nat} (hlookup : lookupStages (lookupNamed (databaseTables strtof).name tables)
      (.select stmt) = .ok (t, pos)) {r : Except Error Unit} {out out' : Text}
    (hprint : Runs (View.printSelect unwritten printFloat strtof t stmt) out r out') :
    Runs (pipelinePrint strtof unwritten printFloat (.select stmt)) (tables, out) r
      (tables, out') := by
  refine Runs.bind (Runs.get _) ?_
  dsimp only
  rw [hlookup]
  exact hprint.onSnd tables

/-- A SELECT prints over the files what it prints over the tables. -/
theorem printSelect_stored (h : Stored strtof printFloat w database) {stmt : SelectStmt}
    (hopens : ∀ t pos, lookupStages (lookupNamed (databaseTables strtof).name database)
      (.select stmt) = .ok (t, pos) → OpensFilled strtof t (.select stmt))
    {out out' : Text} {r : Except Error Unit}
    (hrun : Runs (pipelinePrint strtof unwritten printFloat (.select stmt)) (database, out) r
      (database', out')) :
    Runs (Disk.pipelinePrint strtof unwritten printFloat (.select stmt)) (w, out) r (w, out') ∧
      database' = database := by
  have hrest := Runs.rest (Runs.get (database, out)) hrun
  dsimp only at hrest
  cases hlookup : lookupStages (lookupNamed (databaseTables strtof).name database)
      (.select stmt) with
  | error e =>
    rw [hlookup] at hrest
    cases hrest
    have hstages : selectStages strtof stmt w.tables = .error e := by
      rw [h.tables]
      exact stages_missing hlookup
    refine ⟨Runs.bind (Runs.get (w, out)) ?_, rfl⟩
    dsimp only
    rw [hstages]
    exact Runs.pure _ _
  | ok entry =>
    obtain ⟨t, pos⟩ := entry
    rw [hlookup] at hrest
    obtain ⟨hprint, hsame⟩ := hrest.of_onSnd
    refine ⟨Runs.bind (Runs.get (w, out)) ?_, hsame⟩
    dsimp only
    have ht := List.mem_of_getElem? (lookupStages_eq_ok hlookup).1
    have hstages := selectStages_eq hlookup
    rw [← h.tables] at hstages
    rw [hstages]
    unfold printSelect at hprint
    cases hplan : (do validateSelect stmt; analyzeSelect strtof t stmt) with
    | error e =>
      rw [hplan] at hprint
      cases hprint
      exact Runs.pure _ _
    | ok plan =>
      rw [hplan] at hprint
      obtain ⟨decision, _, hplanned, hprint⟩ := hprint.exists_of_bind
      obtain ⟨hdecision, rfl⟩ := hplanned.eq_of_lift
      obtain ⟨stored, _, hselected, hprint⟩ := hprint.exists_of_bind
      obtain ⟨hselect, rfl⟩ := hselected.eq_of_lift
      obtain ⟨source, hsource, hmatch⟩ := Checked.bind_eq_ok.1 hselect
      obtain ⟨⟨⟩, _, hprint, hpure⟩ := hprint.exists_of_bind
      cases hpure
      have hfilled : decision ≠ none → Filled t.indexes := by
        intro hsome
        obtain ⟨d, rfl⟩ := Option.ne_none_iff_exists'.1 hsome
        exact hopens t pos hlookup ⟨plan, d, hplan, hdecision⟩
      have hread := createRowSource_runs h.quiet (h.rows t ht) hfilled hsource
      exact Runs.bind (Runs.lift hdecision _) (Runs.bind (hread.onFst _)
        (Runs.bind (Runs.lift hmatch _) (Runs.bind (hprint.onSnd w) (Runs.pure _ _))))

/-- A pipeline prints over the files what it prints over the tables. -/
theorem pipelinePrint_stored (h : Stored strtof printFloat w database)
    (hfloats : PrintsFloats printFloat) {input : Text} {q : Query}
    (hparse : parseInput input = .ok (q, none)) (hok : AdmitsFiles strtof database input)
    {out out' : Text} {r : Except Error Unit}
    (hrun : Runs (pipelinePrint strtof unwritten printFloat q) (database, out) r
      (database', out')) :
    ∃ w', Runs (Disk.pipelinePrint strtof unwritten printFloat q) (w, out) r (w', out') ∧
      Stored strtof printFloat w' database' := by
  cases q with
  | select stmt =>
    obtain ⟨hprint, rfl⟩ := printSelect_stored h
      (fun t pos hlookup => hok.2 _ t pos hparse hlookup) hrun
    exact ⟨w, hprint, h⟩
  | insert | update | delete | truncateTable | createIndex | dropIndex | createTable | dropTable
  | showTables | showTable | showIndex | showIndexTypes | unknown =>
    obtain ⟨answer, hanswer, hprint⟩ := printRun_cases hrun
    obtain ⟨w', hdisk, hstored⟩ := pipelineRun_stored h hfloats hparse hok hanswer
    exact ⟨w', hprint w w' hdisk, hstored⟩

/-- A line shows over the files what it shows over the tables. -/
theorem maxqlExecute_stored (hfloats : PrintsFloats printFloat) :
    Simulates (fun (c : World × Text) (m : DatabaseState × Text) =>
        Stored strtof printFloat c.1 m.1 ∧ c.2 = m.2)
      (fun m request => AdmitsFiles strtof m.1 request.1)
      (maxqlExecute (Disk.pipelinePrint strtof unwritten printFloat))
      (maxqlExecute (pipelinePrint strtof unwritten printFloat)) := by
  rintro ⟨w, out⟩ ⟨database, _⟩ request ⟨⟩ ⟨database', out'⟩ ⟨h, rfl⟩ hok hrun
  obtain ⟨r, ⟨database₁, out₁⟩, hengine, hrest⟩ := hrun.exists_of_bind
  suffices hfirst : ∃ w', Runs (engineRun (Disk.pipelinePrint strtof unwritten printFloat)
      request.1) (w, out) r (w', out₁) ∧ Stored strtof printFloat w' database₁ by
    obtain ⟨w', hdisk, hstored⟩ := hfirst
    cases r with
    | error e =>
      obtain ⟨hprint, hsame⟩ := hrest.of_onSnd
      obtain rfl : database' = database₁ := hsame
      exact ⟨(w', out'), Runs.bind hdisk (hprint.onSnd w'), hstored, rfl⟩
    | ok =>
      obtain ⟨hprint, hsame⟩ := hrest.of_onSnd
      obtain rfl : database' = database₁ := hsame
      exact ⟨(w', out'), Runs.bind hdisk (hprint.onSnd w'), hstored, rfl⟩
  obtain ⟨⟨q, error⟩, _, hlift, hpipeline⟩ := hengine.exists_of_bind
  obtain ⟨hparse, rfl⟩ := hlift.eq_of_lift
  cases error with
  | some e =>
    cases hpipeline
    exact ⟨w, Runs.bind (Runs.lift hparse _) (Runs.pure _ _), h⟩
  | none =>
    obtain ⟨w', hdisk, hstored⟩ := pipelinePrint_stored h hfloats hparse hok hpipeline
    exact ⟨w', Runs.bind (Runs.lift hparse _) hdisk, hstored⟩

/-- The key of a row is in every index of a table. -/
theorem filled_of_rows {t : TableState} {l : LogicalTable} (hrep : Represents t l)
    (hrows : l.table.rows ≠ []) : Filled t.indexes := by
  intro entry hentry hempty
  obtain ⟨rows, live, -, ht, -, hlive⟩ := hrep.rows
  obtain ⟨row, hrow⟩ := List.exists_mem_of_ne_nil _ hrows
  rw [← hlive] at hrow
  obtain ⟨x, hx, -⟩ := List.mem_map.1 hrow
  have hfound := (ht.lookup hentry).2 ⟨x, hx, rfl, rfl⟩
  rw [hempty] at hfound
  cases hfound

/-- What a statement reads is seen without the rows. -/
theorem opensIndex_bare {t : TableState} {l : LogicalTable} (hrep : Represents t l) (q : Query) :
    OpensIndex strtof l.bare q ↔ OpensIndex strtof t q := by
  have hmeta : l.bare.indexMeta = t.indexMeta := by
    rw [LogicalTable.bare_indexMeta, hrep.indexes]
  cases q with
  | insert stmt =>
    show (∃ values, (do validateInsert stmt; analyzeInsert strtof l.bare stmt) = .ok values) ∧ _ ↔ _
    rw [analyzeInsert_bare strtof hrep.schema, hmeta]
    exact Iff.rfl
  | update stmt =>
    show (∃ plan, (do validateUpdate stmt; analyzeUpdate strtof l.bare stmt) = .ok plan) ∧ _ ↔ _
    rw [analyzeUpdate_bare hrep.schema, hmeta]
    exact Iff.rfl
  | delete stmt =>
    show (∃ filter, (do validateDelete stmt; analyzeDelete strtof l.bare stmt) = .ok filter) ∧ _ ↔ _
    rw [analyzeDelete_bare hrep.schema, hmeta]
    exact Iff.rfl
  | select stmt =>
    have hplan : ∀ plan, planSelect l.bare plan = planSelect t plan := by
      intro plan
      rw [planSelect, planSelect, hmeta]
    show (∃ plan decision, (do validateSelect stmt; analyzeSelect strtof l.bare stmt) = .ok plan ∧
      planSelect l.bare plan = .ok (some decision)) ↔ _
    simp only [analyzeSelect_bare hrep.schema, hplan]
    exact Iff.rfl
  | createTable | dropTable | truncateTable | createIndex | dropIndex | showTables | showTable
  | showIndex | showIndexTypes | unknown => exact Iff.rfl

/-- The files hold tables that stand for the logical ones. -/
def Holds (strtof : Strtof) (printFloat : FloatFormat) (w : World) (ls : List LogicalTable) :
    Prop :=
  ∃ database, Stored strtof printFloat w database ∧ List.Forall₂ Represents database ls

/-- A SELECT prints the rows of the logical table that pass, in lines of one width, whether it
reads them from the data file or with the help of an index file; all cells are whole as long as
no selected `binary` column has more than 126 bytes. -/
theorem select_prints (strtof : Strtof) (unwritten : Unwritten) (printFloat : FloatFormat)
    (hfloats : PrintsFloats printFloat) {ls : List LogicalTable}
    (h : Holds strtof printFloat w ls) (hsound : SoundTables (logicalTables strtof) ls)
    {stmt : SelectStmt} {l : LogicalTable} {pos : Nat}
    (hlookup : lookupStages (lookupNamed (logicalTables strtof).name ls) (.select stmt)
      = .ok (l, pos))
    (hexact : l.ComparesExactly strtof stmt.conditions)
    (hopens : OpensIndex strtof l.bare (.select stmt) → l.table.rows ≠ []) (out : Text) :
    (∀ e, l.select strtof stmt = .error e →
      Runs (Disk.pipelinePrint strtof unwritten printFloat (.select stmt)) (w, out) (.error e)
        (w, out)) ∧
    ∀ order rows, l.select strtof stmt = .ok (.rows order rows) →
      BinariesFit l.schema.columns order →
        Runs (Disk.pipelinePrint strtof unwritten printFloat (.select stmt)) (w, out) (.ok ())
          (w, out ++ selectText strtof printFloat l stmt order rows) ∧
        Aligned (shownSelect strtof l stmt order (selectCells printFloat rows))
          (selectCells printFloat rows) := by
  obtain ⟨database, hstored, hR⟩ := h
  rcases (databaseTables_simulates strtof).lookup hR (.select stmt) with
    ⟨e, -, herror⟩ | ⟨t, l', pos', hrep, hfound, hlogical⟩
  · cases hlookup.symm.trans herror
  · cases hlookup.symm.trans hlogical
    have hplanned := hsound.planned l (List.mem_of_getElem? (lookupStages_eq_ok hlookup).1)
    have hfilled : ∀ t' pos', lookupStages (lookupNamed (databaseTables strtof).name database)
        (.select stmt) = .ok (t', pos') → OpensFilled strtof t' (.select stmt) := by
      intro t' pos' hfound' hreads
      cases hfound.symm.trans hfound'
      exact filled_of_rows hrep (hopens ((opensIndex_bare hrep _).2 hreads))
    constructor
    · intro e herror
      have hprint : Runs (View.printSelect unwritten printFloat strtof t stmt) out (.error e) out :=
        runs_printSelect_error hrep herror out
      exact (printSelect_stored hstored hfilled (runs_pipelinePrint_select hfound hprint)).1
    · intro order rows hrows hbinary
      have hprint : Runs (View.printSelect unwritten printFloat strtof t stmt) out (.ok ())
          (out ++ selectText strtof printFloat l stmt order rows) :=
        runs_printSelect hrep hplanned hfloats hexact hrows hbinary out
      exact ⟨(printSelect_stored hstored hfilled (runs_pipelinePrint_select hfound hprint)).1,
        aligned_shownSelect hrep hplanned hfloats hexact hrows hbinary⟩

end Statement

/-! ## One line -/

section Line

variable [UnionMemory] {strtof : Strtof} {unwritten : Unwritten} {printFloat : FloatFormat}
  {database : DatabaseState}

/-- The files hold the logical tables, and the same has been printed. -/
structure Shows (strtof : Strtof) (printFloat : FloatFormat) (c : World × Text)
    (b : List LogicalTable × Text) : Prop where
  holds : Holds strtof printFloat c.1 b.1
  sound : SoundTables (logicalTables strtof) b.1
  shown : c.2 = b.2

/-- What a logical database admits can be run over files that hold it. -/
theorem AdmitsLine.files {b : List LogicalTable × Text} {request : Text × TimeDelta}
    (h : AdmitsLine strtof b request) (hR : List.Forall₂ Represents database b.1) :
    AdmitsFiles strtof database request.1 := by
  constructor
  · have hnames := (databaseTables_simulates strtof).names hR
    have hcatalog := h.catalog
    rw [← hnames] at hcatalog
    exact hcatalog
  · intro q t pos hparse hlookup hopens
    rcases (databaseTables_simulates strtof).lookup hR q with
      ⟨e, herror, -⟩ | ⟨t', l, pos', hrep, hfound, hlogical⟩
    · cases hlookup.symm.trans herror
    · cases hlookup.symm.trans hfound
      apply filled_of_rows hrep
      exact h.opens q l pos hparse hlogical ((opensIndex_bare hrep q).2 hopens)

/-- A line shows the report of the logical tables. -/
theorem execute_shows (hfloats : PrintsFloats printFloat) :
    Simulates (Shows strtof printFloat) (AdmitsLine strtof)
      (maxqlExecute (Disk.pipelinePrint strtof unwritten printFloat))
      (logicalExecute strtof unwritten printFloat) := by
  -- the tables with data files and indexes stand between the files and the logical tables
  have hhigh : Simulates (fun (m : DatabaseState × Text) (b : List LogicalTable × Text) =>
      List.Forall₂ Represents m.1 b.1 ∧ SoundTables (logicalTables strtof) b.1 ∧ m.2 = b.2)
      (AdmitsLine strtof) (maxqlExecute (pipelinePrint strtof unwritten printFloat))
      (logicalExecute strtof unwritten printFloat) := by
    intro m b request u b' hrelated hok hrun
    exact maxqlExecute_simulates unwritten hfloats hrelated hok.report hrun
  have hboth := Simulates.comp (maxqlExecute_stored hfloats) hhigh
    fun m b request hrelated hok => hok.files hrelated.1
  rintro ⟨w, out⟩ ⟨ls, _⟩ request u b' ⟨⟨database, hstored, hR⟩, hsound, rfl⟩ hok hrun
  obtain ⟨c', hdisk, m', ⟨hstored', hshown⟩, hR', hsound', hshown'⟩ :=
    hboth ⟨(database, out), ⟨hstored, rfl⟩, hR, hsound, rfl⟩ hok hrun
  exact ⟨c', hdisk, ⟨m'.1, hstored', hR'⟩, hsound', hshown.trans hshown'⟩

theorem exists_runs_requests (hfloats : PrintsFloats printFloat)
    {requests : List (Text × TimeDelta)} {b : List LogicalTable × Text}
    (hsound : SoundTables (logicalTables strtof) b.1)
    (hmeets : Meets (AdmitsLine strtof) (logicalExecute strtof unwritten printFloat) b requests) :
    ∃ steps b', Runs (script (logicalExecute strtof unwritten printFloat) requests) b steps b' :=
  exists_runs_script (I := fun b => SoundTables (logicalTables strtof) b.1)
    (fun _ _ _ _ hsound hrun => sound_of_logicalExecute hsound hrun)
    (fun _ _ hsound hok => exists_logicalExecute hfloats hsound hok.report) hsound hmeets

theorem sound_of_requests {requests : List (Text × TimeDelta)} {steps : List Unit}
    {b b' : List LogicalTable × Text} (hsound : SoundTables (logicalTables strtof) b.1)
    (hrun : Runs (script (logicalExecute strtof unwritten printFloat) requests) b steps b') :
    SoundTables (logicalTables strtof) b'.1 :=
  script_invariant (I := fun b => SoundTables (logicalTables strtof) b.1)
    (fun _ _ _ _ hsound hrun => sound_of_logicalExecute hsound hrun) hsound hrun

/-- The directory of a new database: an empty catalog. -/
def freshWorld : World where
  tables := []
  files := fun
    | .catalog => some ([] : List UInt8)
    | .schema _ => none
    | .data _ => none
    | .index _ _ => none
  failsIn := none

theorem freshWorld_holds : Holds strtof printFloat freshWorld [] :=
  ⟨[], ⟨rfl, rfl, SoundTables.nil _, nofun, nofun, fun _ _ => rfl, rfl, nofun⟩, .nil⟩

end Line

/-! ## Lines that are admitted -/

section Admitted

variable {strtof : Strtof} {unwritten : Unwritten} {printFloat : FloatFormat}

theorem keepsCatalog_of_parse {names : List Text} {input : Text} {q : Query}
    (hparse : parseInput input = .ok (q, none))
    (h : namesAfterQuery strtof names q = names ∨ CatalogFits (namesAfterQuery strtof names q)) :
    KeepsCatalog strtof names input := by
  intro q' hparse'
  cases hparse.symm.trans hparse'
  exact h

variable [UnionMemory]

/-- A line about tables without `binary` columns. -/
theorem admitsLine_of_parse {ls : List LogicalTable} {request : Text × TimeDelta} {q : Query}
    (hparse : parseInput request.1 = .ok (q, none)) (hadmits : ∀ l ∈ ls, l.AdmitsQuery strtof q)
    (hbinary : ∀ l ∈ ls, ∀ column ∈ l.schema.columns, column.resolvedType.columnType ≠ .binary)
    (hcatalog : namesAfterQuery strtof (ls.map (logicalTables strtof).name) q
        = ls.map (logicalTables strtof).name ∨
      CatalogFits (namesAfterQuery strtof (ls.map (logicalTables strtof).name) q))
    (hopens : ∀ l ∈ ls, OpensIndex strtof l.bare q → l.table.rows ≠ [])
    (htrees : ∀ l ∈ ls, l.KeepsTrees q) (out : Text) : AdmitsLine strtof (ls, out) request where
  report := by
    refine ⟨admitsInput_of_parse hparse hadmits, ?_⟩
    intro l stmt order rows hselected _ i _ column hcolumn hbinaryType
    have hl : l ∈ ls := by
      rw [selected, hparse] at hselected
      split at hselected
      · split at hselected
        · next hlookup =>
          cases hselected
          exact List.mem_of_getElem? (lookupStages_eq_ok hlookup).1
        · cases hselected
      · cases hselected
    exact absurd hbinaryType (hbinary l hl column (List.mem_of_getElem? hcolumn))
  catalog := keepsCatalog_of_parse hparse hcatalog
  opens := by
    intro q' l pos hparse' hlookup
    cases hparse.symm.trans hparse'
    exact hopens l (List.mem_of_getElem? (lookupStages_eq_ok hlookup).1)
  trees := by
    intro q' l pos hparse' hlookup
    cases hparse.symm.trans hparse'
    exact htrees l (List.mem_of_getElem? (lookupStages_eq_ok hlookup).1)

/-- The lines after a line that is answered. -/
theorem meets_lines {request : Text × TimeDelta} {requests : List (Text × TimeDelta)}
    {ls ls' : List LogicalTable} {answer : Except Error Response}
    (hok : ∀ out, AdmitsLine strtof (ls, out) request)
    (hrun : Runs (engineRun (pipelineRun (logicalTables strtof) strtof unwritten printFloat)
      request.1) ls answer ls')
    (hrest : ∀ out, Meets (AdmitsLine strtof) (logicalExecute strtof unwritten printFloat)
      (ls', out) requests) (out : Text) :
    Meets (AdmitsLine strtof) (logicalExecute strtof unwritten printFloat) (ls, out)
      (request :: requests) := by
  refine ⟨hok out, fun u b hstep => ?_⟩
  obtain ⟨answer', ls₁, hrun', rfl⟩ := runs_logicalExecute_iff.1 hstep
  obtain ⟨-, rfl⟩ := hrun.unique hrun'
  exact hrest _

/-- What is left of a script after a line that is answered. -/
theorem exists_rest_of_lines {request : Text × TimeDelta} {requests : List (Text × TimeDelta)}
    {ls ls' : List LogicalTable} {out : Text} {answer : Except Error Response} {steps : List Unit}
    {b : List LogicalTable × Text}
    (hscript : Runs (script (logicalExecute strtof unwritten printFloat) (request :: requests))
      (ls, out) steps b)
    (hrun : Runs (engineRun (pipelineRun (logicalTables strtof) strtof unwritten printFloat)
      request.1) ls answer ls') :
    ∃ steps' out', Runs (script (logicalExecute strtof unwritten printFloat) requests) (ls', out')
      steps' b := by
  obtain ⟨u, b₁, rest, hstep, hrest, -⟩ := runs_script_cons hscript
  obtain ⟨answer', ls₁, hrun', rfl⟩ := runs_logicalExecute_iff.1 hstep
  obtain ⟨-, rfl⟩ := hrun.unique hrun'
  exact ⟨rest, _, hrest⟩

/-- A SELECT has an answer and changes nothing. -/
theorem exists_answer_of_select {input : Text} {stmt : SelectStmt}
    (hparse : parseInput input = .ok (.select stmt, none)) (ls : List LogicalTable) :
    ∃ answer, Runs (engineRun (pipelineRun (logicalTables strtof) strtof unwritten printFloat) input)
      ls answer ls := by
  suffices h : ∃ answer,
      Runs ((logicalTables strtof).runOnTable unwritten printFloat (.select stmt)) ls answer ls by
    obtain ⟨answer, hrun⟩ := h
    exact ⟨answer, Runs.bind (Runs.lift hparse ls) hrun⟩
  cases hlookup : lookupStages (lookupNamed (logicalTables strtof).name ls) (.select stmt) with
  | error e =>
    refine ⟨.error e, Runs.bind (Runs.get ls) ?_⟩
    rw [hlookup]
    exact Runs.pure _ _
  | ok entry =>
    obtain ⟨l, pos⟩ := entry
    have hresult : (logicalTables strtof).onTable unwritten printFloat l (.select stmt)
        = .ok ((l.select strtof stmt).map (l, ·)) := rfl
    cases hselect : l.select strtof stmt with
    | error e =>
      rw [hselect] at hresult
      refine ⟨.error e, Runs.bind (Runs.get ls) ?_⟩
      rw [hlookup]
      exact Runs.bind (Runs.lift hresult ls) (Runs.pure _ _)
    | ok response =>
      rw [hselect] at hresult
      have hset : ls.set pos l = ls := by
        obtain ⟨hlt, rfl⟩ := List.getElem?_eq_some_iff.1 (lookupStages_eq_ok hlookup).1
        exact List.set_getElem_self hlt
      refine ⟨.ok response, Runs.bind (Runs.get ls) ?_⟩
      rw [hlookup]
      refine Runs.bind (Runs.lift hresult ls) ?_
      show Runs (do set (ls.set pos l); return Except.ok response) ls (Except.ok response) ls
      rw [hset]
      rfl

end Admitted

/-! ## A table, line by line -/

open ClearedMemory

/-- Half a second. -/
def halfSecond : TimeDelta where
  start := ⟨3, 700000000, by decide⟩
  stop := ⟨4, 200000000, by decide⟩
  le := by decide

/-- A table is made, gets a row, then an index, and then another row. -/
def nameLines : List (Text × TimeDelta) :=
  [(text "create table t (c char(2))", halfSecond),
    (text "insert into t set c = \"a\"", halfSecond),
    (text "create unique index i on t (c)", halfSecond),
    (text "insert into t set c = \"b\"", halfSecond)]

/-- The logical engine where numbers cannot be read. -/
def logicalNames : Text → Prog (List LogicalTable) (Except Error Response) :=
  engineRun (pipelineRun (logicalTables noNumber) noNumber zeroed halfFormat)

/-- `select * from t where c = name` -/
def selectName (name : Text) : SelectStmt :=
  ⟨[], text "t", false, [⟨text "c", .equals, ⟨.string, name⟩⟩]⟩

/-- The tables after the lines: with a row, with the index, and with another row; after the last
one the first row is gone. -/
structure NameTables (l₁ l₂ l₃ l₄ : LogicalTable) : Prop where
  create : Runs (logicalNames (text "create table t (c char(2))")) [] (.ok .ok)
    [LogicalTable.create names]
  first : Runs (logicalNames (text "insert into t set c = \"a\"")) [LogicalTable.create names]
    (.ok (.affectedRows 1)) [l₁]
  index : Runs (logicalNames (text "create unique index i on t (c)")) [l₁] (.ok .ok) [l₂]
  second : Runs (logicalNames (text "insert into t set c = \"b\"")) [l₂] (.ok (.affectedRows 1))
    [l₃]
  delete : Runs (logicalNames (text "delete from t where c = \"a\"")) [l₃]
    (.ok (.affectedRows 1)) [l₄]
  schema₁ : l₁.schema = names
  schema₂ : l₂.schema = names
  schema₃ : l₃.schema = names
  schema₄ : l₄.schema = names
  indexes₁ : l₁.table.indexes = []
  indexes₂ : l₂.table.indexes = [nameIndex]
  indexes₃ : l₃.table.indexes = [nameIndex]
  rows₂ : l₂.table.rows = [[nameValue (text "a")]]
  rows₃ : l₃.table.rows = [[nameValue (text "a")], [nameValue (text "b")]]
  rows₄ : l₄.table.rows = [[nameValue (text "b")]]

theorem exists_nameTables : ∃ l₁ l₂ l₃ l₄, NameTables l₁ l₂ l₃ l₄ :=
  ⟨_, _, _, _, rfl, rfl, rfl, rfl, rfl, rfl, rfl, rfl, rfl, rfl, rfl, rfl, rfl, rfl, rfl⟩

theorem admitsQuery_insertName {l : LogicalTable} {name : Text} (hschema : l.schema = names)
    (hindexes : ∀ d ∈ l.table.indexes, d = nameIndex)
    (hname : (VarcharValue.copy name).trim = VarcharValue.copy name)
    (hplan : (do
      validateInsert ⟨text "t", [setName name]⟩
      analyzeInsert noNumber (namesFile []) ⟨text "t", [setName name]⟩) = .ok [nameValue name]) :
    l.AdmitsQuery noNumber (insertName name).toQuery := by
  rintro s hs
  cases s <;> cases hs
  have hhanded : l.handsOver noNumber (.insert ⟨text "t", [setName name]⟩) = [[nameValue name]] := by
    apply LogicalTable.handsOver_insert
    rw [analyzeInsert_bare noNumber (t := namesFile []) hschema.symm]
    exact hplan
  refine ⟨comparesExactly_of_strings nofun, nofun, ?_, ?_⟩
  · intro values hvalues d hd
    rw [hhanded] at hvalues
    obtain rfl := List.mem_singleton.1 hvalues
    rw [hschema, hindexes d hd]
    exact @blanksBehind_names [] indexCreate name hname nameIndex List.mem_cons_self
  · intro d _
    rw [hhanded]
    exact List.pairwise_singleton _ _

/-- A statement that hands no row over. -/
theorem admitsQuery_of_strings {l : LogicalTable} {s : Statement}
    (hconditions : ∀ c ∈ s.conditions, c.value.type = .string)
    (hother : ∀ stmt, s ≠ .update stmt) (hhanded : l.handsOver noNumber s = []) :
    l.AdmitsQuery noNumber s.toQuery := by
  suffices hadmits : l.Admits noNumber s by
    cases s <;> (rintro s' hs'; cases s' <;> cases hs'; exact hadmits)
  refine ⟨comparesExactly_of_strings hconditions, fun stmt _ hs => absurd hs (hother stmt), ?_,
    fun d _ => ?_⟩
  · intro values hvalues
    rw [hhanded] at hvalues
    cases hvalues
  · rw [hhanded]
    exact .nil

/-- A line about the one table. -/
theorem admitsLine_names {l : LogicalTable} (hschema : l.schema = names) {input : Text} {q : Query}
    (hparse : parseInput input = .ok (q, none)) (hadmits : l.AdmitsQuery noNumber q)
    (hnames : namesAfterQuery noNumber [text "t"] q = [text "t"])
    (hopens : OpensIndex noNumber l.bare q → l.table.rows ≠ []) (htrees : l.KeepsTrees q)
    (out : Text) : AdmitsLine noNumber ([l], out) (input, halfSecond) := by
  have hname : [l].map (logicalTables noNumber).name = [text "t"] := by
    show [l.schema.tableName] = _
    rw [hschema]
    rfl
  refine admitsLine_of_parse hparse (List.forall_mem_singleton.2 hadmits)
    (List.forall_mem_singleton.2 ?_) (.inl ?_) (List.forall_mem_singleton.2 hopens)
    (List.forall_mem_singleton.2 htrees) out
  · rw [hschema]
    exact List.forall_mem_singleton.2 nofun
  · rw [hname]
    exact hnames

theorem admitsLine_selectNames {l : LogicalTable} (hschema : l.schema = names)
    (hrows : l.table.rows ≠ []) {input : Text} (conditions : List Condition)
    (hparse : parseInput input = .ok (.select ⟨[], text "t", false, conditions⟩, none))
    (hstrings : ∀ c ∈ conditions, c.value.type = .string) (out : Text) :
    AdmitsLine noNumber ([l], out) (input, halfSecond) :=
  admitsLine_names hschema hparse (comparesExactly_of_strings hstrings) rfl (fun _ => hrows) trivial out

theorem admitsLine_createNames (out : Text) :
    AdmitsLine noNumber ([], out) (text "create table t (c char(2))", halfSecond) :=
  admitsLine_of_parse (q := .createTable { table := text "t", columnDefs := [⟨text "c",
    ⟨text "char", text "2", true⟩, false, noValue⟩] }) rfl (List.forall_mem_nil _)
    (List.forall_mem_nil _)
    (.inr (⟨by decide, by decide, by decide⟩ : CatalogFits [text "t"])) (List.forall_mem_nil _)
    (List.forall_mem_nil _) out

theorem admitsLine_firstName (out : Text) : AdmitsLine noNumber ([LogicalTable.create names], out)
    (text "insert into t set c = \"a\"", halfSecond) :=
  admitsLine_names rfl (q := (insertName (text "a")).toQuery) rfl
    (admitsQuery_insertName (l := LogicalTable.create names) rfl nofun (by decide) rfl) rfl
    (fun hopens => absurd (LogicalTable.bare_indexMeta _) hopens.2) trivial out

namespace NameTables

variable {l₁ l₂ l₃ l₄ : LogicalTable}

variable (h : NameTables l₁ l₂ l₃ l₄)

include h

theorem keepsTrees_index : l₁.KeepsTrees (.createIndex createNameIndex) := by
  have hplan : planCreateIndex names [] createNameIndex = .ok nameIndex := rfl
  intro indexDef hindexDef
  rw [h.schema₁, h.indexes₁, hplan] at hindexDef
  cases hindexDef
  exact ⟨List.forall_mem_singleton.2 nofun, nofun, trivial⟩

theorem admitsLine_index (out : Text) :
    AdmitsLine noNumber ([l₁], out) (text "create unique index i on t (c)", halfSecond) :=
  admitsLine_names h.schema₁ (q := (Statement.createIndex createNameIndex).toQuery) rfl
    (admitsQuery_of_strings nofun nofun rfl) rfl nofun h.keepsTrees_index out

theorem admitsLine_second (out : Text) :
    AdmitsLine noNumber ([l₂], out) (text "insert into t set c = \"b\"", halfSecond) := by
  have hindexes : ∀ d ∈ l₂.table.indexes, d = nameIndex := by
    rw [h.indexes₂]
    exact List.forall_mem_singleton.2 rfl
  have hrows : l₂.table.rows ≠ [] := by
    rw [h.rows₂]
    exact List.cons_ne_nil _ _
  exact admitsLine_names h.schema₂ (q := (insertName (text "b")).toQuery) rfl
    (admitsQuery_insertName h.schema₂ hindexes (by decide) rfl) rfl (fun _ => hrows) trivial
    out

theorem rows₃_ne_nil : l₃.table.rows ≠ [] := by
  rw [h.rows₃]
  exact List.cons_ne_nil _ _

theorem keepsTrees_delete (stmt : DeleteStmt) : l₃.KeepsTrees (.delete stmt) := by
  intro indexDef hindexDef
  rw [h.indexes₃] at hindexDef
  rw [h.rows₃, List.mem_singleton.1 hindexDef]
  decide

theorem admitsLine_delete (out : Text) :
    AdmitsLine noNumber ([l₃], out) (text "delete from t where c = \"a\"", halfSecond) :=
  admitsLine_names h.schema₃
    (q := (Statement.delete ⟨text "t", (selectName (text "a")).conditions⟩).toQuery) rfl
    (admitsQuery_of_strings (List.forall_mem_singleton.2 rfl) nofun rfl) rfl
    (fun _ => h.rows₃_ne_nil) (h.keepsTrees_delete _) out

/-- The lines are admitted. -/
theorem meets : ∀ out, Meets (AdmitsLine noNumber) (logicalExecute noNumber zeroed halfFormat)
    ([], out) nameLines := by
  unfold nameLines
  exact meets_lines admitsLine_createNames h.create (meets_lines admitsLine_firstName h.first
    (meets_lines h.admitsLine_index h.index (meets_lines h.admitsLine_second h.second
      fun _ => trivial)))

/-- The table that they leave. -/
theorem eq_of_script {steps : List Unit} {b : List LogicalTable × Text}
    (hscript : Runs (script (logicalExecute noNumber zeroed halfFormat) nameLines) ([], []) steps
      b) : b.1 = [l₃] := by
  obtain ⟨_, _, hscript⟩ := exists_rest_of_lines hscript h.create
  obtain ⟨_, _, hscript⟩ := exists_rest_of_lines hscript h.first
  obtain ⟨_, _, hscript⟩ := exists_rest_of_lines hscript h.index
  obtain ⟨_, _, hscript⟩ := exists_rest_of_lines hscript h.second
  cases hscript
  rfl

theorem bare₃ : l₃.bare =
    { schema := names, dataFile := [], indexes := [(nameIndex, indexCreate)] } := by
  rw [LogicalTable.bare, h.schema₃, h.indexes₃]
  rfl

end NameTables

/-- The index leads to the second row; a SELECT without a condition scans the data file. -/
theorem select_prints_bothRows : ∃ steps w out,
    Runs (script (maxqlExecute (Disk.pipelinePrint noNumber zeroed halfFormat)) nameLines)
      (freshWorld, []) steps (w, out) ∧
    Runs (Disk.pipelinePrint noNumber zeroed halfFormat (.select (selectName (text "b"))))
      (w, []) (.ok ()) (w, text "+---+\n| c |\n+---+\n| b |\n+---+\nRows: 1\nIndex used: i\n") ∧
    Runs (Disk.pipelinePrint noNumber zeroed halfFormat (.select ⟨[], text "t", false, []⟩))
      (w, []) (.ok ()) (w, text "+------+\n| c    |\n+------+\n| a    |\n| b    |\n" ++
        text "+------+\nRows: 2\nNo index used\n") := by
  obtain ⟨l₁, l₂, l₃, l₄, h⟩ := exists_nameTables
  have hnil : SoundTables (logicalTables noNumber) [] := SoundTables.nil _
  obtain ⟨steps, ⟨ls, _⟩, hscript⟩ :=
    exists_runs_requests halfFormat_printsFloats hnil (h.meets [])
  obtain ⟨⟨w, out⟩, hdisk, hshows⟩ := (execute_shows halfFormat_printsFloats).run
    (c := (freshWorld, [])) ⟨freshWorld_holds, hnil, rfl⟩ (h.meets []) hscript
  obtain rfl : ls = [l₃] := h.eq_of_script hscript
  have hbinary : BinariesFit l₃.schema.columns [0] := by
    rw [h.schema₃]
    refine List.forall_mem_singleton.2 fun column hcolumn => ?_
    cases hcolumn
    exact nofun
  have hlookup : ∀ stmt : SelectStmt, validateSelect stmt = .ok () → stmt.table = text "t" →
      lookupStages (lookupNamed (logicalTables noNumber).name [l₃]) (.select stmt)
        = .ok (l₃, 0) := by
    intro stmt hvalid htable
    have hname : svToCstr (text "t") (maxTableNameSize + 1) = (logicalTables noNumber).name l₃ := by
      show _ = l₃.schema.tableName
      rw [h.schema₃]
      decide
    rw [lookupStages, hvalid, htable]
    exact lookupNamed_singleton hname _ _
  obtain ⟨-, hfound⟩ := select_prints noNumber zeroed halfFormat halfFormat_printsFloats
    hshows.holds hshows.sound (hlookup (selectName (text "b")) rfl rfl)
    (comparesExactly_of_strings (List.forall_mem_singleton.2 rfl)) (fun _ => h.rows₃_ne_nil) []
  obtain ⟨-, hall⟩ := select_prints noNumber zeroed halfFormat halfFormat_printsFloats
    hshows.holds hshows.sound (hlookup ⟨[], text "t", false, []⟩ rfl rfl)
    (comparesExactly_of_strings nofun) (fun _ => h.rows₃_ne_nil) []
  have hrow : l₃.select noNumber (selectName (text "b"))
      = .ok (.rows [0] [[nameValue (text "b")]]) := by
    unfold LogicalTable.select
    rw [h.bare₃, h.rows₃]
    rfl
  have hrows : l₃.select noNumber ⟨[], text "t", false, []⟩
      = .ok (.rows [0] [[nameValue (text "a")], [nameValue (text "b")]]) := by
    unfold LogicalTable.select
    rw [h.bare₃, h.rows₃]
    rfl
  have hone := (hfound [0] _ hrow hbinary).1
  have hboth := (hall [0] _ hrows hbinary).1
  unfold selectText shownSelect selectDecision at hone hboth
  rw [h.schema₃, h.bare₃] at hone hboth
  exact ⟨steps, w, out, hdisk, hone, hboth⟩

end Maxql.View
