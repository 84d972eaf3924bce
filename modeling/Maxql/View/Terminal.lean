import Maxql.View.Select
import Maxql.View.Show

/-!
# What the terminal shows of a script

`maxql_execute` of `src/main.c` runs a text and shows what it is answered with:
what its stages print, and then the time that it took, or its error.  The
functions of `src/view/output.c` print these.  The logical counterpart answers
from logical tables, without files, plans or printers.  There are three groups.

* Clocks.  `runs_printTime` is the text of the time between two readings.
* The functions, over the state of the pipelines and the text that has been
  printed, the pipelines over a list of tables, and the reports that logical
  tables give.
* The result.  `maxqlExecute_simulates`: the terminal shows the reports.
-/

namespace Maxql.View

open Program Bytes Simulation

/-! ## Clocks -/

/-- A reading of `CLOCK_MONOTONIC`. -/
structure Timespec where
  sec : Nat
  nsec : Nat
  lt : nsec < 1000000000

/-- The nanoseconds of a reading. -/
def Timespec.total (t : Timespec) : Nat := t.sec * 1000000000 + t.nsec

structure TimeDelta where
  start : Timespec
  stop : Timespec
  le : start.total ≤ stop.total

/-- The seconds and nanoseconds of `print_time`, with its borrow. -/
def TimeDelta.split (td : TimeDelta) : Int × Int :=
  let sec : Int := td.stop.sec - td.start.sec
  let nsec : Int := td.stop.nsec - td.start.nsec
  if nsec < 0 then (sec - 1, nsec + 1000000000) else (sec, nsec)

def printTime (td : TimeDelta) : Print Unit :=
  let (sec, nsec) := td.split
  if sec > 0 then
    let tenths := nsec.tdiv 100000000
    puts (text "Time: " ++ (formatInt sec ++ (text "." ++ (formatInt tenths ++ text " sec\n"))))
  else puts (text "Time: " ++ (formatInt (nsec.tdiv 1000000) ++ text " msec\n"))

/-- The text of a time in nanoseconds. -/
def timeText (nanos : Nat) : Text :=
  if 1000000000 ≤ nanos then
    text "Time: " ++ (Decimal.print (nanos / 1000000000) ++
      (text "." ++ (Decimal.print (nanos % 1000000000 / 100000000) ++ text " sec\n")))
  else text "Time: " ++ (Decimal.print (nanos / 1000000) ++ text " msec\n")

theorem formatInt_natCast (n : Nat) : formatInt n = Decimal.print n := by
  rw [formatInt, if_neg (by omega), Int.natAbs_natCast]

/-- They are the whole seconds and the rest of the time between the readings. -/
theorem TimeDelta.split_eq (td : TimeDelta) : td.split
    = ((((td.stop.total - td.start.total) / 1000000000 : Nat) : Int),
        (((td.stop.total - td.start.total) % 1000000000 : Nat) : Int)) := by
  have hle := td.le
  have hstart := td.start.lt
  have hstop := td.stop.lt
  unfold Timespec.total at hle ⊢
  unfold TimeDelta.split
  dsimp only
  split
  · rw [Prod.mk.injEq]
    constructor
    · omega
    · omega
  · rw [Prod.mk.injEq]
    constructor
    · omega
    · omega

theorem runs_printTime (td : TimeDelta) (out : Text) :
    Runs (printTime td) out () (out ++ timeText (td.stop.total - td.start.total)) := by
  unfold printTime timeText
  rw [td.split_eq]
  dsimp only
  generalize td.stop.total - td.start.total = nanos
  have htenths : ((nanos % 1000000000 : Nat) : Int).tdiv 100000000
      = ((nanos % 1000000000 / 100000000 : Nat) : Int) := by
    rw [Int.tdiv_eq_ediv_of_nonneg (by omega)]
    omega
  have hmillis : ((nanos % 1000000000 : Nat) : Int).tdiv 1000000
      = ((nanos % 1000000000 / 1000000 : Nat) : Int) := by
    rw [Int.tdiv_eq_ediv_of_nonneg (by omega)]
    omega
  rw [htenths, hmillis, formatInt_natCast, formatInt_natCast, formatInt_natCast]
  by_cases hsec : 1000000000 ≤ nanos
  · rw [if_pos (by omega), if_pos hsec]
    exact runs_puts _ _
  · rw [if_neg (by omega), if_neg hsec, Nat.mod_eq_of_lt (Nat.lt_of_not_le hsec)]
    exact runs_puts _ _

/-! ## The functions -/

def printError (e : Error) : Print Unit :=
  puts (text "Error: " ++ (cstr e.msg ++ text "\n"))

def printAffectedRows (count : Nat) : Print Unit :=
  puts (text "Affected rows: " ++ (Decimal.print count ++ text "\n"))

def printOk : Print Unit := puts (text "OK\n")

section Functions

variable {σ : Type} (unwritten : Unwritten)

/-- What the stages of a pipeline print, other than those of SELECT. -/
def printResponse : Response → Print Unit
  | .ok => printOk
  | .affectedRows count => printAffectedRows count
  | .cells names rows => printCells unwritten names rows
  -- no other statement has rows
  | .rows _ _ => pure ()

/-- A pipeline other than that of SELECT. -/
def printRun (run : Prog σ (Except Error Response)) : Prog (σ × Text) (Except Error Unit) := do
  match ← onFst run with
  | .error e => return .error e
  | .ok response =>
    onSnd (printResponse unwritten response)
    return .ok ()

/-- `maxql_execute` on a text, with the two readings of the clock. -/
def maxqlExecute (pipeline : Query → Prog (σ × Text) (Except Error Unit))
    (request : Text × TimeDelta) : Prog (σ × Text) Unit := do
  match ← engineRun pipeline request.1 with
  | .error e => onSnd (printError e)
  | .ok () => onSnd (printTime request.2)

end Functions

section Pipelines

variable [UnionMemory] (strtof : Strtof) (unwritten : Unwritten) (printFloat : FloatFormat)

/-- `pipeline_run` over a list of tables, with what the stages print. -/
def pipelinePrint : Query → Prog (List TableState × Text) (Except Error Unit)
  | .select stmt => do
    let (tables, _) ← get
    match lookupStages (lookupNamed (databaseTables strtof).name tables) (.select stmt) with
    | .error e => return .error e
    | .ok (t, _) => onSnd (printSelect unwritten printFloat strtof t stmt)
  | q => printRun unwritten (pipelineRun (databaseTables strtof) strtof unwritten printFloat q)

end Pipelines

section Reports

variable [UnionMemory] (strtof : Strtof) (unwritten : Unwritten) (printFloat : FloatFormat)

/-- The statement of a SELECT and the table that it names. -/
def selected (ls : List LogicalTable) (input : Text) : Option (LogicalTable × SelectStmt) :=
  match parseInput input with
  | .ok (.select stmt, none) =>
    match lookupStages (lookupNamed (logicalTables strtof).name ls) (.select stmt) with
    | .ok (l, _) => some (l, stmt)
    | .error _ => none
  | _ => none

/-- What is shown of the answer to a text. -/
def responseText (ls : List LogicalTable) (input : Text) : Response → Text
  | .ok => text "OK\n"
  | .affectedRows count => text "Affected rows: " ++ (Decimal.print count ++ text "\n")
  | .cells names rows => tableText (cellsColumns names rows) rows
  | .rows order rows =>
    match selected strtof ls input with
    | some (l, stmt) => selectText strtof printFloat l stmt order rows
    | none => []

/-- What the stages of a text show. -/
def stagesText (ls : List LogicalTable) (input : Text) : Except Error Response → Text
  | .error _ => []
  | .ok response => responseText strtof printFloat ls input response

/-- What the terminal shows of a text, with the time that it took. -/
def reportText (ls : List LogicalTable) (request : Text × TimeDelta)
    (answer : Except Error Response) : Text :=
  stagesText strtof printFloat ls request.1 answer ++
    match answer with
    | .error e => text "Error: " ++ (cstr e.msg ++ text "\n")
    | .ok _ => timeText (request.2.stop.total - request.2.start.total)

/-- A text that logical tables answer. -/
def logicalExecute (request : Text × TimeDelta) : Prog (List LogicalTable × Text) Unit := do
  let (ls, _) ← get
  let answer ← onFst
    (engineRun (pipelineRun (logicalTables strtof) strtof unwritten printFloat) request.1)
  onSnd (puts (reportText strtof printFloat ls request answer))

end Reports

/-- What a text must meet in a logical database so that its report can be shown. -/
def AdmitsReport [UnionMemory] (strtof : Strtof) (shown : List LogicalTable × Text)
    (request : Text × TimeDelta) : Prop :=
  AdmitsInput strtof shown.1 request.1 ∧
    ∀ l stmt order rows, selected strtof shown.1 request.1 = some (l, stmt) →
      l.select strtof stmt = .ok (.rows order rows) → BinariesFit l.schema.columns order

/-! ## The result -/

section Result

variable [UnionMemory] {strtof : Strtof} {unwritten : Unwritten} {printFloat : FloatFormat}

theorem response_of_answer {l l' : LogicalTable} {s : Statement} {response : Response}
    (h : l.answer strtof s = .ok (l', response)) :
    response = .ok ∨ ∃ count, response = .affectedRows count := by
  cases s with
  | insert stmt =>
    obtain ⟨values, -, h⟩ := bind_eq_ok.1 h
    split at h <;> cases h
    exact .inr ⟨_, rfl⟩
  | delete stmt =>
    obtain ⟨filter, -, h⟩ := bind_eq_ok.1 h
    cases h
    exact .inr ⟨_, rfl⟩
  | update stmt =>
    obtain ⟨plan, -, h⟩ := bind_eq_ok.1 h
    split at h <;> cases h
    exact .inr ⟨_, rfl⟩
  | createIndex stmt =>
    obtain ⟨indexDef, -, h⟩ := bind_eq_ok.1 h
    split at h <;> cases h
    exact .inl rfl
  | dropIndex stmt | truncate stmt =>
    obtain ⟨_, -, h⟩ := bind_eq_ok.1 h
    cases h
    exact .inl rfl

/-- Only the SHOW statements have cells, and only SELECT has rows. -/
theorem response_of_pipelineRun {q : Query} (hq : ∀ stmt, q ≠ .select stmt)
    {ls ls' : List LogicalTable} {response : Response}
    (hrun : Runs (pipelineRun (logicalTables strtof) strtof unwritten printFloat q) ls
      (.ok response) ls') :
    response = .ok ∨ (∃ count, response = .affectedRows count) ∨
      IsShow q ∧ ∃ names rows, response = .cells names rows := by
  have hanswer : ∀ {q : Query} (s : Statement), (∀ l, (logicalTables strtof).onTable unwritten
      printFloat l q = .ok (l.answer strtof s)) →
      Runs ((logicalTables strtof).runOnTable unwritten printFloat q) ls (.ok response) ls' →
      response = .ok ∨ ∃ count, response = .affectedRows count := by
    intro q s honTable hrun
    obtain ⟨l, pos, l', -, hresult, -⟩ := TableKind.exists_of_runOnTable _ _ _ hrun
    rw [honTable] at hresult
    exact response_of_answer (Except.ok.inj hresult)
  cases q with
  | select stmt => exact absurd rfl (hq stmt)
  | insert stmt => exact (hanswer (.insert stmt) (fun _ => rfl) hrun).imp_right .inl
  | update stmt => exact (hanswer (.update stmt) (fun _ => rfl) hrun).imp_right .inl
  | delete stmt => exact (hanswer (.delete stmt) (fun _ => rfl) hrun).imp_right .inl
  | truncateTable stmt => exact (hanswer (.truncate stmt) (fun _ => rfl) hrun).imp_right .inl
  | createIndex stmt => exact (hanswer (.createIndex stmt) (fun _ => rfl) hrun).imp_right .inl
  | dropIndex stmt => exact (hanswer (.dropIndex stmt) (fun _ => rfl) hrun).imp_right .inl
  | createTable stmt =>
    have hrest := Runs.rest (Runs.get ls) hrun
    split at hrest <;> cases hrest
    exact .inl rfl
  | dropTable stmt =>
    have hrest := Runs.rest (Runs.get ls) hrun
    split at hrest <;> cases hrest
    exact .inl rfl
  | showTables =>
    cases hrun
    exact .inr (.inr ⟨.tables, _, _, rfl⟩)
  | showIndexTypes =>
    cases hrun
    exact .inr (.inr ⟨.indexTypes, _, _, rfl⟩)
  | unknown => cases hrun
  | showTable stmt =>
    obtain ⟨l, pos, l', -, hresult, -⟩ := TableKind.exists_of_runOnTable _ _ _ hrun
    obtain ⟨rows, -, hresult⟩ := Checked.bind_eq_ok.1 hresult
    cases hresult
    exact .inr (.inr ⟨.table stmt, _, _, rfl⟩)
  | showIndex stmt =>
    obtain ⟨l, pos, l', -, hresult, -⟩ := TableKind.exists_of_runOnTable _ _ _ hrun
    obtain ⟨rows, -, hresult⟩ := Checked.bind_eq_ok.1 hresult
    cases hresult
    exact .inr (.inr ⟨.index stmt, _, _, rfl⟩)

section Step

variable {tables : List TableState} {ls ls' : List LogicalTable} {input : Text}
  {answer : Except Error Response}
  (hR : List.Forall₂ Represents tables ls) (hsound : SoundTables (logicalTables strtof) ls)
  (hok : AdmitsInput strtof ls input)

include hR hsound hok

/-- A statement other than SELECT shows its answer. -/
theorem printRun_shows {q : Query} (hparse : parseInput input = .ok (q, none))
    (hq : ∀ stmt, q ≠ .select stmt)
    (hrun : Runs (pipelineRun (logicalTables strtof) strtof unwritten printFloat q) ls answer ls')
    (out : Text) : ∃ tables',
      Runs (printRun unwritten (pipelineRun (databaseTables strtof) strtof unwritten printFloat q))
        (tables, out) (answer.map fun _ => ()) (tables', out ++ stagesText strtof printFloat ls input answer) ∧
      List.Forall₂ Represents tables' ls' := by
  obtain ⟨tables', hpipeline, hR'⟩ := (databaseTables_simulates strtof).pipelineRun hR
    (fun l pos hlookup => hok q l pos hparse hlookup) hrun
  refine ⟨tables', Runs.bind (hpipeline.onFst out) ?_, hR'⟩
  cases answer with
  | error e =>
    rw [stagesText, List.append_nil]
    exact Runs.pure _ _
  | ok response =>
    suffices hprint : Runs (printResponse unwritten response) out ()
        (out ++ responseText strtof printFloat ls input response) from
      Runs.bind (hprint.onSnd tables') (Runs.pure _ _)
    rcases response_of_pipelineRun hq hrun with rfl | ⟨count, rfl⟩ | ⟨hshow, names, rows, rfl⟩
    · exact runs_puts _ out
    · exact runs_puts _ out
    · exact ((showable_of_runs hsound hshow hrun).prints unwritten out).1

/-- A SELECT shows its rows. -/
theorem printSelect_shows (hfloats : PrintsFloats printFloat) {stmt : SelectStmt}
    (hparse : parseInput input = .ok (.select stmt, none))
    (hbinary : ∀ l stmt order rows, selected strtof ls input = some (l, stmt) →
      l.select strtof stmt = .ok (.rows order rows) → BinariesFit l.schema.columns order)
    (hrun : Runs (pipelineRun (logicalTables strtof) strtof unwritten printFloat (.select stmt)) ls
      answer ls') (out : Text) : ∃ tables',
      Runs (pipelinePrint strtof unwritten printFloat (.select stmt)) (tables, out)
        (answer.map fun _ => ())
        (tables', out ++ stagesText strtof printFloat ls input answer) ∧
      List.Forall₂ Represents tables' ls' := by
  have hrest := Runs.rest (Runs.get ls) hrun
  rcases (databaseTables_simulates strtof).lookup hR (.select stmt) with
    ⟨e, herror, herror'⟩ | ⟨t, l, pos, hrep, hlookup, hlookup'⟩
  · rw [herror'] at hrest
    cases hrest
    refine ⟨tables, Runs.bind (Runs.get _) ?_, hR⟩
    dsimp only
    rw [herror, stagesText, List.append_nil]
    exact Runs.pure _ _
  · rw [hlookup'] at hrest
    obtain ⟨result, _, hlift, hrest⟩ := hrest.exists_of_bind
    obtain ⟨hresult, rfl⟩ := hlift.eq_of_lift
    cases hresult
    have hselected : selected strtof ls input = some (l, stmt) := by
      rw [selected, hparse]
      dsimp only
      rw [hlookup']
    obtain ⟨hpos, -⟩ := lookupStages_eq_ok hlookup'
    have hplanned := hsound.planned l (List.mem_of_getElem? hpos)
    have hexact := hok _ l pos hparse hlookup'
    cases hselect : l.select strtof stmt with
    | error e =>
      rw [hselect] at hrest
      cases hrest
      refine ⟨tables, Runs.bind (Runs.get _) ?_, hR⟩
      dsimp only
      rw [hlookup, stagesText, List.append_nil]
      exact (runs_printSelect_error hrep hselect out).onSnd tables
    | ok response =>
      rw [hselect] at hrest
      cases hrest
      obtain ⟨plan, -, hrows⟩ := bind_eq_ok.1 hselect
      cases hrows
      have hset : ls.set pos l = ls := by
        obtain ⟨hlt, rfl⟩ := List.getElem?_eq_some_iff.1 hpos
        exact List.set_getElem_self hlt
      rw [hset]
      refine ⟨tables, Runs.bind (Runs.get _) ?_, hR⟩
      dsimp only
      rw [hlookup, stagesText, responseText, hselected]
      exact (runs_printSelect hrep hplanned hfloats hexact hselect
        (hbinary l stmt _ _ hselected hselect) out).onSnd tables

/-- The stages of a text show what logical tables answer. -/
theorem engineRun_shows (hfloats : PrintsFloats printFloat)
    (hbinary : ∀ l stmt order rows, selected strtof ls input = some (l, stmt) →
      l.select strtof stmt = .ok (.rows order rows) → BinariesFit l.schema.columns order)
    (hrun : Runs (engineRun (pipelineRun (logicalTables strtof) strtof unwritten printFloat) input)
      ls answer ls') (out : Text) : ∃ tables',
      Runs (engineRun (pipelinePrint strtof unwritten printFloat) input) (tables, out)
        (answer.map fun _ => ()) (tables', out ++ stagesText strtof printFloat ls input answer) ∧
      List.Forall₂ Represents tables' ls' := by
  obtain ⟨⟨q, error⟩, _, hlift, hrest⟩ := hrun.exists_of_bind
  obtain ⟨hparse, rfl⟩ := hlift.eq_of_lift
  cases error with
  | some e =>
    cases hrest
    refine ⟨tables, Runs.bind (Runs.lift hparse _) ?_, hR⟩
    rw [stagesText, List.append_nil]
    exact Runs.pure _ _
  | none =>
    suffices h : ∃ tables',
        Runs (pipelinePrint strtof unwritten printFloat q) (tables, out) (answer.map fun _ => ())
          (tables', out ++ stagesText strtof printFloat ls input answer) ∧
        List.Forall₂ Represents tables' ls' by
      obtain ⟨tables', hprint, hR'⟩ := h
      exact ⟨tables', Runs.bind (Runs.lift hparse _) hprint, hR'⟩
    by_cases hselect : ∃ stmt, q = .select stmt
    · obtain ⟨stmt, rfl⟩ := hselect
      exact printSelect_shows hR hsound hok hfloats hparse hbinary hrest out
    · have hq : ∀ stmt, q ≠ .select stmt := not_exists.1 hselect
      have hother : pipelinePrint strtof unwritten printFloat q
          = printRun unwritten
            (pipelineRun (databaseTables strtof) strtof unwritten printFloat q) := by
        cases q with
        | select stmt => exact absurd rfl (hq stmt)
        | insert | update | delete | truncateTable | createIndex | dropIndex | createTable
        | dropTable | showTables | showTable | showIndex | showIndexTypes | unknown => rfl
      rw [hother]
      exact printRun_shows hR hsound hok hparse hq hrest out

end Step

/-- A text of the logical database adds its report. -/
theorem runs_logicalExecute_iff {ls : List LogicalTable} {out : Text} {request : Text × TimeDelta}
    {b : List LogicalTable × Text} :
    Runs (logicalExecute strtof unwritten printFloat request) (ls, out) () b ↔
      ∃ answer ls', Runs (engineRun (pipelineRun (logicalTables strtof) strtof unwritten
          printFloat) request.1) ls answer ls' ∧
        b = (ls', out ++ reportText strtof printFloat ls request answer) := by
  constructor
  · intro hrun
    have hrest := Runs.rest (Runs.get (ls, out)) hrun
    obtain ⟨answer, ⟨ls', out'⟩, hengine, hputs⟩ := hrest.exists_of_bind
    obtain ⟨hengine, hout⟩ := hengine.of_onFst
    obtain ⟨-, rfl⟩ := hputs.unique ((runs_puts _ out').onSnd ls')
    exact ⟨answer, ls', hengine, by rw [← hout]⟩
  · rintro ⟨answer, ls', hengine, rfl⟩
    exact Runs.bind (Runs.get (ls, out))
      (Runs.bind (hengine.onFst out) ((runs_puts _ out).onSnd ls'))

theorem sound_of_logicalExecute {request : Text × TimeDelta} {b b' : List LogicalTable × Text}
    {u : Unit} (hsound : SoundTables (logicalTables strtof) b.1)
    (hrun : Runs (logicalExecute strtof unwritten printFloat request) b u b') :
    SoundTables (logicalTables strtof) b'.1 := by
  obtain ⟨answer, ls', hengine, rfl⟩ := runs_logicalExecute_iff.1 hrun
  exact hsound.engineRun (logicalTables_lawful strtof) hengine

/-- The logical database shows a report for every text that it admits. -/
theorem exists_logicalExecute (hfloats : PrintsFloats printFloat) {request : Text × TimeDelta}
    {b : List LogicalTable × Text} (hsound : SoundTables (logicalTables strtof) b.1)
    (hok : AdmitsReport strtof b request) :
    ∃ u b', Runs (logicalExecute strtof unwritten printFloat request) b u b' := by
  obtain ⟨answer, ls', hengine⟩ := exists_logical_answer hfloats hsound hok.1
  exact ⟨(), _, runs_logicalExecute_iff.2 ⟨answer, ls', hengine, rfl⟩⟩

/-- One text shows the report of the logical tables. -/
theorem maxqlExecute_simulates (unwritten : Unwritten) (hfloats : PrintsFloats printFloat) :
    Simulates (fun (c : List TableState × Text) (b : List LogicalTable × Text) =>
        List.Forall₂ Represents c.1 b.1 ∧ SoundTables (logicalTables strtof) b.1 ∧ c.2 = b.2)
      (AdmitsReport strtof) (maxqlExecute (pipelinePrint strtof unwritten printFloat))
      (logicalExecute strtof unwritten printFloat) := by
  rintro ⟨tables, out⟩ ⟨ls, _⟩ request ⟨⟩ b' ⟨hR, hsound, rfl⟩ ⟨hok, hbinary⟩ hrun
  obtain ⟨answer, ls', hengine, rfl⟩ := runs_logicalExecute_iff.1 hrun
  obtain ⟨tables', hprint, hR'⟩ :=
    engineRun_shows hR hsound hok hfloats hbinary hengine out
  have hsound' := hsound.engineRun (logicalTables_lawful strtof) hengine
  refine ⟨(tables', out ++ reportText strtof printFloat ls request answer), Runs.bind hprint ?_,
    hR', hsound', rfl⟩
  unfold reportText
  rw [← List.append_assoc]
  cases answer with
  | error e => exact (runs_puts _ _).onSnd tables'
  | ok response => exact (runs_printTime request.2 _).onSnd tables'

end Result

end Maxql.View
