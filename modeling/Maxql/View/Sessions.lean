import Maxql.View.Files

/-!
# Runs of the program

`main` of `src/main.c` and the loop of `repl_run` of `src/cli/repl.c` over an
input that is not a terminal.  A run reads lines, executes them over the files
and prints.  Nothing but the files goes from one run to the next.  There are
three groups.

* The lines of an input.
* The functions, over the files and the text that has been printed, and their
  counterpart over logical tables.
* Runs.  `runs_show`: any number of runs shows what one list of logical tables
  shows that is never stopped.
-/

namespace Maxql.View

open Program Bytes Simulation

/-! ## Lines -/

/-- The strings that `repl_run` makes of the lines that `getline` reads.  The last line may have
no end, and a string ends in front of its first zero byte. -/
def inputLines (stdin : Text) : List Text :=
  let lines := stdin.splitOn newline
  (if lines.getLast? = some [] then lines.dropLast else lines).map cstr

/-- What a run of the program gets: its input, and the readings of the clock for each line. -/
structure RunInput where
  stdin : Text
  clock : Nat → TimeDelta

def RunInput.requests (run : RunInput) : List (Text × TimeDelta) :=
  (inputLines run.stdin).zipIdx.map fun (line, i) => (line, run.clock i)

end Maxql.View

/-! ## The functions -/

namespace Maxql.Disk

open Program Bytes Simulation View

variable [UnionMemory] (strtof : Strtof) (unwritten : Unwritten) (printFloat : FloatFormat)

/-- A run of the program, or the error of its start.  The list in memory is that of this run. -/
def mainRun (run : RunInput) : Prog (World × Text) (Except Error Unit) := do
  onFst (modify fun w => { w with tables := [] })
  match ← onFst (appContextInit strtof unwritten printFloat) with
  | .error e => return .error e
  | .ok () =>
    onSnd (puts (text "maxql v0.1\n"))
    let _ ← script (maxqlExecute (pipelinePrint strtof unwritten printFloat)) run.requests
    onSnd (puts (text "\nBye :)\n"))
    return .ok ()

end Maxql.Disk

namespace Maxql.View

open Program Bytes Simulation Disk

section Functions

variable [UnionMemory] (strtof : Strtof) (unwritten : Unwritten) (printFloat : FloatFormat)

/-- A run of the program on logical tables, which stay in memory. -/
def logicalRun (run : RunInput) : Prog (List LogicalTable × Text) (Except Error Unit) := do
  onSnd (puts (text "maxql v0.1\n"))
  let _ ← script (logicalExecute strtof unwritten printFloat) run.requests
  onSnd (puts (text "\nBye :)\n"))
  return .ok ()

/-- What a run must meet in a logical database. -/
structure AdmitsRun (shown : List LogicalTable × Text) (run : RunInput) : Prop where
  columns : ColumnsComeBack strtof printFloat (logicalTables strtof) shown.1
  lines : ∀ out, Meets (AdmitsLine strtof) (logicalExecute strtof unwritten printFloat)
    (shown.1, out) run.requests

end Functions

/-! ## Runs -/

section Runs

variable [UnionMemory] {strtof : Strtof} {unwritten : Unwritten} {printFloat : FloatFormat}

theorem runs_logicalRun_iff {run : RunInput} {ls : List LogicalTable} {out : Text}
    {r : Except Error Unit} {b : List LogicalTable × Text} :
    Runs (logicalRun strtof unwritten printFloat run) (ls, out) r b ↔
      ∃ steps b₁, Runs (script (logicalExecute strtof unwritten printFloat) run.requests)
          (ls, out ++ text "maxql v0.1\n") steps b₁ ∧
        r = .ok () ∧ b = (b₁.1, b₁.2 ++ text "\nBye :)\n") := by
  have hstart := (runs_puts (text "maxql v0.1\n") out).onSnd ls
  constructor
  · intro hrun
    obtain ⟨steps, b₁, hscript, hrest⟩ := (Runs.rest hstart hrun).exists_of_bind
    have hend := (runs_puts (text "\nBye :)\n") b₁.2).onSnd b₁.1
    cases Runs.rest hend hrest
    exact ⟨steps, b₁, hscript, rfl, rfl⟩
  · rintro ⟨steps, b₁, hscript, rfl, rfl⟩
    have hend := (runs_puts (text "\nBye :)\n") b₁.2).onSnd b₁.1
    exact Runs.bind hstart (Runs.bind hscript (Runs.bind hend (Runs.pure _ _)))

/-- A run of the program shows what the logical tables show. -/
theorem mainRun_shows (hfloats : PrintsFloats printFloat) :
    Simulates (Shows strtof printFloat) (AdmitsRun strtof unwritten printFloat)
      (mainRun strtof unwritten printFloat) (logicalRun strtof unwritten printFloat) := by
  rintro ⟨w, out⟩ ⟨ls, _⟩ run r b' ⟨⟨database, hstored, hR⟩, hsound, rfl⟩ hok hrun
  obtain ⟨steps, b₁, hscript, rfl, rfl⟩ := runs_logicalRun_iff.1 hrun
  have hcolumns : ColumnsComeBack strtof printFloat (databaseTables strtof) database := by
    intro t ht
    obtain ⟨l, hl, hrep⟩ := forall₂_mem_left hR ht
    have hback := hok.columns l hl
    rw [← (databaseTables_simulates strtof).schema hrep] at hback
    exact hback
  obtain ⟨⟨w', out'⟩, hdisk, hholds, hsound', hshown⟩ := (execute_shows hfloats).run
    (c := (w, out ++ text "maxql v0.1\n")) (b := (ls, out ++ text "maxql v0.1\n"))
    ⟨⟨database, hstored, hR⟩, hsound, rfl⟩ (hok.lines _) hscript
  obtain rfl : out' = b₁.2 := hshown
  refine ⟨(w', b₁.2 ++ text "\nBye :)\n"), ?_, hholds, hsound', rfl⟩
  exact Runs.bind ((Runs.modify _ w).onFst out) (Runs.bind
    ((appContextInit_runs hstored hfloats hcolumns unwritten []).onFst out)
    (Runs.bind ((runs_puts _ out).onSnd w) (Runs.bind hdisk
      (Runs.bind ((runs_puts _ b₁.2).onSnd w') (Runs.pure _ _)))))

/-- Runs of the program one after the other, each with its own input, show what one list of
logical tables shows that gets all the lines, and leave files that hold it. -/
theorem runs_show (strtof : Strtof) (unwritten : Unwritten) (printFloat : FloatFormat)
    (hfloats : PrintsFloats printFloat) (runs : List RunInput)
    (hmeets : Meets (AdmitsRun strtof unwritten printFloat)
      (logicalRun strtof unwritten printFloat) ([], []) runs) :
    ∃ results w ls out,
      Runs (script (logicalRun strtof unwritten printFloat) runs) ([], []) results (ls, out) ∧
      Runs (script (mainRun strtof unwritten printFloat) runs) (freshWorld, []) results (w, out) ∧
      Holds strtof printFloat w ls := by
  have hnil : SoundTables (logicalTables strtof) [] := SoundTables.nil _
  obtain ⟨results, ⟨ls, _⟩, hrun⟩ := exists_runs_script
    (I := fun b => SoundTables (logicalTables strtof) b.1)
    (fun run b r b' hsound hrun => by
      obtain ⟨steps, b₁, hscript, -, rfl⟩ := runs_logicalRun_iff.1 hrun
      have hkept := sound_of_requests (b := (b.1, b.2 ++ text "maxql v0.1\n")) hsound hscript
      exact hkept)
    (fun run b hsound hok => by
      obtain ⟨steps, b', hscript⟩ := exists_runs_requests
        (b := (b.1, b.2 ++ text "maxql v0.1\n")) hfloats hsound (hok.lines _)
      exact ⟨_, _, runs_logicalRun_iff.2 ⟨steps, b', hscript, rfl, rfl⟩⟩) hnil hmeets
  obtain ⟨⟨w, out⟩, hmain, hholds, -, rfl⟩ := (mainRun_shows hfloats).run
    (c := (freshWorld, [])) ⟨freshWorld_holds, hnil, rfl⟩ hmeets hrun
  exact ⟨results, w, ls, out, hrun, hmain, hholds⟩

end Runs

/-! ## Two runs -/

open ClearedMemory

/-- A table is made, gets a row and then an index. -/
def firstRun : RunInput where
  stdin := text "create table t (c char(2))\ninsert into t set c = \"a\"\n" ++
    text "create unique index i on t (c)\n"
  clock := fun _ => halfSecond

/-- The index is loaded for a second row, searched, and loaded again to remove the first row.
The last line has no end. -/
def secondRun : RunInput where
  stdin := text "insert into t set c = \"b\"\nselect * from t where c = \"b\"\n" ++
    text "delete from t where c = \"a\"\nselect * from t"
  clock := fun _ => halfSecond

theorem firstRun_requests : firstRun.requests
    = [(text "create table t (c char(2))", halfSecond),
      (text "insert into t set c = \"a\"", halfSecond),
      (text "create unique index i on t (c)", halfSecond)] := rfl

theorem secondRun_requests : secondRun.requests
    = [(text "insert into t set c = \"b\"", halfSecond),
      (text "select * from t where c = \"b\"", halfSecond),
      (text "delete from t where c = \"a\"", halfSecond),
      (text "select * from t", halfSecond)] := rfl

/-- The two runs keep what the files need. -/
theorem twoRuns_admitted : Meets (AdmitsRun noNumber zeroed halfFormat)
    (logicalRun noNumber zeroed halfFormat) ([], []) [firstRun, secondRun] := by
  obtain ⟨l₁, l₂, l₃, l₄, h⟩ := exists_nameTables
  have hlines : ∀ out, Meets (AdmitsLine noNumber) (logicalExecute noNumber zeroed halfFormat)
      ([], out) firstRun.requests := by
    rw [firstRun_requests]
    exact meets_lines admitsLine_createNames h.create (meets_lines admitsLine_firstName h.first
      (meets_lines h.admitsLine_index h.index fun _ => trivial))
  refine ⟨⟨nofun, hlines⟩, fun r b hrun => ?_⟩
  -- the tables between the runs
  obtain ⟨steps, b₁, hscript, -, rfl⟩ := runs_logicalRun_iff.1 hrun
  rw [firstRun_requests] at hscript
  obtain ⟨_, _, hscript⟩ := exists_rest_of_lines hscript h.create
  obtain ⟨_, _, hscript⟩ := exists_rest_of_lines hscript h.first
  obtain ⟨_, _, hscript⟩ := exists_rest_of_lines hscript h.index
  cases hscript
  -- the second run
  refine ⟨⟨List.forall_mem_singleton.2 ?_, ?_⟩, fun _ _ _ => trivial⟩
  · intro column hcolumn
    have hschema : (logicalTables noNumber).schema l₂ = names := h.schema₂
    rw [hschema] at hcolumn
    obtain rfl := List.mem_singleton.1 hcolumn
    exact ⟨⟨by decide, List.forall_mem_singleton.2 (.inl rfl)⟩, nofun⟩
  have hrows₄ : l₄.table.rows ≠ [] := by
    rw [h.rows₄]
    exact List.cons_ne_nil _ _
  obtain ⟨answer, hfound⟩ : ∃ answer,
      Runs (logicalNames (text "select * from t where c = \"b\"")) [l₃] answer [l₃] :=
    exists_answer_of_select rfl [l₃]
  obtain ⟨answer', hall⟩ : ∃ answer, Runs (logicalNames (text "select * from t")) [l₄] answer [l₄] :=
    exists_answer_of_select rfl [l₄]
  rw [secondRun_requests]
  exact meets_lines h.admitsLine_second h.second
    (meets_lines (admitsLine_selectNames h.schema₃ h.rows₃_ne_nil
        (selectName (text "b")).conditions rfl (List.forall_mem_singleton.2 rfl)) hfound
      (meets_lines h.admitsLine_delete h.delete
        (meets_lines (admitsLine_selectNames h.schema₄ hrows₄ [] rfl nofun) hall
          fun _ => trivial)))

/-- Both runs, over the files and over the logical tables. -/
theorem runs_show_twoRuns : ∃ results w ls out,
    Runs (script (logicalRun noNumber zeroed halfFormat) [firstRun, secondRun]) ([], []) results
      (ls, out) ∧
    Runs (script (mainRun noNumber zeroed halfFormat) [firstRun, secondRun]) (freshWorld, [])
      results (w, out) ∧
    Holds noNumber halfFormat w ls :=
  runs_show noNumber zeroed halfFormat halfFormat_printsFloats _ twoRuns_admitted

end Maxql.View
