import Maxql.Engine.Relational

/-!
# Answers

What the pipelines of `src/engine/engine.c` print when they end without an
error: the selected values, the number of rows that a statement has changed,
or `OK`.  `runStatement` says what becomes of the table; `answerStatement` adds
what is printed.

* `answerStatement_state`: its table is that of `runStatement`.
-/

namespace Maxql

open Program

/-- What is printed behind the rows of a statement that ends without an error. -/
inductive Response where
  /-- `print_ok` -/
  | ok
  /-- `print_affected_rows` -/
  | affectedRows (count : Nat)
  /-- The values that `print_row` gets, row by row. -/
  | rows (columns : List Nat) (rows : List DataRow)
  /-- The cells of a buffered table. -/
  | cells (names : List Text) (rows : List (List Text))
  deriving DecidableEq, Repr

/-- The same error, or the same output and related tables. -/
inductive Matches {T T' : Type} (R : T → T' → Prop) :
    Except Error (T × Response) → Except Error (T' × Response) → Prop
  | error (e : Error) : Matches R (.error e) (.error e)
  | ok {t : T} {t' : T'} (h : R t t') (response : Response) :
      Matches R (.ok (t, response)) (.ok (t', response))

/-- The values of a row in the order of the query. -/
def selectedValues (queryColumnOrder : List Nat) (row : DataRow) : DataRow :=
  queryColumnOrder.map fun columnIndex => row.getD columnIndex .null

/-- SELECT, with what it prints. -/
def answerSelect [UnionMemory] (strtof : Strtof) (t : TableState) (stmt : SelectStmt) :
    Checked (Except Error Response) :=
  runStages (do validateSelect stmt; analyzeSelect strtof t stmt) fun plan => do
    let decision ← planSelect t plan
    let rows ← executeSelect t plan decision
    return .ok (.rows plan.queryColumnOrder
      (rows.map fun x => selectedValues plan.queryColumnOrder x.row))

/-- DELETE, with what it prints. -/
def answerDelete [UnionMemory] (strtof : Strtof) (t : TableState) (stmt : DeleteStmt) :
    Checked (Except Error (TableState × Response)) :=
  runStages (do validateDelete stmt; analyzeDelete strtof t stmt) fun filter => do
    let decision ← planDelete t filter
    let count ← deleteAffectedRows t filter decision
    return (← executeDelete t filter decision).map (·, .affectedRows count)

/-- UPDATE, with what it prints. -/
def answerUpdate [UnionMemory] (strtof : Strtof) (t : TableState) (stmt : UpdateStmt) :
    Checked (Except Error (TableState × Response)) :=
  runStages (do validateUpdate stmt; analyzeUpdate strtof t stmt) fun plan => do
    let decision ← planUpdate t plan
    let count ← updateAffectedRows t plan decision
    return (← executeUpdate t plan decision).map (·, .affectedRows count)

/-- A statement that changes the table, with what it prints. -/
def answerStatement [UnionMemory] (strtof : Strtof) (t : TableState) :
    Statement → Checked (Except Error (TableState × Response))
  | .insert stmt => do return (← runInsert strtof t stmt).map (·, .affectedRows 1)
  | .delete stmt => answerDelete strtof t stmt
  | .update stmt => answerUpdate strtof t stmt
  | .createIndex stmt => do return (← runCreateIndex t stmt).map (·, .ok)
  | .dropIndex stmt => do return (← runDropIndex t stmt).map (·, .ok)
  | .truncate stmt => do return (← runTruncateTable t stmt).map (·, .ok)

theorem map_state (t : Except Error TableState) (response : Response) :
    (t.map (·, response)).map Prod.fst = t := by
  cases t <;> rfl

theorem runStages_state {α : Type} {stages : Except Error α}
    {answer : α → Checked (Except Error (TableState × Response))}
    {execute : α → Checked (Except Error TableState)}
    (hexecute : ∀ plan result, answer plan = .ok result →
      execute plan = .ok (result.map Prod.fst)) {result : Except Error (TableState × Response)}
    (h : runStages stages answer = .ok result) :
    runStages stages execute = .ok (result.map Prod.fst) := by
  cases stages with
  | error e =>
    cases h
    rfl
  | ok plan => exact hexecute plan result h

theorem answerStatement_state [UnionMemory] {strtof : Strtof} {t : TableState} {s : Statement}
    {result : Except Error (TableState × Response)}
    (h : answerStatement strtof t s = .ok result) :
    runStatement strtof t s = .ok (result.map Prod.fst) := by
  cases s with
  | delete stmt =>
    refine runStages_state (fun filter result h => ?_) h
    obtain ⟨decision, hdecision, h⟩ := Checked.bind_eq_ok.1 h
    obtain ⟨count, -, h⟩ := Checked.bind_eq_ok.1 h
    obtain ⟨r, hr, h⟩ := Checked.bind_eq_ok.1 h
    cases h
    rw [hdecision, map_state]
    exact hr
  | update stmt =>
    refine runStages_state (fun plan result h => ?_) h
    obtain ⟨decision, hdecision, h⟩ := Checked.bind_eq_ok.1 h
    obtain ⟨count, -, h⟩ := Checked.bind_eq_ok.1 h
    obtain ⟨r, hr, h⟩ := Checked.bind_eq_ok.1 h
    cases h
    rw [hdecision, map_state]
    exact hr
  | insert stmt | createIndex stmt | dropIndex stmt | truncate stmt =>
    obtain ⟨r, hr, h⟩ := Checked.bind_eq_ok.1 h
    cases h
    rw [map_state]
    exact hr

end Maxql
