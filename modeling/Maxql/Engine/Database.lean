import Maxql.Engine.LogicalTable
import Maxql.Engine.Resolve
import Maxql.Engine.Show
import Maxql.Lib.Simulation
import Maxql.Parser.Parser

/-!
# The engine over a list of tables

`engine_run`, from the text of a statement to its answer, and the pipelines of
`src/engine/engine.c` over a list of tables.  What a table is, is left open: the
pipelines look a table up by its name and hand the statement to it.  Tables
with a data file and indexes make the engine of the source, logical tables make
what it is for.

The groups are the kinds of tables, the lookup, the pipelines, and the rules of
a simulation between two kinds.

* `databaseTables`, `logicalTables`: the two kinds;
* `TableKind.Simulates.pipelineRun`: a simulation of tables is one of databases.
-/

namespace Maxql

open Program Bytes Simulation

/-! ## Kinds of tables -/

/-- What the pipelines need of a table. -/
structure TableKind (T : Type) where
  schema : T → TableSchema
  indexMeta : T → IndexMeta
  create : TableSchema → T
  select : T → SelectStmt → Checked (Except Error Response)
  answer : T → Statement → Checked (Except Error (T × Response))

def TableKind.name {T : Type} (K : TableKind T) (t : T) : Text := (K.schema t).tableName

/-- Tables with a data file and indexes. -/
def databaseTables [UnionMemory] (strtof : Strtof) : TableKind TableState where
  schema := TableState.schema
  indexMeta := TableState.indexMeta
  create := fun schema => { schema, dataFile := [], indexes := [] }
  select := answerSelect strtof
  answer := answerStatement strtof

/-- Lists of rows under unique indexes. -/
def logicalTables [UnionMemory] (strtof : Strtof) : TableKind LogicalTable where
  schema := LogicalTable.schema
  indexMeta := fun l => l.table.indexes
  create := LogicalTable.create
  select := fun l stmt => .ok (l.select strtof stmt)
  answer := fun l s => .ok (l.answer strtof s)

/-! ## The lookup -/

section Lookup

variable {T : Type}

/-- `database_table_by_name`, with the position of the table. -/
def lookupNamed (nameOf : T → Text) (tables : List T) (code : ErrorCode)
    (complaint table : Text) : Except Error (T × Nat) :=
  let tableName := svToCstr table (maxTableNameSize + 1)
  match tables.zipIdx.find? fun entry => tableName == nameOf entry.1 with
  | some entry => .ok entry
  | none => errorFmt code (text "Table '" ++ tableName ++ complaint)

/-- The stages of a pipeline up to its lookup. -/
def lookupStages {α : Type} (lookup : ErrorCode → Text → Text → Except Error α) :
    Query → Except Error α
  | .select stmt => do
    validateSelect stmt
    lookup .analyzer (text "' not exist") stmt.table
  | .insert stmt => do
    validateInsert stmt
    lookup .analyzer (text "' not exist") stmt.table
  | .update stmt => do
    validateUpdate stmt
    lookup .analyzer (text "' not exist") stmt.table
  | .delete stmt => do
    validateDelete stmt
    lookup .analyzer (text "' not exist") stmt.table
  | .dropTable stmt => do
    validateDropTable stmt
    lookup .planner (text "' not found") stmt.table
  | .truncateTable stmt => do
    validateTruncateTable stmt
    lookup .planner (text "' not found") stmt.table
  | .createIndex stmt => do
    validateCreateIndex stmt
    lookup .planner (text "' not found") stmt.table
  | .dropIndex stmt => do
    validateDropIndex stmt
    lookup .planner (text "' not found") stmt.table
  | .showTable stmt => lookup .executor (text "' not found") stmt.table
  | .showIndex stmt => lookup .executor (text "' not found") stmt.table
  | .createTable _ | .showTables | .showIndexTypes | .unknown =>
    errorFmt .internal (text "No pipeline defined for query type")

/-- The stages are those of `queryTarget`. -/
theorem queryTarget_eq (database : DatabaseState) (q : Query) :
    queryTarget database q
      = lookupStages (fun code complaint => lookupTable code complaint database) q := by
  cases q <;> rfl

theorem lookupNamed_eq_ok {nameOf : T → Text} {tables : List T} {code : ErrorCode}
    {complaint table : Text} {t : T} {pos : Nat}
    (h : lookupNamed nameOf tables code complaint table = .ok (t, pos)) :
    tables[pos]? = some t ∧ nameOf t = svToCstr table (maxTableNameSize + 1) := by
  unfold lookupNamed at h
  dsimp only at h
  split at h
  · next entry hfound =>
    cases h
    have hname := List.find?_some hfound
    exact ⟨List.mem_zipIdx_iff_getElem?.1 (List.mem_of_find?_eq_some hfound),
      (beq_iff_eq.1 hname).symm⟩
  · cases h

/-- The lookup in a list of what the tables become. -/
theorem lookupNamed_singleton {nameOf : T → Text} {t : T} {table : Text}
    (h : svToCstr table (maxTableNameSize + 1) = nameOf t) (code : ErrorCode) (complaint : Text) :
    lookupNamed nameOf [t] code complaint table = .ok (t, 0) := by
  have hfind : [t].zipIdx.find? (fun entry => svToCstr table (maxTableNameSize + 1)
      == nameOf entry.1) = some (t, 0) := List.find?_cons_of_pos (beq_iff_eq.2 h)
  rw [lookupNamed, hfind]

theorem lookupNamed_map {T' : Type} (f : T → T') (nameOf : T' → Text) (tables : List T)
    (code : ErrorCode) (complaint table : Text) :
    lookupNamed nameOf (tables.map f) code complaint table
      = (lookupNamed (fun t => nameOf (f t)) tables code complaint table).map
          fun entry => (f entry.1, entry.2) := by
  unfold lookupNamed
  dsimp only
  rw [List.zipIdx_map, List.find?_map]
  let tableName := svToCstr table (maxTableNameSize + 1)
  show (match (tables.zipIdx.find? fun entry => tableName == nameOf (f entry.1)).map
      (Prod.map f id) with
    | some entry => Except.ok entry
    | none => errorFmt code (text "Table '" ++ tableName ++ complaint)) = _
  cases tables.zipIdx.find? fun entry => tableName == nameOf (f entry.1) <;> rfl

/-- The table that a pipeline finds has the name of the statement. -/
theorem lookupStages_eq_ok {nameOf : T → Text} {tables : List T} {q : Query} {t : T} {pos : Nat}
    (h : lookupStages (lookupNamed nameOf tables) q = .ok (t, pos)) :
    tables[pos]? = some t ∧
      q.namedTable.map (fun name => svToCstr name (maxTableNameSize + 1)) = some (nameOf t) := by
  have hlookup : ∃ code complaint table, q.namedTable = some table ∧
      lookupNamed nameOf tables code complaint table = .ok (t, pos) := by
    cases q with
    | createTable | showTables | showIndexTypes | unknown => cases h
    | showTable | showIndex => exact ⟨_, _, _, rfl, h⟩
    | select | insert | update | delete | dropTable | truncateTable | createIndex | dropIndex =>
      obtain ⟨-, -, h⟩ := bind_eq_ok.1 h
      exact ⟨_, _, _, rfl, h⟩
  obtain ⟨code, complaint, table, hname, hlookup⟩ := hlookup
  obtain ⟨hpos, heq⟩ := lookupNamed_eq_ok hlookup
  refine ⟨hpos, ?_⟩
  rw [hname, heq]
  rfl

/-- Related lists have related tables under one name at one position. -/
theorem lookupNamed_related {T' : Type} {nameOf : T → Text} {nameOf' : T' → Text}
    {R : T → T' → Prop} (hR : ∀ {a b}, R a b → nameOf a = nameOf' b) {tables : List T}
    {tables' : List T'} (h : List.Forall₂ R tables tables') (code : ErrorCode)
    (complaint table : Text) :
    (∃ e, lookupNamed nameOf tables code complaint table = .error e ∧
      lookupNamed nameOf' tables' code complaint table = .error e) ∨
    ∃ a b pos, R a b ∧ lookupNamed nameOf tables code complaint table = .ok (a, pos) ∧
      lookupNamed nameOf' tables' code complaint table = .ok (b, pos) := by
  have hfind : ∀ start, ((tables.zipIdx start).find? fun entry =>
        svToCstr table (maxTableNameSize + 1) == nameOf entry.1) = none ∧
        ((tables'.zipIdx start).find? fun entry =>
          svToCstr table (maxTableNameSize + 1) == nameOf' entry.1) = none ∨
      ∃ a b pos, R a b ∧ ((tables.zipIdx start).find? fun entry =>
        svToCstr table (maxTableNameSize + 1) == nameOf entry.1) = some (a, pos) ∧
        ((tables'.zipIdx start).find? fun entry =>
          svToCstr table (maxTableNameSize + 1) == nameOf' entry.1) = some (b, pos) := by
    induction h with
    | nil => exact fun start => .inl ⟨rfl, rfl⟩
    | @cons a b tables tables' hab _ ih =>
      intro start
      rw [List.zipIdx_cons, List.zipIdx_cons, List.find?_cons, List.find?_cons, hR hab]
      cases svToCstr table (maxTableNameSize + 1) == nameOf' b with
      | true => exact .inr ⟨a, b, start, hab, rfl, rfl⟩
      | false => exact ih (start + 1)
  unfold lookupNamed
  rcases hfind 0 with ⟨hnone, hnone'⟩ | ⟨a, b, pos, hab, hsome, hsome'⟩
  · simp only [hnone, hnone']
    exact .inl ⟨_, rfl, rfl⟩
  · simp only [hsome, hsome']
    exact .inr ⟨a, b, pos, hab, rfl, rfl⟩

/-- So have the stages up to the lookup. -/
theorem lookupStages_related {α β : Type} {lookup : ErrorCode → Text → Text → Except Error α}
    {lookup' : ErrorCode → Text → Text → Except Error β} {R : α → β → Prop}
    (h : ∀ code complaint table, (∃ e, lookup code complaint table = .error e ∧
        lookup' code complaint table = .error e) ∨
      ∃ a b, R a b ∧ lookup code complaint table = .ok a ∧ lookup' code complaint table = .ok b)
    (q : Query) :
    (∃ e, lookupStages lookup q = .error e ∧ lookupStages lookup' q = .error e) ∨
      ∃ a b, R a b ∧ lookupStages lookup q = .ok a ∧ lookupStages lookup' q = .ok b := by
  have hvalidated : ∀ (validate : Except Error Unit) (code : ErrorCode) (complaint table : Text),
      (∃ e, (do validate; lookup code complaint table) = .error e ∧
        (do validate; lookup' code complaint table) = .error e) ∨
      ∃ a b, R a b ∧ (do validate; lookup code complaint table) = .ok a ∧
        (do validate; lookup' code complaint table) = .ok b := by
    intro validate code complaint table
    cases validate with
    | error e => exact .inl ⟨e, rfl, rfl⟩
    | ok _ => exact h code complaint table
  cases q with
  | createTable | showTables | showIndexTypes | unknown => exact .inl ⟨_, rfl, rfl⟩
  | showTable | showIndex => exact h _ _ _
  | select | insert | update | delete | dropTable | truncateTable | createIndex | dropIndex =>
    exact hvalidated _ _ _ _

end Lookup

/-! ## Pipelines -/

section Pipelines

variable {T : Type} (K : TableKind T) (strtof : Strtof) (unwritten : Unwritten)
  (printFloat : FloatFormat)

/-- The stages behind the lookup. -/
def TableKind.onTable (t : T) : Query → Checked (Except Error (T × Response))
  | .select stmt => do return (← K.select t stmt).map (t, ·)
  | .insert stmt => K.answer t (.insert stmt)
  | .update stmt => K.answer t (.update stmt)
  | .delete stmt => K.answer t (.delete stmt)
  | .truncateTable stmt => K.answer t (.truncate stmt)
  | .createIndex stmt => K.answer t (.createIndex stmt)
  | .dropIndex stmt => K.answer t (.dropIndex stmt)
  | .showTable _ => do
    let rows ← showTableRows unwritten printFloat (K.schema t) (K.indexMeta t)
    return .ok (t, .cells showTableNames rows)
  | .showIndex _ => do
    let rows ← showIndexRows (K.indexMeta t)
    return .ok (t, .cells showIndexNames rows)
  | .dropTable _ | .createTable _ | .showTables | .showIndexTypes | .unknown =>
    return errorFmt .internal (text "No pipeline defined for query type")

/-- A pipeline that looks a table up. -/
def TableKind.runOnTable (q : Query) : Prog (List T) (Except Error Response) := do
  let tables ← get
  match lookupStages (lookupNamed K.name tables) q with
  | .error e => return .error e
  | .ok (t, pos) =>
    match ← K.onTable unwritten printFloat t q with
    | .error e => return .error e
    | .ok (t, response) =>
      set (tables.set pos t)
      return .ok response

/-- `pipeline_run` over a list of tables. -/
def pipelineRun : Query → Prog (List T) (Except Error Response)
  | .createTable stmt => do
    let tables ← get
    match (do validateCreateTable stmt; planCreateTable strtof (tables.map K.name) stmt) with
    | .error e => return .error e
    | .ok schema =>
      set (tables ++ [K.create schema])
      return .ok .ok
  | .dropTable stmt => do
    let tables ← get
    match lookupStages (lookupNamed K.name tables) (.dropTable stmt) with
    | .error e => return .error e
    | .ok (_, pos) =>
      set (tables.eraseIdx pos)
      return .ok .ok
  | .showTables => do
    let tables ← get
    return .ok (.cells showTablesNames (tables.map fun t => [K.name t]))
  | .showIndexTypes => return .ok (.cells showIndexTypesNames showIndexTypesRows)
  | .unknown => return errorFmt .internal (text "No pipeline defined for query type")
  | q => K.runOnTable unwritten printFloat q

theorem TableKind.exists_of_runOnTable {q : Query} {tables tables' : List T} {response : Response}
    (h : Runs (K.runOnTable unwritten printFloat q) tables (.ok response) tables') :
    ∃ t pos t', lookupStages (lookupNamed K.name tables) q = .ok (t, pos) ∧
      K.onTable unwritten printFloat t q = .ok (.ok (t', response)) ∧
      tables' = tables.set pos t' := by
  have hrest := Runs.rest (Runs.get tables) h
  cases hlookup : lookupStages (lookupNamed K.name tables) q with
  | error e =>
    rw [hlookup] at hrest
    cases hrest
  | ok entry =>
    obtain ⟨t, pos⟩ := entry
    rw [hlookup] at hrest
    obtain ⟨result, _, hlift, hrest⟩ := hrest.exists_of_bind
    obtain ⟨hresult, -⟩ := hlift.eq_of_lift
    cases result with
    | error e => cases hrest
    | ok pair =>
      cases hrest
      exact ⟨t, pos, pair.1, rfl, hresult, rfl⟩

/-- `engine_run`: the pipeline of the query, if the text is one. -/
def engineRun {S α : Type} (pipeline : Query → Prog S (Except Error α)) (input : Text) :
    Prog S (Except Error α) := do
  match ← (parseInput input : Checked (Query × Option Error)) with
  | (_, some e) => return .error e
  | (q, none) => pipeline q

end Pipelines

/-! ## Simulations -/

section Simulations

variable {T T' : Type} {K : TableKind T} {K' : TableKind T'} {R : T → T' → Prop}
  {Ok : T' → Query → Prop} {strtof : Strtof} {unwritten : Unwritten} {printFloat : FloatFormat}

/-- Related tables answer alike what meets `Ok`. -/
structure TableKind.Simulates (K : TableKind T) (K' : TableKind T') (R : T → T' → Prop)
    (Ok : T' → Query → Prop) : Prop where
  schema : ∀ {t t'}, R t t' → K.schema t = K'.schema t'
  indexMeta : ∀ {t t'}, R t t' → K.indexMeta t = K'.indexMeta t'
  create : ∀ {schema}, SchemaSound schema → R (K.create schema) (K'.create schema)
  select : ∀ {t t' stmt result}, R t t' → Ok t' (.select stmt) →
    K'.select t' stmt = .ok result → K.select t stmt = .ok result
  answer : ∀ {t t' s result'}, R t t' → Ok t' s.toQuery → K'.answer t' s = .ok result' →
    ∃ result, K.answer t s = .ok result ∧ Matches R result result'

/-- The table that the text names meets `Ok` with its query. -/
def NamedMeets (K' : TableKind T') (Ok : T' → Query → Prop) (tables : List T') (input : Text) :
    Prop :=
  ∀ q t' pos, parseInput input = .ok (q, none) →
    lookupStages (lookupNamed K'.name tables) q = .ok (t', pos) → Ok t' q

theorem TableKind.Simulates.name (h : K.Simulates K' R Ok) {t : T} {t' : T'} (hR : R t t') :
    K.name t = K'.name t' := by
  rw [TableKind.name, h.schema hR]
  rfl

theorem TableKind.Simulates.names (h : K.Simulates K' R Ok) {tables : List T}
    {tables' : List T'} (hR : List.Forall₂ R tables tables') :
    tables.map K.name = tables'.map K'.name := by
  induction hR with
  | nil => rfl
  | cons hfirst _ ih => rw [List.map_cons, List.map_cons, h.name hfirst, ih]

/-- A statement on related tables. -/
theorem TableKind.Simulates.onTable (h : K.Simulates K' R Ok) {t : T} {t' : T'} {q : Query}
    {result' : Except Error (T' × Response)} (hR : R t t') (hok : Ok t' q)
    (hrun : K'.onTable unwritten printFloat t' q = .ok result') :
    ∃ result, K.onTable unwritten printFloat t q = .ok result ∧ Matches R result result' := by
  cases q with
  | select stmt =>
    obtain ⟨answer, hanswer, hrun⟩ := Checked.bind_eq_ok.1 hrun
    cases hrun
    refine ⟨answer.map (t, ·), ?_, ?_⟩
    · show (do return (← K.select t stmt).map (t, ·)) = _
      rw [h.select hR hok hanswer]
      rfl
    · cases answer with
      | error e => exact .error e
      | ok response => exact .ok hR response
  | insert stmt => exact h.answer (s := .insert stmt) hR hok hrun
  | update stmt => exact h.answer (s := .update stmt) hR hok hrun
  | delete stmt => exact h.answer (s := .delete stmt) hR hok hrun
  | truncateTable stmt => exact h.answer (s := .truncate stmt) hR hok hrun
  | createIndex stmt => exact h.answer (s := .createIndex stmt) hR hok hrun
  | dropIndex stmt => exact h.answer (s := .dropIndex stmt) hR hok hrun
  | showTable stmt =>
    obtain ⟨rows, hrows, hrun⟩ := Checked.bind_eq_ok.1 hrun
    cases hrun
    refine ⟨.ok (t, .cells showTableNames rows), ?_, .ok hR _⟩
    rw [TableKind.onTable, h.schema hR, h.indexMeta hR, hrows]
    rfl
  | showIndex stmt =>
    obtain ⟨rows, hrows, hrun⟩ := Checked.bind_eq_ok.1 hrun
    cases hrun
    refine ⟨.ok (t, .cells showIndexNames rows), ?_, .ok hR _⟩
    rw [TableKind.onTable, h.indexMeta hR, hrows]
    rfl
  | dropTable | createTable | showTables | showIndexTypes | unknown =>
    cases hrun
    exact ⟨_, rfl, .error _⟩

theorem forall₂_set_set {as : List T} {bs : List T'} (h : List.Forall₂ R as bs) {a : T} {b : T'}
    (hab : R a b) (pos : Nat) : List.Forall₂ R (as.set pos a) (bs.set pos b) := by
  induction h generalizing pos with
  | nil => exact .nil
  | cons hfirst hrest ih =>
    cases pos with
    | zero => exact .cons hab hrest
    | succ pos => exact .cons hfirst (ih pos)

theorem forall₂_eraseIdx {as : List T} {bs : List T'} (h : List.Forall₂ R as bs) (pos : Nat) :
    List.Forall₂ R (as.eraseIdx pos) (bs.eraseIdx pos) := by
  induction h generalizing pos with
  | nil => exact .nil
  | cons hfirst hrest ih =>
    cases pos with
    | zero => exact hrest
    | succ pos => exact .cons hfirst (ih pos)

/-- The lookup of a table in related lists. -/
theorem TableKind.Simulates.lookup (h : K.Simulates K' R Ok) {tables : List T}
    {tables' : List T'} (hR : List.Forall₂ R tables tables') (q : Query) :
    (∃ e, lookupStages (lookupNamed K.name tables) q = .error e ∧
      lookupStages (lookupNamed K'.name tables') q = .error e) ∨
    ∃ t t' pos, R t t' ∧ lookupStages (lookupNamed K.name tables) q = .ok (t, pos) ∧
      lookupStages (lookupNamed K'.name tables') q = .ok (t', pos) := by
  have hlookup : ∀ code complaint table,
      (∃ e, lookupNamed K.name tables code complaint table = .error e ∧
        lookupNamed K'.name tables' code complaint table = .error e) ∨
      ∃ (x : T × Nat) (y : T' × Nat), (R x.1 y.1 ∧ x.2 = y.2) ∧
        lookupNamed K.name tables code complaint table = .ok x ∧
        lookupNamed K'.name tables' code complaint table = .ok y := by
    intro code complaint table
    rcases lookupNamed_related (fun hab => h.name hab) hR code complaint table with
      herror | ⟨a, b, pos, hab, ha, hb⟩
    · exact .inl herror
    · exact .inr ⟨(a, pos), (b, pos), ⟨hab, rfl⟩, ha, hb⟩
  rcases lookupStages_related hlookup q with herror | ⟨⟨t, pos⟩, ⟨t', _⟩, ⟨hab, rfl⟩, ht, ht'⟩
  · exact .inl herror
  · exact .inr ⟨t, t', pos, hab, ht, ht'⟩

/-- A pipeline that looks a table up. -/
theorem TableKind.Simulates.runOnTable (h : K.Simulates K' R Ok) {tables : List T}
    {tables' tables'' : List T'} {q : Query} {answer : Except Error Response}
    (hR : List.Forall₂ R tables tables')
    (hok : ∀ t' pos, lookupStages (lookupNamed K'.name tables') q = .ok (t', pos) → Ok t' q)
    (hrun : Runs (K'.runOnTable unwritten printFloat q) tables' answer tables'') :
    ∃ tables₁, Runs (K.runOnTable unwritten printFloat q) tables answer tables₁ ∧
      List.Forall₂ R tables₁ tables'' := by
  have hrest := Runs.rest (Runs.get tables') hrun
  rcases h.lookup hR q with ⟨e, he, he'⟩ | ⟨t, t', pos, hab, ht, ht'⟩
  · rw [he'] at hrest
    cases hrest
    refine ⟨tables, Runs.bind (Runs.get tables) ?_, hR⟩
    rw [he]
    exact Runs.pure _ _
  · rw [ht'] at hrest
    obtain ⟨result', _, hlift, hrest⟩ := hrest.exists_of_bind
    obtain ⟨hresult', rfl⟩ := hlift.eq_of_lift
    obtain ⟨result, hresult, hmatches⟩ := h.onTable hab (hok t' pos ht') hresult'
    have hget' : ∀ {tables₁}, Runs (match result with
        | .error e => return .error e
        | .ok (t, response) => do
          set (tables.set pos t)
          return .ok response : Prog (List T) (Except Error Response)) tables answer tables₁ →
        Runs (K.runOnTable unwritten printFloat q) tables answer tables₁ := by
      intro tables₁ hf
      refine Runs.bind (Runs.get tables) ?_
      rw [ht]
      exact Runs.bind (Runs.lift hresult _) hf
    cases hmatches with
    | error e =>
      cases hrest
      exact ⟨tables, hget' (Runs.pure _ _), hR⟩
    | ok hnew response =>
      cases hrest
      exact ⟨_, hget' rfl, forall₂_set_set hR hnew pos⟩

theorem TableKind.Simulates.createTable (h : K.Simulates K' R Ok) {tables : List T}
    {tables' tables'' : List T'} {stmt : CreateTableStmt} {answer : Except Error Response}
    (hR : List.Forall₂ R tables tables')
    (hrun : Runs (pipelineRun K' strtof unwritten printFloat (.createTable stmt)) tables' answer
      tables'') :
    ∃ tables₁, Runs (pipelineRun K strtof unwritten printFloat (.createTable stmt)) tables answer
      tables₁ ∧ List.Forall₂ R tables₁ tables'' := by
  have hrest := Runs.rest (Runs.get tables') hrun
  rw [← h.names hR] at hrest
  cases hplan : (do
      validateCreateTable stmt
      planCreateTable strtof (tables.map K.name) stmt) with
  | error e =>
    rw [hplan] at hrest
    cases hrest
    refine ⟨tables, Runs.bind (Runs.get tables) ?_, hR⟩
    rw [hplan]
    exact Runs.pure _ _
  | ok schema =>
    rw [hplan] at hrest
    cases hrest
    refine ⟨tables ++ [K.create schema], Runs.bind (Runs.get tables) ?_, ?_⟩
    · rw [hplan]
      rfl
    · obtain ⟨⟨⟩, hvalidate, hplan⟩ := bind_eq_ok.1 hplan
      exact List.rel_append hR (.cons (h.create (schemaSound_of_plan hvalidate hplan)) .nil)

theorem TableKind.Simulates.dropTable (h : K.Simulates K' R Ok) {tables : List T}
    {tables' tables'' : List T'} {stmt : DropTableStmt} {answer : Except Error Response}
    (hR : List.Forall₂ R tables tables')
    (hrun : Runs (pipelineRun K' strtof unwritten printFloat (.dropTable stmt)) tables' answer
      tables'') :
    ∃ tables₁, Runs (pipelineRun K strtof unwritten printFloat (.dropTable stmt)) tables answer
      tables₁ ∧ List.Forall₂ R tables₁ tables'' := by
  have hrest := Runs.rest (Runs.get tables') hrun
  rcases h.lookup hR (.dropTable stmt) with ⟨e, he, he'⟩ | ⟨t, t', pos, -, ht, ht'⟩
  · rw [he'] at hrest
    cases hrest
    refine ⟨tables, Runs.bind (Runs.get tables) ?_, hR⟩
    rw [he]
    exact Runs.pure _ _
  · rw [ht'] at hrest
    cases hrest
    refine ⟨tables.eraseIdx pos, Runs.bind (Runs.get tables) ?_, forall₂_eraseIdx hR pos⟩
    rw [ht]
    rfl

/-- `pipeline_run` on related lists of tables. -/
theorem TableKind.Simulates.pipelineRun (h : K.Simulates K' R Ok) {tables : List T}
    {tables' tables'' : List T'} {q : Query} {answer : Except Error Response}
    (hR : List.Forall₂ R tables tables')
    (hok : ∀ t' pos, lookupStages (lookupNamed K'.name tables') q = .ok (t', pos) → Ok t' q)
    (hrun : Runs (pipelineRun K' strtof unwritten printFloat q) tables' answer tables'') :
    ∃ tables₁, Runs (pipelineRun K strtof unwritten printFloat q) tables answer tables₁ ∧
      List.Forall₂ R tables₁ tables'' := by
  cases q with
  | createTable stmt => exact h.createTable hR hrun
  | dropTable stmt => exact h.dropTable hR hrun
  | showTables =>
    cases hrun
    refine ⟨tables, ?_, hR⟩
    have hcells : (tables.map fun t => [K.name t]) = tables'.map fun t => [K'.name t] := by
      have hnames := congrArg (List.map fun name => [name]) (h.names hR)
      rw [List.map_map, List.map_map] at hnames
      exact hnames
    rw [← hcells]
    rfl
  | showIndexTypes | unknown =>
    cases hrun
    exact ⟨tables, rfl, hR⟩
  | select | insert | update | delete | truncateTable | createIndex | dropIndex | showTable
  | showIndex => exact h.runOnTable hR hok hrun

end Simulations

end Maxql
