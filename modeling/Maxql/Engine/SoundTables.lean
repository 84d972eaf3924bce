import Maxql.Engine.Database
import Maxql.Engine.Refines
import Maxql.Schema.Planned

/-!
# What the tables of a database keep

From an empty list of tables on, whatever texts the engine gets: no two tables
have one name, every name is an identifier that fits, every schema is one that
CREATE TABLE makes, and the indexes of a table are some that CREATE INDEX has
made, under different names.

The groups are the indexes of a table, the kinds of tables for which this
holds, the pipelines, and whole scripts.

* `logicalTables_lawful`, `databaseTables_lawful`: the two kinds;
* `SoundTables.engineRun`: what one text keeps;
* `script_keeps_tables`: what every script keeps.
-/

namespace Maxql

open Program Bytes Simulation KeyedList

/-! ## Indexes -/

/-- The planner makes the same of a statement next to some of the indexes. -/
theorem planCreateIndex_sublist {schema : TableSchema} {fewer all : IndexMeta}
    (hsub : fewer.Sublist all) {stmt : CreateIndexStmt} {indexDef : IndexDefinition}
    (h : planCreateIndex schema all stmt = .ok indexDef) :
    planCreateIndex schema fewer stmt = .ok indexDef := by
  unfold planCreateIndex at h ⊢
  split at h
  · cases h
  · next hroom =>
    have hlen := hsub.length_le
    rw [if_neg (by omega)]
    dsimp only at h ⊢
    split at h
    · cases h
    · next hnew =>
      have hnew' :
          ¬(getIndexDef fewer (svToCstr stmt.name (maxIndexNameSize + 1))).isSome = true := by
        intro hfound
        apply hnew
        unfold getIndexDef at hfound ⊢
        rw [List.find?_isSome] at hfound ⊢
        obtain ⟨d, hd, hname⟩ := hfound
        exact ⟨d, hsub.subset hd, hname⟩
      rw [if_neg hnew']
      exact h

/-- An index that goes leaves indexes that CREATE INDEX makes. -/
theorem BuiltIndexes.eraseIdx {schema : TableSchema} {indexMeta : IndexMeta}
    (h : BuiltIndexes schema indexMeta) (pos : Nat) :
    BuiltIndexes schema (indexMeta.eraseIdx pos) := by
  induction h with
  | none => exact .none
  | @create indexMeta input stmt indexDef hmeta hparse hvalidate hplan ih =>
    by_cases hpos : pos < indexMeta.length
    · rw [List.eraseIdx_append_of_lt_length hpos]
      exact .create ih hparse hvalidate
        (planCreateIndex_sublist (List.eraseIdx_sublist _ _) hplan)
    · rw [List.eraseIdx_append_of_length_le (Nat.not_lt.1 hpos)]
      cases hlast : pos - indexMeta.length with
      | zero =>
        rw [List.eraseIdx_cons_zero, List.append_nil]
        exact hmeta
      | succ n =>
        rw [List.eraseIdx_cons_succ, List.eraseIdx_nil]
        exact .create hmeta hparse hvalidate hplan

/-- The planner refuses a name that is there. -/
theorem planCreateIndex_name {schema : TableSchema} {indexMeta : IndexMeta}
    {stmt : CreateIndexStmt} {indexDef : IndexDefinition}
    (h : planCreateIndex schema indexMeta stmt = .ok indexDef) :
    indexDef.name ∉ indexMeta.map (·.name) := by
  unfold planCreateIndex at h
  split at h
  · cases h
  · dsimp only at h
    split at h
    · cases h
    · next hnew =>
      obtain ⟨vtable, -, h⟩ := bind_eq_ok.1 h
      split at h
      · cases h
      · obtain ⟨parts, -, h⟩ := bind_eq_ok.1 h
        cases h
        intro hmem
        obtain ⟨d, hd, hname⟩ := List.mem_map.1 hmem
        apply hnew
        unfold getIndexDef
        rw [List.find?_isSome]
        exact ⟨d, hd, beq_iff_eq.2 hname⟩

theorem BuiltIndexes.names {schema : TableSchema} {indexMeta : IndexMeta}
    (h : BuiltIndexes schema indexMeta) : (indexMeta.map (·.name)).Nodup := by
  induction h with
  | none => exact List.nodup_nil
  | create _ _ _ hplan ih =>
    rw [List.map_append, List.map_singleton, ← List.concat_eq_append]
    exact List.Nodup.concat (planCreateIndex_name hplan) ih

/-! ## Kinds of tables -/

/-- What becomes of the indexes of a table. -/
inductive IndexStep (schema : TableSchema) (indexMeta : IndexMeta) : Statement → IndexMeta → Prop
  | same (s : Statement) : IndexStep schema indexMeta s indexMeta
  | create {stmt : CreateIndexStmt} {indexDef : IndexDefinition}
      (hvalidate : validateCreateIndex stmt = .ok ())
      (hplan : planCreateIndex schema indexMeta stmt = .ok indexDef) :
      IndexStep schema indexMeta (.createIndex stmt) (indexMeta ++ [indexDef])
  | drop (stmt : DropIndexStmt) (pos : Nat) :
      IndexStep schema indexMeta (.dropIndex stmt) (indexMeta.eraseIdx pos)

theorem IndexStep.of_eq {schema : TableSchema} {indexMeta indexMeta' : IndexMeta} {s : Statement}
    (h : indexMeta' = indexMeta) : IndexStep schema indexMeta s indexMeta' := by
  rw [h]
  exact .same s

/-- A kind of tables whose statements change the definitions as those of the source do. -/
structure TableKind.Lawful {T : Type} (K : TableKind T) : Prop where
  create_schema : ∀ schema, K.schema (K.create schema) = schema
  create_indexMeta : ∀ schema, K.indexMeta (K.create schema) = []
  answer_schema : ∀ {t s t' response}, K.answer t s = .ok (.ok (t', response)) →
    K.schema t' = K.schema t
  answer_indexMeta : ∀ {t s t' response}, K.answer t s = .ok (.ok (t', response)) →
    IndexStep (K.schema t) (K.indexMeta t) s (K.indexMeta t')

theorem LogicalTable.answer_step [UnionMemory] {strtof : Strtof} {l l' : LogicalTable}
    {s : Statement} {response : Response} (h : l.answer strtof s = .ok (l', response)) :
    l'.schema = l.schema ∧ IndexStep l.schema l.table.indexes s l'.table.indexes := by
  cases s with
  | insert stmt =>
    obtain ⟨values, -, h⟩ := bind_eq_ok.1 h
    split at h
    · cases h
    · next table htable =>
      cases h
      refine ⟨rfl, ?_⟩
      rw [Keyed.indexes_of_insert htable]
      exact .same _
  | delete stmt =>
    obtain ⟨filter, -, h⟩ := bind_eq_ok.1 h
    cases h
    exact ⟨rfl, .same _⟩
  | update stmt =>
    obtain ⟨plan, -, h⟩ := bind_eq_ok.1 h
    split at h
    · cases h
    · cases h
    · next table htable =>
      cases h
      refine ⟨rfl, ?_⟩
      rw [Keyed.indexes_of_update htable]
      exact .same _
  | createIndex stmt =>
    obtain ⟨indexDef, hplan, h⟩ := bind_eq_ok.1 h
    obtain ⟨⟨⟩, hvalidate, hplan⟩ := bind_eq_ok.1 hplan
    obtain ⟨-, -, hplan⟩ := bind_eq_ok.1 hplan
    split at h
    · cases h
    · next table htable =>
      cases h
      refine ⟨rfl, ?_⟩
      rw [Keyed.indexes_of_addIndex htable]
      exact .create hvalidate hplan
  | dropIndex stmt =>
    obtain ⟨pos, -, h⟩ := bind_eq_ok.1 h
    cases h
    exact ⟨rfl, .drop stmt pos⟩
  | truncate stmt =>
    obtain ⟨-, -, h⟩ := bind_eq_ok.1 h
    cases h
    exact ⟨rfl, .same _⟩

theorem logicalTables_lawful [UnionMemory] (strtof : Strtof) : (logicalTables strtof).Lawful where
  create_schema := fun _ => rfl
  create_indexMeta := fun _ => rfl
  answer_schema := fun h => (LogicalTable.answer_step (Except.ok.inj h)).1
  answer_indexMeta := fun h => (LogicalTable.answer_step (Except.ok.inj h)).2

theorem answerStatement_step [UnionMemory] {strtof : Strtof} {t t' : TableState} {s : Statement}
    {response : Response} (h : answerStatement strtof t s = .ok (.ok (t', response))) :
    t'.schema = t.schema ∧ IndexStep t.schema t.indexMeta s t'.indexMeta := by
  have hstep := statementStep_of_run (answerStatement_state h)
  cases s with
  | createIndex stmt =>
    obtain ⟨result, hrun, h⟩ := Checked.bind_eq_ok.1 h
    cases result with
    | error e => cases h
    | ok t'' =>
      cases h
      obtain ⟨indexDef, hplan, hrun⟩ := runStages_eq_ok.1 hrun
      obtain ⟨⟨⟩, hvalidate, hplan⟩ := bind_eq_ok.1 hplan
      obtain ⟨-, -, hplan⟩ := bind_eq_ok.1 hplan
      obtain ⟨filled, -, hrun⟩ := Checked.bind_eq_ok.1 hrun
      cases filled with
      | error e => cases hrun
      | ok index =>
        cases hrun
        refine ⟨rfl, ?_⟩
        show IndexStep t.schema t.indexMeta _ ((t.indexes ++ [(indexDef, index)]).map Prod.fst)
        rw [List.map_append]
        exact .create hvalidate hplan
  | insert stmt =>
    cases hstep with
    | insert _ _ _ hindex => exact ⟨rfl, .of_eq (indexSetInsert_meta hindex)⟩
  | delete stmt =>
    cases hstep with
    | delete _ _ _ hindex => exact ⟨rfl, .of_eq (deleteFromIndexes_meta hindex)⟩
  | update stmt =>
    cases hstep with
    | update _ _ _ _ hwrite =>
      obtain ⟨hschema, hmeta⟩ := writeUpdates_meta hwrite
      exact ⟨hschema, .of_eq hmeta⟩
  | dropIndex stmt =>
    cases hstep with
    | dropIndex pos =>
      refine ⟨rfl, ?_⟩
      show IndexStep t.schema t.indexMeta _ ((t.indexes.eraseIdx pos).map Prod.fst)
      rw [← List.eraseIdx_map]
      exact .drop stmt pos
  | truncate stmt =>
    cases hstep with
    | truncate =>
      refine ⟨rfl, .of_eq ?_⟩
      show (t.indexes.map fun entry => (entry.1, indexCreate)).map Prod.fst = t.indexMeta
      rw [List.map_map]
      rfl

theorem databaseTables_lawful [UnionMemory] (strtof : Strtof) : (databaseTables strtof).Lawful where
  create_schema := fun _ => rfl
  create_indexMeta := fun _ => rfl
  answer_schema := fun h => (answerStatement_step h).1
  answer_indexMeta := fun h => (answerStatement_step h).2

/-! ## Pipelines -/

section Pipelines

variable {T : Type} {K : TableKind T} {strtof : Strtof} {unwritten : Unwritten}
  {printFloat : FloatFormat}

/-- What the engine keeps of a list of tables. -/
structure SoundTables (K : TableKind T) (tables : List T) : Prop where
  names : (tables.map K.name).Nodup
  valid : ∀ t ∈ tables, ValidName (K.name t)
  planned : ∀ t ∈ tables, PlannedTable (K.schema t)
  built : ∀ t ∈ tables, BuiltIndexes (K.schema t) (K.indexMeta t)

theorem SoundTables.nil (K : TableKind T) : SoundTables K [] :=
  ⟨List.nodup_nil, nofun, nofun, nofun⟩

/-- A table of a parsed statement. -/
theorem SoundTables.create (hK : K.Lawful) {tables : List T} (h : SoundTables K tables)
    {input : Text} {stmt : CreateTableStmt} {schema : TableSchema}
    (hparse : parseInput input = .ok (.createTable stmt, none))
    (hvalidate : validateCreateTable stmt = .ok ())
    (hplan : planCreateTable strtof (tables.map K.name) stmt = .ok schema) :
    SoundTables K (tables ++ [K.create schema]) := by
  have hcreate : K.schema (K.create schema) = schema := hK.create_schema schema
  have hname : K.name (K.create schema) = schema.tableName := congrArg (·.tableName) hcreate
  have hplanned := plannedTable_of_plan hparse hvalidate hplan
  obtain ⟨-, hvalid⟩ := parsed_valid hparse
  have hident : isIdentifier stmt.table = true := by
    apply hvalid (identToken stmt.table)
    exact List.mem_append_right _ List.mem_cons_self
  have hfits : stmt.table.length ≤ maxTableNameSize := by
    unfold validateCreateTable at hvalidate
    split at hvalidate
    · cases hvalidate
    · obtain ⟨-, -, hvalidate⟩ := bind_eq_ok.1 hvalidate
      split at hvalidate
      · cases hvalidate
      · next hlen => exact Nat.not_lt.1 hlen
  obtain ⟨hnew, htableName⟩ : schema.tableName ∉ tables.map K.name ∧
      schema.tableName = stmt.table := by
    unfold planCreateTable at hplan
    dsimp only at hplan
    split at hplan
    · cases hplan
    · next hnew =>
      obtain ⟨columns, -, hplan⟩ := bind_eq_ok.1 hplan
      cases hplan
      refine ⟨fun hmem => hnew (List.contains_iff_mem.2 hmem), ?_⟩
      exact svToCstr_eq (isIdentifier_zero_not_mem hident) hfits
  constructor
  · rw [List.map_append, List.map_singleton, hname, ← List.concat_eq_append]
    exact List.Nodup.concat hnew h.names
  · intro t ht
    rcases List.mem_append.1 ht with ht | ht
    · exact h.valid t ht
    · obtain rfl := List.mem_singleton.1 ht
      rw [hname, htableName]
      exact ⟨hfits, hident⟩
  · intro t ht
    rcases List.mem_append.1 ht with ht | ht
    · exact h.planned t ht
    · obtain rfl := List.mem_singleton.1 ht
      rw [hcreate]
      exact hplanned
  · intro t ht
    rcases List.mem_append.1 ht with ht | ht
    · exact h.built t ht
    · obtain rfl := List.mem_singleton.1 ht
      rw [hK.create_indexMeta]
      exact .none

theorem SoundTables.eraseIdx {tables : List T} (h : SoundTables K tables) (pos : Nat) :
    SoundTables K (tables.eraseIdx pos) where
  names := h.names.sublist ((List.eraseIdx_sublist _ _).map _)
  valid := fun t ht => h.valid t (List.mem_of_mem_eraseIdx ht)
  planned := fun t ht => h.planned t (List.mem_of_mem_eraseIdx ht)
  built := fun t ht => h.built t (List.mem_of_mem_eraseIdx ht)

/-- A table in the place of one with its schema. -/
theorem SoundTables.set {tables : List T} (h : SoundTables K tables) {pos : Nat} {t t' : T}
    (hpos : tables[pos]? = some t) (hschema : K.schema t' = K.schema t)
    (hbuilt : BuiltIndexes (K.schema t) (K.indexMeta t')) :
    SoundTables K (tables.set pos t') := by
  have ht := List.mem_of_getElem? hpos
  have hname : K.name t' = K.name t := congrArg (·.tableName) hschema
  constructor
  · have hnames : (tables.set pos t').map K.name = tables.map K.name := by
      rw [List.map_set, hname]
      apply List.ext_getElem?
      intro i
      rw [List.getElem?_set]
      split
      · next heq =>
        subst heq
        split
        · rw [List.getElem?_map, hpos]
          rfl
        · next hout =>
          rw [List.getElem?_eq_none (Nat.not_lt.1 hout)]
      · rfl
    rw [hnames]
    exact h.names
  · intro x hx
    rcases List.mem_or_eq_of_mem_set hx with hx | rfl
    · exact h.valid x hx
    · rw [hname]
      exact h.valid t ht
  · intro x hx
    rcases List.mem_or_eq_of_mem_set hx with hx | rfl
    · exact h.planned x hx
    · rw [hschema]
      exact h.planned t ht
  · intro x hx
    rcases List.mem_or_eq_of_mem_set hx with hx | rfl
    · exact h.built x hx
    · rw [hschema]
      exact hbuilt

/-- A statement of a parsed text keeps the indexes built. -/
theorem TableKind.Lawful.built (hK : K.Lawful) {input : Text} {q : Query} {t t' : T}
    {response : Response} (hparse : parseInput input = .ok (q, none))
    (hbuilt : BuiltIndexes (K.schema t) (K.indexMeta t))
    (hrun : K.onTable unwritten printFloat t q = .ok (.ok (t', response))) :
    K.schema t' = K.schema t ∧ BuiltIndexes (K.schema t) (K.indexMeta t') := by
  have hanswer : ∀ s : Statement, s.toQuery = q →
      K.answer t s = .ok (.ok (t', response)) →
      K.schema t' = K.schema t ∧ BuiltIndexes (K.schema t) (K.indexMeta t') := by
    intro s hs hrun
    refine ⟨hK.answer_schema hrun, ?_⟩
    have hstep := hK.answer_indexMeta hrun
    generalize K.indexMeta t' = indexMeta' at hstep ⊢
    cases hstep with
    | same => exact hbuilt
    | create hvalidate hplan =>
      subst hs
      exact .create hbuilt hparse hvalidate hplan
    | drop stmt pos => exact hbuilt.eraseIdx pos
  cases q with
  | insert stmt => exact hanswer (.insert stmt) rfl hrun
  | update stmt => exact hanswer (.update stmt) rfl hrun
  | delete stmt => exact hanswer (.delete stmt) rfl hrun
  | truncateTable stmt => exact hanswer (.truncate stmt) rfl hrun
  | createIndex stmt => exact hanswer (.createIndex stmt) rfl hrun
  | dropIndex stmt => exact hanswer (.dropIndex stmt) rfl hrun
  | select stmt =>
    obtain ⟨answer, -, hrun⟩ := Checked.bind_eq_ok.1 hrun
    cases answer <;> cases hrun
    exact ⟨rfl, hbuilt⟩
  | showTable stmt | showIndex stmt =>
    obtain ⟨rows, -, hrun⟩ := Checked.bind_eq_ok.1 hrun
    obtain ⟨rfl, -⟩ := Prod.mk.inj (Except.ok.inj (Except.ok.inj hrun))
    exact ⟨rfl, hbuilt⟩
  | dropTable | createTable | showTables | showIndexTypes | unknown => cases hrun

theorem SoundTables.runOnTable (hK : K.Lawful) {tables tables' : List T} (h : SoundTables K tables)
    {input : Text} {q : Query} {answer : Except Error Response}
    (hparse : parseInput input = .ok (q, none))
    (hrun : Runs (K.runOnTable unwritten printFloat q) tables answer tables') :
    SoundTables K tables' := by
  have hrest := Runs.rest (Runs.get tables) hrun
  cases hlookup : lookupStages (lookupNamed K.name tables) q with
  | error e =>
    rw [hlookup] at hrest
    cases hrest
    exact h
  | ok entry =>
    obtain ⟨t, pos⟩ := entry
    rw [hlookup] at hrest
    obtain ⟨result, _, hlift, hrest⟩ := hrest.exists_of_bind
    obtain ⟨hresult, rfl⟩ := hlift.eq_of_lift
    cases result with
    | error e =>
      cases hrest
      exact h
    | ok pair =>
      obtain ⟨t', response⟩ := pair
      cases hrest
      obtain ⟨hpos, -⟩ := lookupStages_eq_ok hlookup
      obtain ⟨hschema, hbuilt⟩ :=
        hK.built hparse (h.built t (List.mem_of_getElem? hpos)) hresult
      exact h.set hpos hschema hbuilt

/-- Every text keeps the tables sound. -/
theorem SoundTables.engineRun (hK : K.Lawful) {tables tables' : List T} (h : SoundTables K tables)
    {input : Text} {answer : Except Error Response}
    (hrun : Runs (engineRun (pipelineRun K strtof unwritten printFloat) input) tables answer
      tables') : SoundTables K tables' := by
  obtain ⟨⟨q, error⟩, _, hlift, hrest⟩ := hrun.exists_of_bind
  obtain ⟨hparse, rfl⟩ := hlift.eq_of_lift
  cases error with
  | some e =>
    cases hrest
    exact h
  | none =>
    cases q with
    | createTable stmt =>
      have hrest := Runs.rest (Runs.get tables) hrest
      cases hplan : (do
          validateCreateTable stmt
          planCreateTable strtof (tables.map K.name) stmt) with
      | error e =>
        rw [hplan] at hrest
        cases hrest
        exact h
      | ok schema =>
        rw [hplan] at hrest
        cases hrest
        obtain ⟨⟨⟩, hvalidate, hplan⟩ := bind_eq_ok.1 hplan
        exact h.create hK hparse hvalidate hplan
    | dropTable stmt =>
      have hrest := Runs.rest (Runs.get tables) hrest
      cases hlookup : lookupStages (lookupNamed K.name tables) (.dropTable stmt) with
      | error e =>
        rw [hlookup] at hrest
        cases hrest
        exact h
      | ok entry =>
        rw [hlookup] at hrest
        cases hrest
        exact h.eraseIdx entry.2
    | showTables | showIndexTypes | unknown =>
      cases hrest
      exact h
    | select | insert | update | delete | truncateTable | createIndex | dropIndex | showTable
    | showIndex => exact h.runOnTable hK hparse hrest

end Pipelines

/-! ## Scripts -/

/-- After any script, in whatever order and with whatever failed statements in it, the tables
have different names, which are names of tables; each schema is one that CREATE TABLE accepts;
and the indexes of each are those of accepted CREATE INDEX statements. -/
theorem script_keeps_tables [UnionMemory] (strtof : Strtof) (unwritten : Unwritten)
    (printFloat : FloatFormat)
    (inputs : List Text) (answers : List (Except Error Response)) (tables : List TableState)
    (hrun : Runs (script (engineRun (pipelineRun (databaseTables strtof) strtof unwritten
      printFloat)) inputs) [] answers tables) : SoundTables (databaseTables strtof) tables :=
  script_invariant (fun _ _ _ _ hsound hrun =>
    hsound.engineRun (databaseTables_lawful strtof) hrun) (SoundTables.nil _) hrun

open ClearedMemory

/-- A table with a default and an index, a name that is taken, and a second table. -/
def setupScript : List Text :=
  [text "create table t (c char(2), d int default 5)",
    text "create unique index i on t (d, c(1))",
    text "create table t (e int)", text "create table u (e float)"]

def setupSchema : TableSchema where
  tableName := text "t"
  columns := [⟨text "c", ⟨.char, 2, text "char(2)"⟩, false, .null⟩,
    ⟨text "d", ⟨.int, 4, text "int"⟩, true, .int 5⟩]

def setupIndex : IndexDefinition where
  name := text "i"
  type := .btree
  nodeSize := 4096
  keySize := 5
  isUnique := true
  parts := [⟨text "d", 1, 4, .int, .compareIntKeys⟩, ⟨text "c", 0, 1, .string, .compareStringKeys⟩]

def setupTables : List TableState :=
  [{ schema := setupSchema, dataFile := [], indexes := [(setupIndex, indexCreate)] },
    { schema := ⟨text "u", [⟨text "e", ⟨.float, 4, text "float"⟩, false, .null⟩]⟩
      dataFile := [], indexes := [] }]

theorem runs_setupScript (unwritten : Unwritten) :
    Runs (script (engineRun (pipelineRun (databaseTables noNumber) noNumber unwritten halfFormat))
      setupScript) []
      [.ok .ok, .ok .ok, errorFmt .planner (text "Table 't' already exists"), .ok .ok]
      setupTables :=
  runs_cons_script rfl (runs_cons_script rfl
    (runs_cons_script rfl (runs_cons_script rfl (Runs.pure _ _))))

theorem script_keeps_tables_setup : SoundTables (databaseTables noNumber) setupTables :=
  script_keeps_tables noNumber (fun size => Vector.replicate size 0) halfFormat setupScript _
    setupTables (runs_setupScript _)

end Maxql
