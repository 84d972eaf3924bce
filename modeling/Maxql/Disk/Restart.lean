import Maxql.Disk.Refines

/-!
# The start of the program

`app_context_init` of `src/context/context.c`: the tables are loaded from the
files, and every schema file is written again.

The groups are the functions and what they load.

* `loadTables_runs`: the names of the catalog and their tables;
* `appContextInit_runs`: the files give the tables back.
-/

namespace Maxql.Disk

open Program Bytes Simulation

/-! ## The functions -/

section Functions

variable (strtof : Strtof) (unwritten : Unwritten) (printFloat : FloatFormat)

/-- `schema_load_table` -/
def schemaLoadTable (tableName : Text) : Prog World (Except Error (TableSchema × IndexMeta)) := do
  let (schemaFile, fileError) ← openFile (.schema tableName) .read .storage
    (text "Schema file do not exists")
  match fileError with
  | .error e => return .error e
  | .ok () =>
    let content ← schemaFile.contents
    Maxql.schemaLoadTable strtof tableName content

/-- The loop of `database_load`. -/
def loadTables : (fuel : Nat) → List UInt8 → Prog World (Except Error Database)
  | 0, _ => liftM (Except.error Fault.outOfFuel : Checked (Except Error Database))
  | _ + 1, [] => return .ok []
  | fuel + 1, c :: file =>
    match strtok (fgets 63 (c :: file)).1 with
    | none => liftM (Except.error Fault.badAddress : Checked (Except Error Database))
    | some buffer =>
      if buffer.length > maxTableNameSize then
        return errorFmt .storage (text "Too long table name in catalog")
      else do
        match ← schemaLoadTable strtof buffer with
        | .error e => return .error e
        | .ok (schema, indexMeta) =>
          let tables ← loadTables fuel (fgets 63 (c :: file)).2
          return tables.map fun tables => { name := buffer, schema, indexMeta } :: tables

/-- `database_load`, with its file operations. -/
def loadDatabase : Prog World (Except Error Database) := do
  let (file, fileError) ← openFile .catalog .read .storage (text "Cannot open catalog file")
  match fileError with
  | .error e => return .error e
  | .ok () =>
    let content ← file.contents
    loadTables strtof (content.length + 1) content

/-- The loop of `app_context_init`.  The result of `schema_save_table` is not looked at. -/
def saveSchemas : Database → Prog World Unit
  | [] => return
  | table :: tables => do
    let _ ← schemaSaveTable unwritten printFloat table.schema (some table.indexMeta)
    saveSchemas tables

/-- An error ends the program. -/
def appContextInit : Prog World (Except Error Unit) := do
  match ← loadDatabase strtof with
  | .error e => return .error e
  | .ok tables =>
    modify fun w => { w with tables }
    saveSchemas unwritten printFloat tables
    return .ok ()

end Functions

/-! ## What is loaded -/

section Loaded

variable {strtof : Strtof} {unwritten : Unwritten} {printFloat : FloatFormat} {w : World}
  {database : DatabaseState}

/-- A name of the catalog and what is loaded for it. -/
theorem loadTables_next {fuel : Nat} {file line rest : Text} {table : TableMeta}
    {tables : Database} (hname : ValidName table.name) (hne : file ≠ [])
    (hline : fgets 63 file = (line, rest)) (htok : strtok line = some table.name)
    (hload : Runs (schemaLoadTable strtof table.name) w (.ok (table.schema, table.indexMeta)) w)
    (hrest : Runs (loadTables strtof fuel rest) w (.ok tables) w) :
    Runs (loadTables strtof (fuel + 1) file) w (.ok (table :: tables)) w := by
  obtain ⟨c, file, rfl⟩ := List.exists_cons_of_ne_nil hne
  rw [loadTables, hline]
  simp only [htok]
  rw [if_neg (Nat.not_lt_of_le hname.fits)]
  exact Runs.bind hload (Runs.bind hrest (Runs.pure _ _))

theorem loadTables_runs {tables : Database} (hvalid : ∀ t ∈ tables, ValidName t.name)
    (hshort : ∀ name ∈ (tables.map (·.name)).dropLast, name.length < maxTableNameSize)
    (hload : ∀ t ∈ tables,
      Runs (schemaLoadTable strtof t.name) w (.ok (t.schema, t.indexMeta)) w)
    {fuel : Nat} (hfuel : (shownText (tables.map (·.name))).length < fuel) :
    Runs (loadTables strtof fuel (shownText (tables.map (·.name)))) w (.ok tables) w := by
  induction tables generalizing fuel with
  | nil =>
    cases fuel with
    | zero => exact absurd hfuel (Nat.not_lt_zero _)
    | succ fuel => exact Runs.pure _ _
  | cons table tables ih =>
    obtain ⟨hname, hvalid⟩ := List.forall_mem_cons.1 hvalid
    obtain ⟨hfirst, hload⟩ := List.forall_mem_cons.1 hload
    have hlen : table.name.length ≤ 31 := hname.fits
    cases fuel with
    | zero => exact absurd hfuel (Nat.not_lt_zero _)
    | succ fuel =>
      rw [List.map_cons, shownText] at hfuel ⊢
      by_cases hlt : table.name.length < maxTableNameSize
      · rw [if_pos hlt] at hfuel ⊢
        rw [List.length_append, List.length_cons] at hfuel
        apply loadTables_next hname (by simp)
          (fgets_line hname.newline_not_mem (by omega) _) (strtok_line hname (.inr rfl)) hfirst
        apply ih hvalid _ hload (by omega)
        intro name hmem
        apply hshort
        cases tables with
        | nil => cases hmem
        | cons other tables => exact List.mem_cons_of_mem _ hmem
      · -- a name that fills its array is the last one
        rw [if_neg hlt] at hfuel ⊢
        have hlast : tables = [] := by
          cases tables with
          | nil => rfl
          | cons other tables => exact absurd (hshort table.name List.mem_cons_self) hlt
        subst hlast
        have htok : strtok table.name = some table.name := by
          have h := strtok_line hname (.inl rfl)
          rwa [List.append_nil] at h
        have hpos : 0 < table.name.length := List.length_pos_iff.2 hname.ne_nil
        apply loadTables_next hname hname.ne_nil
          (fgets_last hname.newline_not_mem (by omega)) htok hfirst
        cases fuel with
        | zero => omega
        | succ fuel => exact Runs.pure _ _

theorem saveSchemas_runs {tables : Database} (hsave : ∀ t ∈ tables,
    Runs (schemaSaveTable unwritten printFloat t.schema (some t.indexMeta)) w (.ok ()) w) :
    Runs (saveSchemas unwritten printFloat tables) w () w := by
  induction tables with
  | nil => exact Runs.pure _ _
  | cons table tables ih =>
    obtain ⟨hfirst, hsave⟩ := List.forall_mem_cons.1 hsave
    exact Runs.bind hfirst (ih hsave)

/-- Every column of the tables comes back from the schema file. -/
def ColumnsComeBack (strtof : Strtof) (printFloat : FloatFormat) {T : Type} (K : TableKind T)
    (tables : List T) : Prop :=
  ∀ t ∈ tables, ∀ col ∈ (K.schema t).columns, ComesBack strtof printFloat col

/-- The files give the tables back, and stay as they are. -/
theorem appContextInit_runs [UnionMemory] (h : Stored strtof printFloat w database)
    (hfloats : PrintsFloats printFloat)
    (hback : ColumnsComeBack strtof printFloat (databaseTables strtof) database)
    (unwritten : Unwritten) (tables : Database) :
    Runs (appContextInit strtof unwritten printFloat) (w.withTables tables) (.ok ()) w := by
  have hquiet : (w.withTables tables).failsIn = none := h.quiet
  have hcatalog : (w.withTables tables).files .catalog
      = some (shownText ((database.map tableMeta).map (·.name))) := by
    rw [tableMeta_names]
    exact h.catalog
  have hload : ∀ entry ∈ database.map tableMeta, Runs (schemaLoadTable strtof entry.name)
      (w.withTables tables) (.ok (entry.schema, entry.indexMeta)) (w.withTables tables) := by
    intro entry hentry
    obtain ⟨t, ht, rfl⟩ := List.mem_map.1 hentry
    have hplanned : PlannedTable t.schema := h.sound.planned t ht
    have hbuilt : BuiltIndexes t.schema t.indexMeta := h.sound.built t ht
    obtain ⟨file, hsave, hfile⟩ :=
      (roundTrips_planned hfloats unwritten hplanned hbuilt).2 (hback t ht)
    rw [schemaSaveTable_eq unwritten hfloats
      (hplanned.writable (hbuilt.planned hplanned.sound).1)] at hsave
    cases hsave
    exact Runs.bind (openFile_present hquiet (.inl rfl) (h.schemas t ht) _ _)
      (Runs.bind (contents_runs (h.schemas t ht)) (Runs.lift hfile _))
  have hvalid : ∀ entry ∈ database.map tableMeta, ValidName entry.name := by
    intro entry hentry
    obtain ⟨t, ht, rfl⟩ := List.mem_map.1 hentry
    exact h.sound.valid t ht
  have hshort : ∀ name ∈ ((database.map tableMeta).map (·.name)).dropLast,
      name.length < maxTableNameSize := by
    rw [tableMeta_names]
    exact h.short
  have htables : Runs (loadDatabase strtof) (w.withTables tables) (.ok (database.map tableMeta))
      (w.withTables tables) :=
    Runs.bind (openFile_present hquiet (.inl rfl) hcatalog _ _) (Runs.bind (contents_runs hcatalog)
      (loadTables_runs hvalid hshort hload (Nat.lt_succ_self _)))
  have hsame : (w.withTables tables).withTables (database.map tableMeta) = w := by
    rw [← h.tables]
    rfl
  have hsave : ∀ entry ∈ database.map tableMeta, Runs (schemaSaveTable unwritten printFloat
      entry.schema (some entry.indexMeta)) w (.ok ()) w := by
    intro entry hentry
    obtain ⟨t, ht, rfl⟩ := List.mem_map.1 hentry
    have hplanned : PlannedTable t.schema := h.sound.planned t ht
    have hbuilt : BuiltIndexes t.schema t.indexMeta := h.sound.built t ht
    have hsave := schemaSaveTable_runs h.quiet hfloats hplanned hbuilt unwritten
    rw [World.put_eq_self (h.schemas t ht)] at hsave
    exact hsave
  have hset : Runs (modify fun w => w.withTables (database.map tableMeta) : Prog World PUnit)
      (w.withTables tables) ⟨⟩ w := by
    have hrun := Runs.modify (fun w : World => w.withTables (database.map tableMeta))
      (w.withTables tables)
    rw [hsame] at hrun
    exact hrun
  exact Runs.bind htables (Runs.bind hset (Runs.bind (saveSchemas_runs hsave) (Runs.pure _ _)))

end Loaded

end Maxql.Disk
