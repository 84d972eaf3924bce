import Maxql.Disk.Stored
import Maxql.Schema.RoundTrip

/-!
# Files that hold the tables of a database

The schema files, the data files, the index files and the catalog, and the
executors that write schema files or the catalog.

The groups are the files of a database, the statements that write the schema
file, and the list of the tables.

* `Stored`: the files that hold a database;
* `Stored.writes`, `Stored.create`, `Stored.drop`: what keeps them;
* `executeCreateIndex_runs`, `executeDropIndex_runs`,
  `executeTruncateTable_runs`: statements on one table;
* `executeCreateTable_runs`, `executeDropTable_runs`: tables that come and go.
-/

namespace Maxql.Disk

open Program Bytes

variable {strtof : Strtof} {unwritten : Unwritten} {printFloat : FloatFormat} {w w' : World}
  {database : DatabaseState} {t t' : TableState} {pos : Nat}

/-! ## The files of a database -/

def tableNames (database : DatabaseState) : List Text :=
  database.map fun t => t.schema.tableName

/-- The files hold the tables, and there is no data file of another table. -/
structure Stored [UnionMemory] (strtof : Strtof) (printFloat : FloatFormat) (w : World)
    (database : DatabaseState) : Prop where
  quiet : w.failsIn = none
  tables : w.tables = database.map tableMeta
  sound : SoundTables (databaseTables strtof) database
  schemas : ∀ t ∈ database,
    w.files (.schema t.schema.tableName) = some (savedText printFloat t.schema t.indexMeta)
  rows : ∀ t ∈ database, RowFiles w.files t
  free : ∀ name, name ∉ tableNames database → w.files (.data name) = none
  catalog : w.files .catalog = some (shownText (tableNames database))
  short : ∀ name ∈ (tableNames database).dropLast, name.length < maxTableNameSize

/-- Only files of the table have been written, and they hold what has become of it. -/
structure Writes (printFloat : FloatFormat) (w w' : World) (pos : Nat) (t t' : TableState) :
    Prop where
  quiet : w'.failsIn = none
  tables : w'.tables = w.tables.set pos (tableMeta t')
  others : ∀ file, file.table ≠ some t.schema.tableName → w'.files file = w.files file
  schemaFile : w'.files (.schema t.schema.tableName)
    = some (savedText printFloat t'.schema t'.indexMeta)
  rows : RowFiles w'.files t'

theorem RowFiles.congr {files files' : (file : FileName) → Option file.Contents}
    (h : RowFiles files t)
    (hsame : ∀ file : FileName, file.table = some t.schema.tableName → files' file = files file) :
    RowFiles files' t where
  data := by
    rw [hsame _ rfl]
    exact h.data
  indexes := by
    intro entry hentry
    rw [hsame _ rfl]
    exact h.indexes entry hentry

theorem Stored.indexNames [UnionMemory] (h : Stored strtof printFloat w database)
    (ht : t ∈ database) : (t.indexMeta.map (·.name)).Nodup :=
  BuiltIndexes.names (h.sound.built t ht)

theorem Stored.entry [UnionMemory] (h : Stored strtof printFloat w database)
    (hpos : database[pos]? = some t) : w.tables[pos]? = some (tableMeta t) := by
  rw [h.tables, List.getElem?_map, hpos]
  rfl

/-- No other table of the list has the name of the table. -/
theorem Stored.other [UnionMemory] (h : Stored strtof printFloat w database)
    (hpos : database[pos]? = some t)
    {other : TableState} {i : Nat} (hi : database[i]? = some other) (hne : i ≠ pos) :
    other.schema.tableName ≠ t.schema.tableName := by
  intro heq
  apply hne
  have hnodup := h.sound.names
  obtain ⟨hlt, hget⟩ := List.getElem?_eq_some_iff.1 hpos
  obtain ⟨hlt', hget'⟩ := List.getElem?_eq_some_iff.1 hi
  have hlt : pos < (database.map (databaseTables strtof).name).length := by
    rw [List.length_map]
    exact hlt
  have hlt' : i < (database.map (databaseTables strtof).name).length := by
    rw [List.length_map]
    exact hlt'
  have hsame : (database.map (databaseTables strtof).name)[i]
      = (database.map (databaseTables strtof).name)[pos] := by
    rw [List.getElem_map, List.getElem_map, hget, hget']
    exact heq
  exact hnodup.getElem_inj_iff.1 hsame

/-- A table whose files have been written. -/
theorem Stored.writes [UnionMemory] (h : Stored strtof printFloat w database)
    (hpos : database[pos]? = some t)
    (hwrites : Writes printFloat w w' pos t t') (hschema : t'.schema = t.schema)
    (hsound : SoundTables (databaseTables strtof) (database.set pos t')) :
    Stored strtof printFloat w' (database.set pos t') := by
  have hnames : tableNames (database.set pos t') = tableNames database := by
    unfold tableNames
    rw [List.map_set, hschema]
    apply List.ext_getElem?
    intro i
    rw [List.getElem?_set]
    split
    · next heq =>
      subst heq
      split
      · rw [List.getElem?_map, hpos]
        rfl
      · next hout => rw [List.getElem?_eq_none (Nat.not_lt.1 hout)]
    · rfl
  have hmem : ∀ x ∈ database.set pos t', x = t' ∨
      x ∈ database ∧ x.schema.tableName ≠ t.schema.tableName := by
    intro x hx
    obtain ⟨i, hi⟩ := List.mem_iff_getElem?.1 hx
    rw [List.getElem?_set] at hi
    split at hi
    · split at hi
      · exact .inl (Option.some.inj hi).symm
      · cases hi
    · next hne => exact .inr ⟨List.mem_of_getElem? hi, h.other hpos hi (Ne.symm hne)⟩
  refine ⟨hwrites.quiet, ?_, hsound, ?_, ?_, ?_, ?_, ?_⟩
  · rw [hwrites.tables, h.tables, List.map_set]
  · intro x hx
    rcases hmem x hx with rfl | ⟨hx, hne⟩
    · rw [hschema]
      rw [hwrites.schemaFile, hschema]
    · rw [hwrites.others (.schema x.schema.tableName) fun heq => hne (Option.some.inj heq)]
      exact h.schemas x hx
  · intro x hx
    rcases hmem x hx with rfl | ⟨hx, hne⟩
    · exact hwrites.rows
    · apply (h.rows x hx).congr
      intro file hfile
      apply hwrites.others
      rw [hfile]
      exact fun heq => hne (Option.some.inj heq)
  · intro name hname
    rw [hnames] at hname
    rw [hwrites.others]
    · exact h.free name hname
    · intro heq
      obtain rfl := Option.some.inj heq
      exact hname (List.mem_map_of_mem (List.mem_of_getElem? hpos))
  · rw [hwrites.others .catalog (fun heq => by cases heq), h.catalog, hnames]
  · rw [hnames]
    exact h.short

/-- A statement that writes rows and keys only. -/
theorem Stored.rewrites [UnionMemory] (h : Stored strtof printFloat w database)
    (hpos : database[pos]? = some t)
    (hrewrites : Rewrites w w' t t') : Writes printFloat w w' pos t t' := by
  refine ⟨hrewrites.quiet, ?_, ?_, ?_, hrewrites.rows⟩
  · have hsame : tableMeta t' = tableMeta t := by
      rw [tableMeta, tableMeta, hrewrites.schema, hrewrites.indexMeta]
    obtain ⟨hlt, hget⟩ := List.getElem?_eq_some_iff.1 (h.entry hpos)
    rw [hrewrites.tables, hsame, ← hget, List.set_getElem_self]
  · intro file hfile
    apply hrewrites.others
    rintro (rfl | ⟨indexName, rfl⟩)
    · exact hfile rfl
    · exact hfile rfl
  · rw [hrewrites.others, h.schemas t (List.mem_of_getElem? hpos), hrewrites.schema,
      hrewrites.indexMeta]
    rintro (heq | ⟨indexName, heq⟩)
    · cases heq
    · cases heq

theorem Stored.writes_self [UnionMemory] (h : Stored strtof printFloat w database)
    (hpos : database[pos]? = some t) : Writes printFloat w w pos t t :=
  h.rewrites hpos (rewrites_self h.quiet (h.rows t (List.mem_of_getElem? hpos)))

/-! ## Statements that write the schema file -/

section Definitions

theorem schemaSaveTable_runs (hquiet : w.failsIn = none) (hfloats : PrintsFloats printFloat)
    {schema : TableSchema} (hplanned : PlannedTable schema) {indexMeta : IndexMeta}
    (hbuilt : BuiltIndexes schema indexMeta) (unwritten : Unwritten) :
    Runs (schemaSaveTable unwritten printFloat schema (some indexMeta)) w (.ok ())
      (w.put (.schema schema.tableName) (some (savedText printFloat schema indexMeta))) := by
  obtain ⟨hindexes, -⟩ := hbuilt.planned hplanned.sound
  have hgoes := schemaSaveTable_goes (w := w) (by simp [hquiet])
    (schemaSaveTable_eq unwritten hfloats (hplanned.writable hindexes))
  rw [World.tick_of_none hquiet] at hgoes
  exact hgoes

/-- The loop of `backfill_index` reads the rows of a table scan, and puts nothing into the index
where there is none. -/
theorem tableScanFrom_of_backfill [UnionMemory] {dataFile : List UInt8} {schema : TableSchema}
    {indexDef : IndexDefinition} {fuel offset : Nat} {index index' : KeyMap}
    (h : backfillIndexFrom dataFile schema indexDef fuel offset index = .ok (.ok index')) :
    ∃ rows, tableScanFrom dataFile schema fuel offset = .ok rows ∧ (rows = [] → index' = index) := by
  induction fuel generalizing offset index with
  | zero => cases h
  | succ fuel ih =>
    rw [backfillIndexFrom] at h
    rw [tableScanFrom]
    split at h
    · next hend =>
      cases h
      exact ⟨[], if_pos hend, fun _ => rfl⟩
    · next hmore =>
      rw [if_neg hmore]
      obtain ⟨⟨row, next⟩, hread, h⟩ := Checked.bind_eq_ok.1 h
      cases row with
      | none =>
        obtain ⟨rows, hrows, hnone⟩ := ih h
        exact ⟨rows, Checked.bind_eq_ok.2 ⟨_, hread, Checked.bind_eq_ok.2 ⟨rows, hrows, rfl⟩⟩,
          hnone⟩
      | some values =>
        obtain ⟨found, -, h⟩ := Checked.bind_eq_ok.1 h
        split at h
        · cases h
        · obtain ⟨grown, -, h⟩ := Checked.bind_eq_ok.1 h
          obtain ⟨rows, hrows, -⟩ := ih h
          exact ⟨⟨values, offset⟩ :: rows,
            Checked.bind_eq_ok.2 ⟨_, hread, Checked.bind_eq_ok.2 ⟨rows, hrows, rfl⟩⟩,
            fun hnil => absurd hnil (List.cons_ne_nil _ _)⟩

theorem backfillIndex_runs [UnionMemory] (hquiet : w.failsIn = none) (hfiles : RowFiles w.files t)
    {indexDef : IndexDefinition} {result : Except Error KeyMap}
    (h : Maxql.backfillIndex t.dataFile t.schema indexDef indexCreate = .ok result) :
    ∃ filled, Runs (backfillIndex t.schema indexDef) w filled w ∧
      filled.map fileKeys = result := by
  cases result with
  | error e =>
    exact ⟨.error e, Runs.bind (storageOpen_runs hquiet hfiles.data)
      (Runs.bind (contents_runs hfiles.data) (Runs.bind (Runs.lift h w) (Runs.pure _ _))), rfl⟩
  | ok index =>
    obtain ⟨rows, hrows, hnone⟩ := tableScanFrom_of_backfill h
    refine ⟨.ok (if rows.isEmpty then none else some index),
      Runs.bind (storageOpen_runs hquiet hfiles.data) (Runs.bind (contents_runs hfiles.data)
        (Runs.bind (Runs.lift h w) (Runs.bind (Runs.lift hrows w) (Runs.pure _ _)))), ?_⟩
    cases rows with
    | nil => exact congrArg Except.ok (hnone rfl).symm
    | cons row rows => rfl

/-- CREATE INDEX writes the index file, then the schema file. -/
theorem executeCreateIndex_runs [UnionMemory] (h : Stored strtof printFloat w database)
    (hfloats : PrintsFloats printFloat) (hpos : database[pos]? = some t)
    {indexDef : IndexDefinition} {result : Except Error TableState}
    (hrun : Maxql.executeCreateIndex t indexDef = .ok result)
    (hbuilt : ∀ t', result = .ok t' → BuiltIndexes t'.schema t'.indexMeta) :
    ∃ w', Runs (executeCreateIndex unwritten printFloat pos indexDef) w
        (result.map fun _ => ()) w' ∧
      (∀ e, result = .error e → w' = w) ∧
      ∀ t', result = .ok t' → Writes printFloat w w' pos t t' := by
  have ht := List.mem_of_getElem? hpos
  have hfiles := h.rows t ht
  obtain ⟨filled, hfill, hrun⟩ := Checked.bind_eq_ok.1 hrun
  have hentry := readAt_of_getElem? (h.entry hpos)
  obtain ⟨saved, hbackfill, hsaved⟩ := backfillIndex_runs h.quiet hfiles hfill
  cases filled with
  | error e =>
    cases hrun
    obtain rfl : saved = .error e := by
      cases saved with
      | error e' => cases hsaved; rfl
      | ok contents => cases hsaved
    exact ⟨w, Runs.bind (Runs.get w) (Runs.bind (Runs.lift hentry w)
      (Runs.bind hbackfill (Runs.pure _ _))), fun _ _ => rfl, nofun⟩
  | ok index =>
    cases hrun
    obtain ⟨contents, rfl, hkeys⟩ : ∃ contents, saved = .ok contents ∧ fileKeys contents = index := by
      cases saved with
      | error e => cases hsaved
      | ok contents => exact ⟨contents, rfl, Except.ok.inj hsaved⟩
    have hmeta : ({ t with indexes := t.indexes ++ [(indexDef, index)] } : TableState).indexMeta
        = t.indexMeta ++ [indexDef] := List.map_append
    have hbuilt := hbuilt _ rfl
    rw [hmeta] at hbuilt
    obtain ⟨w₁, hw₁⟩ : ∃ w₁, w₁ = w.put (.index t.schema.tableName indexDef.name) (some contents) :=
      ⟨_, rfl⟩
    obtain ⟨w₂, hw₂⟩ : ∃ w₂, w₂ = w₁.withTables (w.tables.set pos { tableMeta t with
        indexMeta := t.indexMeta ++ [indexDef] }) := ⟨_, rfl⟩
    have hsave : Runs (indexSave t.schema.tableName indexDef contents) w () w₁ := by
      have hgoes := indexSave_goes (w := w) (by simp [h.quiet]) t.schema.tableName indexDef contents
      rw [World.tick_of_none h.quiet, ← hw₁] at hgoes
      exact hgoes
    have hquiet : w₂.failsIn = none := by
      rw [hw₂, hw₁]
      exact h.quiet
    have hpush : Runs (modify fun w' => w'.withTables (w'.tables.set pos { tableMeta t with
        indexMeta := t.indexMeta ++ [indexDef] }) : Prog World PUnit) w₁ ⟨⟩ w₂ := by
      have htables : w₁.tables = w.tables := by rw [hw₁, World.put_tables]
      rw [hw₂, ← htables]
      exact Runs.modify _ _
    have hschema := schemaSaveTable_runs hquiet hfloats (h.sound.planned t ht) hbuilt unwritten
    refine ⟨_, Runs.bind (Runs.get w) (Runs.bind (Runs.lift hentry w)
      (Runs.bind hbackfill (Runs.bind hsave (Runs.bind hpush hschema)))), nofun, ?_⟩
    intro t' ht'
    cases ht'
    have hothers : ∀ file, file ≠ .schema t.schema.tableName →
        file ≠ .index t.schema.tableName indexDef.name →
        (w₂.put (.schema t.schema.tableName)
          (some (savedText printFloat t.schema (t.indexMeta ++ [indexDef])))).files file
          = w.files file := by
      intro file hne hne'
      rw [World.put_files_of_ne _ hne, hw₂, World.withTables_files, hw₁,
        World.put_files_of_ne _ hne']
    refine ⟨hquiet, ?_, ?_, ?_, ?_, ?_⟩
    · rw [World.put_tables, hw₂, tableMeta, tableMeta, hmeta]
      rfl
    · intro file hfile
      apply hothers
      · rintro rfl
        exact hfile rfl
      · rintro rfl
        exact hfile rfl
    · rw [hmeta]
      exact World.put_files_self _ _ _
    · exact (hothers (.data t.schema.tableName) nofun nofun).trans hfiles.data
    · intro entry hentry
      rcases List.mem_append.1 hentry with hentry | hentry
      · have hnew := BuiltIndexes.names hbuilt
        rw [List.map_append, List.nodup_append] at hnew
        refine (congrArg (Option.map fileKeys) (hothers (.index t.schema.tableName entry.1.name)
          nofun ?_)).trans (hfiles.indexes entry hentry)
        intro heq
        apply hnew.2.2 entry.1.name _ indexDef.name List.mem_cons_self
        · exact (FileName.index.inj heq).2
        · exact List.mem_map.2 ⟨entry.1, List.mem_map_of_mem hentry, rfl⟩
      · obtain rfl := List.mem_singleton.1 hentry
        have hne : FileName.index t.schema.tableName indexDef.name ≠ .schema t.schema.tableName :=
          nofun
        have hfile : w₂.files (.index t.schema.tableName indexDef.name) = some contents := by
          rw [hw₂, World.withTables_files, hw₁]
          exact World.put_files_self _ _ _
        refine (congrArg (Option.map fileKeys)
          ((World.put_files_of_ne _ hne _).trans hfile)).trans ?_
        exact congrArg some hkeys

/-- What is left has another name than what has been taken away. -/
theorem name_ne_of_mem_eraseIdx {indexes : IndexSet} {indexPos : Nat} {indexDef : IndexDefinition}
    (hnodup : (indexes.map fun entry => entry.1.name).Nodup)
    (hindex : (indexes.map Prod.fst)[indexPos]? = some indexDef)
    {entry : IndexDefinition × KeyMap} (hentry : entry ∈ indexes.eraseIdx indexPos) :
    entry.1.name ≠ indexDef.name := by
  rw [List.getElem?_map, Option.map_eq_some_iff] at hindex
  obtain ⟨removed, hremoved, rfl⟩ := hindex
  obtain ⟨i, hne, hi⟩ := List.mem_eraseIdx_iff_getElem?.1 hentry
  intro heq
  apply hne
  have hi' : (indexes.map fun entry => entry.1.name)[i]? = some entry.1.name := by
    rw [List.getElem?_map, hi]
    rfl
  have hremoved' : (indexes.map fun entry => entry.1.name)[indexPos]? = some entry.1.name := by
    rw [List.getElem?_map, hremoved, heq]
    rfl
  obtain ⟨hlt, -⟩ := List.getElem?_eq_some_iff.1 hi'
  exact (List.getElem?_inj hlt hnodup).1 (hi'.trans hremoved'.symm)

/-- DROP INDEX writes the schema file, then removes the index file. -/
theorem executeDropIndex_runs [UnionMemory] (unwritten : Unwritten)
    (h : Stored strtof printFloat w database)
    (hfloats : PrintsFloats printFloat) (hpos : database[pos]? = some t) {indexPos : Nat}
    {indexDef : IndexDefinition} (hindex : t.indexMeta[indexPos]? = some indexDef)
    (hbuilt : BuiltIndexes t.schema (t.indexMeta.eraseIdx indexPos)) :
    ∃ w', Runs (executeDropIndex unwritten printFloat pos indexPos indexDef.name) w (.ok ()) w' ∧
      Writes printFloat w w' pos t { t with indexes := t.indexes.eraseIdx indexPos } := by
  have ht := List.mem_of_getElem? hpos
  have hfiles := h.rows t ht
  have hmeta : ({ t with indexes := t.indexes.eraseIdx indexPos } : TableState).indexMeta
      = t.indexMeta.eraseIdx indexPos := (List.eraseIdx_map _ _ _).symm
  obtain ⟨w₁, hw₁⟩ : ∃ w₁, w₁ = w.withTables (w.tables.set pos { tableMeta t with
    indexMeta := t.indexMeta.eraseIdx indexPos }) := ⟨_, rfl⟩
  have hquiet : w₁.failsIn = none := by
    rw [hw₁]
    exact h.quiet
  have hschema := schemaSaveTable_runs hquiet hfloats (h.sound.planned t ht) hbuilt unwritten
  have hquiet₂ : (w₁.put (.schema t.schema.tableName)
    (some (savedText printFloat t.schema (t.indexMeta.eraseIdx indexPos)))).failsIn = none := hquiet
  obtain ⟨w', hdelete, htables, hquiet', hothers, -⟩ := indexDeleteFile_spec
    (w₁.put (.schema t.schema.tableName)
      (some (savedText printFloat t.schema (t.indexMeta.eraseIdx indexPos))))
    t.schema.tableName indexDef.name
  have hset : Runs (set (w.withTables (w.tables.set pos { tableMeta t with
      indexMeta := t.indexMeta.eraseIdx indexPos })) : Prog World PUnit) w ⟨⟩ w₁ := by
    rw [hw₁]
    rfl
  refine ⟨w', Runs.bind (Runs.get w) (Runs.bind (Runs.lift (readAt_of_getElem? (h.entry hpos)) w)
    (Runs.bind hset (Runs.bind hschema (Runs.bind hdelete (Runs.pure _ _))))), ?_⟩
  have hsame : ∀ file, file ≠ .schema t.schema.tableName →
      file ≠ .index t.schema.tableName indexDef.name → w'.files file = w.files file := by
    intro file hne hne'
    rw [hothers file hne', World.put_files_of_ne _ hne, hw₁, World.withTables_files]
  refine ⟨?_, ?_, ?_, ?_, ?_, ?_⟩
  · rw [hquiet', World.tick_of_none hquiet₂]
    exact hquiet
  · rw [htables, World.put_tables, hw₁, tableMeta, tableMeta, hmeta]
    rfl
  · intro file hfile
    apply hsame
    · rintro rfl
      exact hfile rfl
    · rintro rfl
      exact hfile rfl
  · rw [hmeta, hothers (.schema t.schema.tableName) nofun]
    exact World.put_files_self _ _ _
  · exact (hsame (.data t.schema.tableName) nofun nofun).trans hfiles.data
  · intro entry hentry
    rw [hsame (.index t.schema.tableName entry.1.name) nofun ?_]
    · exact hfiles.indexes entry (List.mem_of_mem_eraseIdx hentry)
    intro heq
    have hnodup := h.indexNames ht
    rw [TableState.indexMeta, List.map_map] at hnodup
    exact name_ne_of_mem_eraseIdx hnodup hindex hentry (FileName.index.inj heq).2

/-- TRUNCATE TABLE removes and creates the data file, then the index files. -/
theorem executeTruncateTable_runs [UnionMemory] (h : Stored strtof printFloat w database)
    (hpos : database[pos]? = some t) :
    ∃ w', Runs (executeTruncateTable pos) w (.ok ()) w' ∧
      Rewrites w w' t { t with
        dataFile := []
        indexes := t.indexes.map fun entry => (entry.1, indexCreate) } := by
  have ht := List.mem_of_getElem? hpos
  have hremove := removeFile_runs h.quiet (h.rows t ht).data
  obtain ⟨w₁, hw₁⟩ : ∃ w₁, w₁ = w.put (.data t.schema.tableName) none := ⟨_, rfl⟩
  rw [← hw₁] at hremove
  have hquiet₁ : w₁.failsIn = none := by
    rw [hw₁]
    exact h.quiet
  have habsent : w₁.files (.data t.schema.tableName) = none := by
    rw [hw₁]
    exact World.put_files_self _ _ _
  have hcreate := storageCreateTable_goes (by simp [hquiet₁]) habsent
  obtain ⟨w₂, hw₂⟩ : ∃ w₂, w₂ = w₁.tick.put (.data t.schema.tableName)
    (some (FileName.data t.schema.tableName).empty) := ⟨_, rfl⟩
  rw [← hw₂] at hcreate
  have hquiet₂ : w₂.failsIn = none := by
    rw [hw₂, World.tick_of_none hquiet₁]
    exact hquiet₁
  have hsame₂ : ∀ file, file ≠ .data t.schema.tableName → w₂.files file = w.files file := by
    intro file hfile
    rw [hw₂, World.put_files_of_ne _ hfile, World.tick_files, hw₁, World.put_files_of_ne _ hfile]
  obtain ⟨w₃, hpurge, hpurged⟩ := indexSetPurge_spec t.schema.tableName t.indexMeta w₂
  have hnames : ((indexSetCreate (tableMeta t)).map fun entry => entry.1.name).Nodup := by
    rw [indexSetCreate, List.map_map]
    exact h.indexNames ht
  obtain ⟨w', hsave, htables, hquiet', hothers, hsaved⟩ :=
    indexSetSave_runs (hpurged.going hquiet₂) t.schema.tableName hnames
  refine ⟨w', ?_, rfl, ?_, ?_, hquiet', ?_, ?_, ?_⟩
  · refine Runs.bind (Runs.get w) (Runs.bind (Runs.lift (readAt_of_getElem? (h.entry hpos)) w)
      (Runs.bind hremove (Runs.ite_neg (by simp) (Runs.bind hcreate (Runs.bind hpurge ?_)))))
    exact Runs.bind hsave (Runs.pure _ _)
  · show (t.indexes.map fun entry => (entry.1, indexCreate)).map Prod.fst = t.indexMeta
    rw [List.map_map]
    rfl
  · rw [htables, hpurged.tables, hw₂, hw₁]
    rfl
  · intro file hfile
    rw [hothers, hpurged.files, hsame₂]
    · exact fun heq => hfile (.inl heq)
    · exact fun indexDef _ heq => hfile (.inr ⟨_, heq⟩)
    · exact fun entry _ heq => hfile (.inr ⟨_, heq⟩)
  · rw [hothers (.data t.schema.tableName) fun _ _ heq => (by cases heq),
      hpurged.files (.data t.schema.tableName) fun _ _ heq => (by cases heq), hw₂]
    exact World.put_files_self _ _ _
  · intro entry hentry
    obtain ⟨old, hold, rfl⟩ := List.mem_map.1 hentry
    have hnew : (old.1, none) ∈ indexSetCreate (tableMeta t) :=
      List.mem_map.2 ⟨old.1, List.mem_map_of_mem hold, rfl⟩
    rw [hsaved (old.1, none) hnew]
    rfl

end Definitions

/-! ## The list of the tables -/

section Lists

/-- The catalog, when the names fit. -/
theorem databaseSave_runs (hquiet : w.failsIn = none)
    (hvalid : ∀ t ∈ w.tables, ValidName t.name) (hfits : CatalogFits (w.tables.map (·.name)))
    (unwritten : Unwritten) :
    Runs (databaseSave unwritten) w (.ok ())
      (w.put .catalog (some (shownText (w.tables.map (·.name))))) := by
  have hne : w.tables ≠ [] := by
    intro hnil
    apply hfits.nonempty
    rw [hnil]
    rfl
  have hbuffer : (unwritten catalogBufferSize).toList.length = catalogBufferSize :=
    Vector.length_toList
  have htext := (catalogText_eq hne hvalid hbuffer).1 hfits.size
  refine Runs.bind (openFile_write hquiet _ _) (Runs.bind (Runs.get _)
    (Runs.bind (Runs.lift htext _) (Runs.bind (flush_runs _) ?_)))
  rw [World.put_put]
  exact Runs.pure _ _

theorem tableMeta_names (database : DatabaseState) :
    (database.map tableMeta).map (·.name) = tableNames database := by
  rw [List.map_map]
  rfl

/-- The files of a new table stand next to those of the other ones. -/
theorem Stored.create [UnionMemory] (h : Stored strtof printFloat w database)
    (hsound : SoundTables (databaseTables strtof) (database ++ [t]))
    (hfits : CatalogFits (tableNames (database ++ [t]))) (hquiet : w'.failsIn = none)
    (htables : w'.tables = (database ++ [t]).map tableMeta)
    (hothers : ∀ file, file ≠ .catalog → file.table ≠ some t.schema.tableName →
      w'.files file = w.files file)
    (hschemaFile : w'.files (.schema t.schema.tableName)
      = some (savedText printFloat t.schema t.indexMeta))
    (hrows : RowFiles w'.files t)
    (hcatalog : w'.files .catalog = some (shownText (tableNames (database ++ [t])))) :
    Stored strtof printFloat w' (database ++ [t]) := by
  have hlist : tableNames (database ++ [t]) = tableNames database ++ [t.schema.tableName] :=
    List.map_append
  have hold : ∀ x ∈ database, ∀ file : FileName, file.table = some x.schema.tableName →
      w'.files file = w.files file := by
    intro x hx file hfile
    apply hothers
    · rintro rfl
      cases hfile
    · rw [hfile]
      intro heq
      have hnames : (tableNames (database ++ [t])).Nodup := hsound.names
      rw [hlist, List.nodup_append] at hnames
      exact hnames.2.2 _ (List.mem_map_of_mem hx) _ List.mem_cons_self (Option.some.inj heq)
  refine ⟨hquiet, htables, hsound, ?_, ?_, ?_, hcatalog, hfits.short⟩
  · intro x hx
    rcases List.mem_append.1 hx with hx | hx
    · rw [hold x hx _ rfl]
      exact h.schemas x hx
    · obtain rfl := List.mem_singleton.1 hx
      exact hschemaFile
  · intro x hx
    rcases List.mem_append.1 hx with hx | hx
    · exact (h.rows x hx).congr (hold x hx)
    · obtain rfl := List.mem_singleton.1 hx
      exact hrows
  · intro name hname
    rw [hlist, List.mem_append, not_or, List.mem_singleton] at hname
    rw [hothers (.data name) nofun fun heq => hname.2 (Option.some.inj heq)]
    exact h.free name hname.1

/-- CREATE TABLE writes the schema file, the data file and the catalog. -/
theorem executeCreateTable_runs [UnionMemory] (h : Stored strtof printFloat w database)
    (hfloats : PrintsFloats printFloat) {schema : TableSchema}
    (ht : t = (databaseTables strtof).create schema)
    (hsound : SoundTables (databaseTables strtof) (database ++ [t]))
    (hfits : CatalogFits (tableNames (database ++ [t]))) (unwritten : Unwritten) :
    ∃ w', Runs (executeCreateTable unwritten printFloat schema) w (.ok ()) w' ∧
      Stored strtof printFloat w' (database ++ [t]) := by
  have hmem : t ∈ database ++ [t] := List.mem_append_right _ List.mem_cons_self
  have hschema : t.schema = schema := by
    rw [ht]
    rfl
  subst hschema
  have hmeta : t.indexMeta = [] := by
    rw [ht]
    rfl
  have hdata : t.dataFile = [] := by
    rw [ht]
    rfl
  have hvalid : ValidName t.schema.tableName := hsound.valid t hmem
  have hnew : t.schema.tableName ∉ tableNames database := by
    intro hname
    have hnames : (database.map (databaseTables strtof).name ++ [t.schema.tableName]).Nodup := by
      have hnames := hsound.names
      rw [List.map_append] at hnames
      exact hnames
    rw [List.nodup_append] at hnames
    exact hnames.2.2 _ hname _ List.mem_cons_self rfl
  have hpush : databasePush w.tables t.schema = (database ++ [t]).map tableMeta := by
    rw [databasePush, svToCstr_eq hvalid.zero_not_mem hvalid.fits, h.tables, List.map_append,
      List.map_singleton, tableMeta, hmeta]
  -- the schema file, the data file, the list and the catalog, one after the other
  obtain ⟨w₁, hw₁⟩ : ∃ w₁, w₁ = w.put (.schema t.schema.tableName)
    (some (savedText printFloat t.schema [])) := ⟨_, rfl⟩
  have hsave : Runs (schemaSaveTable unwritten printFloat t.schema (some [])) w (.ok ()) w₁ := by
    rw [hw₁]
    exact schemaSaveTable_runs h.quiet hfloats (hsound.planned t hmem) .none unwritten
  have hquiet₁ : w₁.failsIn = none := by
    rw [hw₁]
    exact h.quiet
  have habsent : w₁.files (.data t.schema.tableName) = none := by
    simp [hw₁, World.put_files_of_ne, h.free _ hnew]
  have hcreate := storageCreateTable_goes (by simp [hquiet₁]) habsent
  rw [World.tick_of_none hquiet₁] at hcreate
  obtain ⟨w₂, hw₂⟩ : ∃ w₂, w₂ = w₁.put (.data t.schema.tableName)
    (some (FileName.data t.schema.tableName).empty) := ⟨_, rfl⟩
  rw [← hw₂] at hcreate
  have hlist₂ : databasePush w₂.tables t.schema = (database ++ [t]).map tableMeta := by
    rw [hw₂, World.put_tables, hw₁, World.put_tables, hpush]
  obtain ⟨w₃, hw₃⟩ : ∃ w₃, w₃ = w₂.withTables ((database ++ [t]).map tableMeta) := ⟨_, rfl⟩
  have hquiet₃ : w₃.failsIn = none := by
    rw [hw₃, hw₂]
    exact hquiet₁
  have hnames₃ : w₃.tables.map (·.name) = tableNames (database ++ [t]) := by
    rw [hw₃, World.withTables_tables, tableMeta_names]
  have hvalid₃ : ∀ entry ∈ w₃.tables, ValidName entry.name := by
    intro entry hentry
    rw [hw₃, World.withTables_tables, List.mem_map] at hentry
    obtain ⟨x, hx, rfl⟩ := hentry
    exact hsound.valid x hx
  have hcatalog := databaseSave_runs hquiet₃ hvalid₃ (by rw [hnames₃]; exact hfits) unwritten
  rw [hnames₃] at hcatalog
  have hpushed : Runs (modify fun w => w.withTables (databasePush w.tables t.schema) :
      Prog World PUnit) w₂ ⟨⟩ w₃ := by
    rw [hw₃, ← hlist₂]
    exact Runs.modify _ _
  have hadd : Runs (databaseAddTable unwritten t.schema) w₂ (.ok ())
      (w₃.put .catalog (some (shownText (tableNames (database ++ [t]))))) :=
    Runs.bind hpushed (Runs.bind hcatalog rfl)
  refine ⟨_, Runs.bind hsave (Runs.bind hcreate hadd), ?_⟩
  refine h.create hsound hfits hquiet₃ ?_ ?_ ?_ ⟨?_, ?_⟩ ?_
  · rw [World.put_tables, hw₃, World.withTables_tables]
  · intro file hne hfile
    rw [World.put_files_of_ne _ hne, hw₃, World.withTables_files, hw₂, World.put_files_of_ne, hw₁,
      World.put_files_of_ne]
    · rintro rfl
      exact hfile rfl
    · rintro rfl
      exact hfile rfl
  · simp [hw₃, hw₂, hw₁, World.put_files_of_ne, hmeta]
  · simp [hw₃, hw₂, World.put_files_of_ne, hdata, FileName.empty]
  · have hindexes : t.indexes = [] := List.map_eq_nil_iff.1 hmeta
    rw [hindexes]
    intro entry hentry
    cases hentry
  · exact World.put_files_self _ _ _

theorem Stored.mem_eraseIdx [UnionMemory] (h : Stored strtof printFloat w database)
    (hpos : database[pos]? = some t) {x : TableState} (hx : x ∈ database.eraseIdx pos) :
    x ∈ database ∧ x.schema.tableName ≠ t.schema.tableName := by
  obtain ⟨i, hne, hi⟩ := List.mem_eraseIdx_iff_getElem?.1 hx
  exact ⟨List.mem_of_getElem? hi, h.other hpos hi hne⟩

/-- The files of the tables that are left. -/
theorem Stored.drop [UnionMemory] (h : Stored strtof printFloat w database)
    (hpos : database[pos]? = some t)
    (hfits : CatalogFits (tableNames (database.eraseIdx pos))) (hquiet : w'.failsIn = none)
    (htables : w'.tables = (database.eraseIdx pos).map tableMeta)
    (hothers : ∀ file, file ≠ .catalog → file.table ≠ some t.schema.tableName →
      w'.files file = w.files file)
    (hgone : w'.files (.data t.schema.tableName) = none)
    (hcatalog : w'.files .catalog = some (shownText (tableNames (database.eraseIdx pos)))) :
    Stored strtof printFloat w' (database.eraseIdx pos) := by
  have hold : ∀ x ∈ database.eraseIdx pos, ∀ file : FileName,
      file.table = some x.schema.tableName → w'.files file = w.files file := by
    intro x hx file hfile
    apply hothers
    · rintro rfl
      cases hfile
    · rw [hfile]
      exact fun heq => (h.mem_eraseIdx hpos hx).2 (Option.some.inj heq)
  refine ⟨hquiet, htables, h.sound.eraseIdx pos, ?_, ?_, ?_, hcatalog, hfits.short⟩
  · intro x hx
    rw [hold x hx _ rfl]
    exact h.schemas x (h.mem_eraseIdx hpos hx).1
  · intro x hx
    exact (h.rows x (h.mem_eraseIdx hpos hx).1).congr (hold x hx)
  · intro name hname
    by_cases heq : name = t.schema.tableName
    · rw [heq]
      exact hgone
    · rw [hothers (.data name) nofun fun hsame => heq (Option.some.inj hsame)]
      apply h.free
      intro hmem
      obtain ⟨x, hx, rfl⟩ := List.mem_map.1 hmem
      obtain ⟨i, hi⟩ := List.mem_iff_getElem?.1 hx
      apply hname
      apply List.mem_map_of_mem
      apply List.mem_eraseIdx_iff_getElem?.2
      refine ⟨i, ?_, hi⟩
      rintro rfl
      exact heq (congrArg (·.schema.tableName) (Option.some.inj (hi.symm.trans hpos)))

/-- DROP TABLE removes the index files, the schema file and the data file. -/
theorem executeDropTable_runs [UnionMemory] (h : Stored strtof printFloat w database)
    (hpos : database[pos]? = some t) (hfits : CatalogFits (tableNames (database.eraseIdx pos)))
    (unwritten : Unwritten) :
    ∃ w', Runs (executeDropTable unwritten pos) w (.ok ()) w' ∧
      Stored strtof printFloat w' (database.eraseIdx pos) := by
  have ht := List.mem_of_getElem? hpos
  obtain ⟨w₁, hpurge, hpurged⟩ := indexSetPurge_spec t.schema.tableName t.indexMeta w
  have hquiet₁ := hpurged.going h.quiet
  have hschemaFile : w₁.files (.schema t.schema.tableName)
      = some (savedText printFloat t.schema t.indexMeta) := by
    rw [hpurged.files (.schema t.schema.tableName) fun _ _ => nofun]
    exact h.schemas t ht
  have hremove := removeFile_runs hquiet₁ hschemaFile
  obtain ⟨w₂, hw₂⟩ : ∃ w₂, w₂ = w₁.put (.schema t.schema.tableName) none := ⟨_, rfl⟩
  rw [← hw₂] at hremove
  have hquiet₂ : w₂.failsIn = none := by
    rw [hw₂]
    exact hquiet₁
  have hdata : w₂.files (.data t.schema.tableName) = some t.dataFile := by
    have hdata := hpurged.files (.data t.schema.tableName) fun _ _ => nofun
    simp [hw₂, World.put_files_of_ne, hdata, (h.rows t ht).data]
  have hremove' := removeFile_runs hquiet₂ hdata
  obtain ⟨w₃, hw₃⟩ : ∃ w₃, w₃ = w₂.put (.data t.schema.tableName) none := ⟨_, rfl⟩
  rw [← hw₃] at hremove'
  have htables₃ : w₃.tables = w.tables := by
    rw [hw₃, World.put_tables, hw₂, World.put_tables, hpurged.tables]
  have hnodup : (w₃.tables.map (·.name)).Nodup := by
    rw [htables₃, h.tables, tableMeta_names]
    exact h.sound.names
  have hshift := databaseShift_entry hnodup
    (show w₃.tables[pos]? = some (tableMeta t) by rw [htables₃]; exact h.entry hpos)
  have herased : w₃.tables.eraseIdx pos = (database.eraseIdx pos).map tableMeta := by
    rw [htables₃, h.tables, List.eraseIdx_map]
  obtain ⟨w₄, hw₄⟩ : ∃ w₄, w₄ = w₃.withTables (w₃.tables.eraseIdx pos) := ⟨_, rfl⟩
  have hquiet₄ : w₄.failsIn = none := by
    rw [hw₄, hw₃]
    exact hquiet₂
  have hnames₄ : w₄.tables.map (·.name) = tableNames (database.eraseIdx pos) := by
    rw [hw₄, World.withTables_tables, herased, tableMeta_names]
  have hvalid₄ : ∀ entry ∈ w₄.tables, ValidName entry.name := by
    intro entry hentry
    rw [hw₄, World.withTables_tables, herased, List.mem_map] at hentry
    obtain ⟨x, hx, rfl⟩ := hentry
    exact h.sound.valid x (List.mem_of_mem_eraseIdx hx)
  have hcatalog := databaseSave_runs hquiet₄ hvalid₄ (by rw [hnames₄]; exact hfits) unwritten
  rw [hnames₄] at hcatalog
  have hset : Runs (set (w₃.withTables (w₃.tables.eraseIdx pos)) : Prog World PUnit) w₃ ⟨⟩ w₄ := by
    rw [hw₄]
    rfl
  have hshifted : Runs (databaseRemoveTable unwritten (.entry pos)) w₃ (.ok ()) (w₄.put .catalog
      (some (shownText (tableNames (database.eraseIdx pos))))) :=
    Runs.bind (Runs.get w₃) (Runs.bind (Runs.lift hshift w₃) (Runs.bind hset hcatalog))
  refine ⟨w₄.put .catalog (some (shownText (tableNames (database.eraseIdx pos)))), ?_, ?_⟩
  · exact Runs.bind (Runs.get w) (Runs.bind (Runs.lift (readAt_of_getElem? (h.entry hpos)) w)
      (Runs.bind hpurge (Runs.bind hremove (Runs.ite_neg (by simp) (Runs.bind hremove'
        (Runs.ite_neg (by simp) hshifted))))))
  · refine h.drop hpos hfits hquiet₄ ?_ ?_ ?_ (World.put_files_self _ _ _)
    · rw [World.put_tables, hw₄, World.withTables_tables, herased]
    · intro file hne hfile
      rw [World.put_files_of_ne _ hne, hw₄, World.withTables_files, hw₃, World.put_files_of_ne,
        hw₂, World.put_files_of_ne]
      · apply hpurged.files
        rintro indexDef _ rfl
        exact hfile rfl
      · rintro rfl
        exact hfile rfl
      · rintro rfl
        exact hfile rfl
    · simp [hw₄, hw₃, World.put_files_of_ne]

end Lists

end Maxql.Disk
