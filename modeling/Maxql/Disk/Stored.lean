import Maxql.Disk.Engine
import Maxql.Disk.Failure
import Maxql.Engine.SoundTables

/-!
# Files that hold a database

While no file operation fails, the executors over files do with the files of a
table what the executors over a table with a data file and indexes do with it,
and touch no other file.

The groups are the operations, the files of a table, what is read from them,
and what is written to them.

* `createRowSource_runs`: the rows of a row source;
* `executeInsert_runs`, `executeDelete_runs`, `answerUpdate_runs`: the rows
  after a statement.
-/

namespace Maxql.Disk

open Program Bytes

variable {w : World}

/-! ## Operations -/

section Operations

variable {file : FileName} {mode : OpenMode}

theorem World.put_eq_self {contents : file.Contents} (h : w.files file = some contents) :
    w.put file (some contents) = w := by
  unfold World.put
  rw [← h, Function.update_eq_self]

/-- The state with other entries in the list of the tables. -/
def World.withTables (w : World) (tables : Database) : World := { w with tables }

@[simp] theorem World.withTables_files (w : World) (tables : Database) :
    (w.withTables tables).files = w.files := rfl

@[simp] theorem World.withTables_tables (w : World) (tables : Database) :
    (w.withTables tables).tables = tables := rfl

/-- A file that is there is opened. -/
theorem openFile_present (hquiet : w.failsIn = none) (hmode : mode = .read ∨ mode = .update)
    {contents : file.Contents} (hfile : w.files file = some contents) (code : ErrorCode)
    (msg : Text) : Runs (openFile file mode code msg) w (.opened, .ok ()) w := by
  apply openFile_opened
  have hgoes := fileOperation_goes (w := w) (by simp [hquiet])
  rw [World.tick_of_none hquiet] at hgoes
  refine Runs.bind hgoes (Runs.bind (Runs.get w) ?_)
  obtain rfl | rfl := hmode
  · show Runs (pure (if (w.files file).isSome then Stream.opened else Stream.null)) w .opened w
    rw [hfile]
    exact Runs.pure _ _
  · show Runs (pure (if (w.files file).isSome then Stream.opened else Stream.null)) w .opened w
    rw [hfile]
    exact Runs.pure _ _

theorem openFile_write (hquiet : w.failsIn = none) (code : ErrorCode) (msg : Text) :
    Runs (openFile file .write code msg) w (.opened, .ok ()) (w.put file (some file.empty)) := by
  have hopen : Runs (fopen file .write) w .opened (w.tick.put file (some file.empty)) :=
    fopen_write (by simp [hquiet])
  rw [World.tick_of_none hquiet] at hopen
  exact openFile_opened hopen

theorem contents_runs {contents : file.Contents} (hfile : w.files file = some contents) :
    Runs (Stream.contents (Stream.opened : Stream file)) w contents w := by
  refine Runs.bind (Runs.get w) ?_
  rw [hfile]
  exact Runs.pure _ _

theorem flush_runs (contents : file.Contents) :
    Runs ((Stream.opened : Stream file).flush contents) w () (w.put file (some contents)) :=
  Runs.modify _ _

theorem removeFile_runs (hquiet : w.failsIn = none) {contents : file.Contents}
    (hfile : w.files file = some contents) :
    Runs (removeFile file) w true (w.put file none) := by
  have hremove := removeFile_goes (by simp [hquiet]) hfile
  rw [World.tick_of_none hquiet] at hremove
  exact hremove

end Operations

/-! ## The files of a table -/

/-- The table that a file belongs to. -/
def FileName.table : FileName → Option Text
  | .catalog => none
  | .schema tableName => some tableName
  | .data tableName => some tableName
  | .index tableName _ => some tableName

/-- The file holds rows or keys of the table. -/
def FileName.HoldsRows (tableName : Text) (file : FileName) : Prop :=
  file = .data tableName ∨ ∃ indexName, file = .index tableName indexName

/-- The keys of an index file.  One without a byte has none. -/
def fileKeys (contents : Option KeyMap) : KeyMap := contents.getD indexCreate

/-- The data file and the index files hold those of the table. -/
structure RowFiles (files : (file : FileName) → Option file.Contents) (t : TableState) : Prop where
  data : files (.data t.schema.tableName) = some t.dataFile
  indexes : ∀ entry ∈ t.indexes,
    (files (.index t.schema.tableName entry.1.name)).map fileKeys = some entry.2

/-- Every index has a key, so the tree in its file has a root. -/
def Filled (indexes : IndexSet) : Prop := ∀ entry ∈ indexes, entry.2 ≠ indexCreate

/-- The file of an index that has a key. -/
theorem RowFiles.rooted {files : (file : FileName) → Option file.Contents} {t : TableState}
    (h : RowFiles files t) {entry : IndexDefinition × KeyMap} (hentry : entry ∈ t.indexes)
    (hfilled : entry.2 ≠ indexCreate) :
    files (.index t.schema.tableName entry.1.name) = some (some entry.2) := by
  obtain ⟨contents, hfile, hkeys⟩ := Option.map_eq_some_iff.1 (h.indexes entry hentry)
  rw [hfile]
  cases contents with
  | none => exact absurd hkeys.symm hfilled
  | some index => exact congrArg (fun index => some (some index)) hkeys

/-- The entry of a table in the list of the tables. -/
def tableMeta (t : TableState) : TableMeta :=
  { name := t.schema.tableName, schema := t.schema, indexMeta := t.indexMeta }

/-- Only the rows and the keys of the table have been written. -/
structure Rewrites (w w' : World) (t t' : TableState) : Prop where
  schema : t'.schema = t.schema
  indexMeta : t'.indexMeta = t.indexMeta
  tables : w'.tables = w.tables
  quiet : w'.failsIn = none
  others : ∀ file, ¬file.HoldsRows t.schema.tableName → w'.files file = w.files file
  rows : RowFiles w'.files t'

/-! ## Reading -/

section Reading

variable {t : TableState}

theorem storageOpen_runs (hquiet : w.failsIn = none) {tableName : Text} {dataFile : List UInt8}
    (hfile : w.files (.data tableName) = some dataFile) :
    Runs (storageOpen tableName) w .opened w :=
  Runs.bind (openFile_present hquiet (.inr rfl) hfile _ _) (Runs.pure _ _)

theorem indexLoad_runs (hquiet : w.failsIn = none) {tableName : Text} {indexDef : IndexDefinition}
    {index : KeyMap} (hfile : w.files (.index tableName indexDef.name) = some (some index)) :
    Runs (indexLoad tableName indexDef) w index w :=
  Runs.bind (openFile_present hquiet (.inl rfl) hfile _ _)
    (Runs.bind (contents_runs hfile) (Runs.pure _ _))

theorem indexSetLoad_runs (hquiet : w.failsIn = none) {tableName : Text} {indexes : IndexSet}
    (hfiles : ∀ entry ∈ indexes, w.files (.index tableName entry.1.name) = some (some entry.2)) :
    Runs (indexSetLoad tableName (indexes.map Prod.fst)) w indexes w := by
  induction indexes with
  | nil => exact Runs.pure _ _
  | cons entry indexes ih =>
    obtain ⟨hfirst, hrest⟩ := List.forall_mem_cons.1 hfiles
    exact Runs.bind (indexLoad_runs hquiet hfirst) (Runs.bind (ih hrest) (Runs.pure _ _))

/-- The indexes of a table whose indexes have keys. -/
theorem RowFiles.load_runs (hquiet : w.failsIn = none) (hfiles : RowFiles w.files t)
    (hfilled : Filled t.indexes) :
    Runs (indexSetLoad t.schema.tableName t.indexMeta) w t.indexes w :=
  indexSetLoad_runs hquiet fun entry hentry => hfiles.rooted hentry (hfilled entry hentry)

theorem createRowSource_runs [UnionMemory] (hquiet : w.failsIn = none) (hfiles : RowFiles w.files t)
    {decision : Option IndexDecision} (hfilled : decision ≠ none → Filled t.indexes)
    {rows : List StoredRow} (h : Maxql.createRowSource t decision = .ok rows) :
    Runs (createRowSource t.schema decision) w rows w := by
  have hopen := storageOpen_runs hquiet hfiles.data
  have hdata := contents_runs (w := w) hfiles.data
  cases decision with
  | none => exact Runs.bind hopen (Runs.bind hdata (Runs.lift h w))
  | some decision =>
    obtain ⟨index, hindex, h⟩ := Checked.bind_eq_ok.1 h
    obtain ⟨key, hkey, h⟩ := Checked.bind_eq_ok.1 h
    have hfile : w.files (.index t.schema.tableName decision.indexDef.name)
        = some (some index) := by
      unfold indexOpen at hindex
      split at hindex
      · next entry hfound =>
        cases hindex
        have hmem := List.mem_of_find?_eq_some hfound
        have hentry := hfiles.rooted hmem (hfilled (Option.some_ne_none _) entry hmem)
        have hsame := List.find?_some hfound
        rw [beq_iff_eq] at hsame
        rw [← hsame]
        exact hentry
      · cases hindex
    refine Runs.bind (openFile_present hquiet (.inl rfl) hfile _ _) ?_
    refine Runs.bind (Runs.lift hkey w) (Runs.bind (contents_runs hfile) (Runs.bind hopen ?_))
    cases hfound : index key with
    | none =>
      rw [hfound] at h
      cases h
      exact Runs.pure _ _
    | some offset =>
      rw [hfound] at h
      obtain ⟨row, hrow, h⟩ := Checked.bind_eq_ok.1 h
      refine Runs.bind hdata (Runs.bind (Runs.lift hrow w) ?_)
      cases row with
      | none =>
        cases h
        exact Runs.pure _ _
      | some row =>
        cases h
        exact Runs.pure _ _

theorem executeSelect_runs [UnionMemory] (hquiet : w.failsIn = none) (hfiles : RowFiles w.files t)
    {plan : SelectExecPlan} {decision : Option IndexDecision}
    (hfilled : decision ≠ none → Filled t.indexes) {rows : List StoredRow}
    (h : Maxql.executeSelect t plan decision = .ok rows) :
    Runs (executeSelect (tableMeta t) plan decision) w (.ok (.rows plan.queryColumnOrder
      (rows.map fun x => selectedValues plan.queryColumnOrder x.row))) w := by
  obtain ⟨source, hsource, h⟩ := Checked.bind_eq_ok.1 h
  exact Runs.bind (createRowSource_runs hquiet hfiles hfilled hsource)
    (Runs.bind (Runs.lift h w) (Runs.pure _ _))

end Reading

/-! ## Writing -/

section Writing

variable {t t' : TableState}

/-- The files of the indexes, one after the other. -/
theorem indexSetSave_runs (hquiet : w.failsIn = none) (tableName : Text) {indexes : TreeSet}
    (hnames : (indexes.map fun entry => entry.1.name).Nodup) :
    ∃ w', Runs (indexSetSave tableName indexes) w () w' ∧ w'.tables = w.tables ∧
      w'.failsIn = none ∧
      (∀ file, (∀ entry ∈ indexes, file ≠ .index tableName entry.1.name) →
        w'.files file = w.files file) ∧
      ∀ entry ∈ indexes, w'.files (.index tableName entry.1.name) = some entry.2 := by
  induction indexes generalizing w with
  | nil => exact ⟨w, Runs.pure _ _, rfl, hquiet, fun _ _ => rfl, nofun⟩
  | cons entry indexes ih =>
    rw [List.map_cons, List.nodup_cons] at hnames
    have hsave := indexSave_goes (w := w) (by simp [hquiet]) tableName entry.1 entry.2
    rw [World.tick_of_none hquiet] at hsave
    obtain ⟨w', hrest, htables, hquiet', hothers, hfiles⟩ :=
      ih (w := w.put (.index tableName entry.1.name) (some entry.2)) hquiet hnames.2
    refine ⟨w', Runs.bind hsave hrest, htables, hquiet', ?_, ?_⟩
    · intro file hfile
      obtain ⟨hfirst, hother⟩ := List.forall_mem_cons.1 hfile
      rw [hothers file hother, World.put_files_of_ne _ hfirst]
    · intro e he
      rcases List.mem_cons.1 he with rfl | he
      · rw [hothers, World.put_files_self]
        intro other hother heq
        apply hnames.1
        rw [(FileName.index.inj heq).2]
        exact List.mem_map_of_mem hother
      · exact hfiles e he

/-- The data file and the index files after a statement. -/
theorem exists_rewrites (t' : TableState) (hquiet : w.failsIn = none)
    (hnames : (t.indexMeta.map (·.name)).Nodup) (hschema : t'.schema = t.schema)
    (hmeta : t'.indexMeta = t.indexMeta) :
    ∃ w', Runs (indexSetSave t.schema.tableName (rooted t'.indexes))
      (w.put (.data t.schema.tableName) (some t'.dataFile)) () w' ∧ Rewrites w w' t t' := by
  rw [← hmeta, TableState.indexMeta, List.map_map] at hnames
  have hrooted : ((rooted t'.indexes).map fun entry => entry.1.name).Nodup := by
    rw [rooted, List.map_map]
    exact hnames
  obtain ⟨w', hsave, htables, hquiet', hothers, hfiles⟩ := indexSetSave_runs
    (w := w.put (.data t.schema.tableName) (some t'.dataFile)) hquiet t.schema.tableName hrooted
  refine ⟨w', hsave, hschema, hmeta, htables, hquiet', ?_, ?_, ?_⟩
  · intro file hfile
    rw [hothers]
    · apply World.put_files_of_ne
      intro heq
      exact hfile (.inl heq)
    · intro entry _ heq
      exact hfile (.inr ⟨_, heq⟩)
  · rw [hschema, hothers]
    · exact World.put_files_self _ _ _
    · intro entry _ heq
      cases heq
  · intro entry hentry
    rw [hschema, hfiles (entry.1, some entry.2) (List.mem_map_of_mem hentry)]
    rfl

/-- A statement that writes nothing. -/
theorem rewrites_self (hquiet : w.failsIn = none) (hfiles : RowFiles w.files t) :
    Rewrites w w t t :=
  ⟨rfl, rfl, rfl, hquiet, fun _ _ => rfl, hfiles⟩

theorem executeInsert_runs [UnionMemory] (hquiet : w.failsIn = none) (hfiles : RowFiles w.files t)
    (hfilled : Filled t.indexes) (hnames : (t.indexMeta.map (·.name)).Nodup) {values : DataRow}
    {result : Except Error TableState} (h : Maxql.executeInsert t values = .ok result) :
    ∃ w', Runs (executeInsert (tableMeta t) values) w (result.map fun _ => ()) w' ∧
      (∀ e, result = .error e → w' = w) ∧ (∀ t', result = .ok t' → Rewrites w w' t t') := by
  obtain ⟨found, hcheck, h⟩ := Checked.bind_eq_ok.1 h
  have hload := hfiles.load_runs hquiet hfilled
  have hopen := storageOpen_runs hquiet hfiles.data
  cases found with
  | some indexDef =>
    cases h
    refine ⟨w, ?_, fun _ _ => rfl, fun _ h => (by cases h)⟩
    exact Runs.bind hopen (Runs.bind hload (Runs.bind (Runs.lift hcheck w) (Runs.pure _ _)))
  | none =>
    obtain ⟨⟨dataFile, offset⟩, hstore, h⟩ := Checked.bind_eq_ok.1 h
    obtain ⟨indexes, hindex, h⟩ := Checked.bind_eq_ok.1 h
    cases h
    obtain ⟨w', hsave, hrewrites⟩ := exists_rewrites
      (t := t) { t with dataFile, indexes } hquiet hnames rfl (indexSetInsert_meta hindex)
    refine ⟨w', Runs.bind hopen (Runs.bind hload (Runs.bind (Runs.lift hcheck w) ?_)),
      fun _ h => (by cases h), fun _ h => Except.ok.inj h ▸ hrewrites⟩
    have hinsert : Runs (storageInsertRow (.opened : Stream (.data t.schema.tableName)) values
        t.schema) w offset (w.put (.data t.schema.tableName) (some dataFile)) :=
      Runs.bind (contents_runs hfiles.data)
        (Runs.bind (Runs.lift hstore w) (Runs.bind (flush_runs _) (Runs.pure _ _)))
    exact Runs.bind hinsert
      (Runs.bind (Runs.lift hindex _) (Runs.bind hsave (Runs.pure _ _)))

theorem executeDelete_runs [UnionMemory] (hquiet : w.failsIn = none) (hfiles : RowFiles w.files t)
    (hfilled : Filled t.indexes) (hnames : (t.indexMeta.map (·.name)).Nodup) {filter : WhereFilter}
    {decision : Option IndexDecision} {count : Nat} {t' : TableState}
    (hcount : deleteAffectedRows t filter decision = .ok count)
    (h : Maxql.executeDelete t filter decision = .ok (.ok t')) :
    ∃ w', Runs (executeDelete (tableMeta t) filter decision) w (.ok (.affectedRows count)) w' ∧
      Rewrites w w' t t' := by
  obtain ⟨rows, hrows, h⟩ := Checked.bind_eq_ok.1 h
  obtain ⟨indexes, hindex, h⟩ := Checked.bind_eq_ok.1 h
  obtain ⟨rows', hrows', hcount⟩ := Checked.bind_eq_ok.1 hcount
  cases hrows.symm.trans hrows'
  cases hcount
  obtain ⟨source, hsource, hmatch⟩ := Checked.bind_eq_ok.1 hrows
  have hstart : ∀ {r w'}, Runs (if rows = [] then return .ok (.affectedRows 0)
      else do
        let dataFile ← storageOpen t.schema.tableName
        storageDeleteRows dataFile (rows.map (·.offset))
        indexSetSave t.schema.tableName (rooted indexes)
        return .ok (.affectedRows rows.length) : Prog World (Except Error Response)) w r w' →
      Runs (executeDelete (tableMeta t) filter decision) w r w' := by
    intro r w' hrest
    exact Runs.bind (hfiles.load_runs hquiet hfilled)
      (Runs.bind (createRowSource_runs hquiet hfiles (fun _ => hfilled) hsource)
        (Runs.bind (Runs.lift hmatch w) (Runs.bind (Runs.lift hindex w) hrest)))
  split at h
  · next hnone =>
    cases h
    refine ⟨w, hstart (Runs.ite_pos hnone ?_), rewrites_self hquiet hfiles⟩
    rw [hnone]
    exact Runs.pure _ _
  · next hsome =>
    cases h
    obtain ⟨w', hsave, hrewrites⟩ := exists_rewrites (t := t)
      { t with
        dataFile := Maxql.storageDeleteRows t.dataFile (rows.map (·.offset))
        indexes } hquiet hnames rfl (deleteFromIndexes_meta hindex)
    refine ⟨w', hstart (Runs.ite_neg hsome ?_), hrewrites⟩
    have hdelete : Runs (storageDeleteRows (.opened : Stream (.data t.schema.tableName))
        (rows.map (·.offset))) w () (w.put (.data t.schema.tableName)
          (some (Maxql.storageDeleteRows t.dataFile (rows.map (·.offset))))) :=
      Runs.bind (contents_runs hfiles.data) (flush_runs _)
    exact Runs.bind (storageOpen_runs hquiet hfiles.data)
      (Runs.bind hdelete (Runs.bind hsave (Runs.pure _ _)))

/-- The loop that writes, on the data file. -/
theorem writeUpdates_runs [UnionMemory] {pairs : List UpdatePair} {t t' : TableState}
    (hdata : w.files (.data t.schema.tableName) = some t.dataFile)
    (h : Maxql.writeUpdates pairs t = .ok t') :
    Runs (writeUpdates (.opened : Stream (.data t.schema.tableName)) t.schema pairs t.indexes) w
      t'.indexes (w.put (.data t.schema.tableName) (some t'.dataFile)) := by
  induction pairs generalizing w t with
  | nil =>
    cases h
    rw [World.put_eq_self hdata]
    exact Runs.pure _ _
  | cons pair pairs ih =>
    obtain ⟨⟨dataFile, offset⟩, hstore, h⟩ := Checked.bind_eq_ok.1 h
    obtain ⟨⟨all, indexes₁⟩, hdelete, h⟩ := Checked.bind_eq_ok.1 h
    obtain ⟨indexes₂, hinsert, h⟩ := Checked.bind_eq_ok.1 h
    have hrest := ih (w := w.put (.data t.schema.tableName) (some dataFile))
      (t := { t with dataFile, indexes := indexes₂ }) (World.put_files_self _ _ _) h
    rw [World.put_put] at hrest
    have hremoved : Runs (storageDeleteRow (.opened : Stream (.data t.schema.tableName))
        pair.original.offset) w () (w.put (.data t.schema.tableName)
          (some (Maxql.storageDeleteRow t.dataFile pair.original.offset))) :=
      Runs.bind (contents_runs hdata) (flush_runs _)
    have hadded : Runs (storageInsertRow (.opened : Stream (.data t.schema.tableName))
        pair.updated t.schema) (w.put (.data t.schema.tableName)
          (some (Maxql.storageDeleteRow t.dataFile pair.original.offset))) offset
        (w.put (.data t.schema.tableName) (some dataFile)) := by
      refine Runs.bind (contents_runs (World.put_files_self _ _ _))
        (Runs.bind (Runs.lift hstore _) (Runs.bind (flush_runs _) ?_))
      rw [World.put_put]
      exact Runs.pure _ _
    exact Runs.bind hremoved (Runs.bind hadded
      (Runs.bind (Runs.lift hdelete _) (Runs.bind (Runs.lift hinsert _) hrest)))

theorem answerUpdate_runs [UnionMemory] (hquiet : w.failsIn = none) (hfiles : RowFiles w.files t)
    (hfilled : Filled t.indexes) (hnames : (t.indexMeta.map (·.name)).Nodup) {plan : UpdateExecPlan}
    {decision : Option IndexDecision} {count : Nat} {result : Except Error TableState}
    (hcount : updateAffectedRows t plan decision = .ok count)
    (h : Maxql.executeUpdate t plan decision = .ok result) :
    ∃ w', Runs (answerUpdate (tableMeta t) plan decision) w
        (result.map fun _ => .affectedRows count) w' ∧
      (∀ e, result = .error e → w' = w) ∧ (∀ t', result = .ok t' → Rewrites w w' t t') := by
  obtain ⟨pairs, hpairs, h⟩ := Checked.bind_eq_ok.1 h
  obtain ⟨checked, hcheck, h⟩ := Checked.bind_eq_ok.1 h
  obtain ⟨pairs', hpairs', hcount⟩ := Checked.bind_eq_ok.1 hcount
  cases hpairs.symm.trans hpairs'
  cases hcount
  obtain ⟨rows, hrows, hupdate⟩ := Checked.bind_eq_ok.1 hpairs
  obtain ⟨source, hsource, hmatch⟩ := Checked.bind_eq_ok.1 hrows
  obtain ⟨conflict, hconflict, hcheck⟩ := Checked.bind_eq_ok.1 hcheck
  have hstart : ∀ {p : IndexSet → List UpdatePair → Option IndexDefinition →
      Prog World (Except Error Response)} {r w'}, Runs (p t.indexes pairs conflict) w r w' →
      Runs (do
        let indexSet ← indexSetLoad t.schema.tableName t.indexMeta
        let source ← createRowSource (tableMeta t).schema decision
        let rows ← matchingRows plan.filter source
        let pairs ← updatePairs plan.values rows
        p indexSet pairs (← (updateConflict indexSet pairs : Checked (Option IndexDefinition))))
        w r w' := by
    intro p r w' hrest
    exact Runs.bind (hfiles.load_runs hquiet hfilled)
      (Runs.bind (createRowSource_runs hquiet hfiles (fun _ => hfilled) hsource)
        (Runs.bind (Runs.lift hmatch w) (Runs.bind (Runs.lift hupdate w)
          (Runs.bind (Runs.lift hconflict w) hrest))))
  cases conflict with
  | some indexDef =>
    cases hcheck
    cases h
    exact ⟨w, hstart (Runs.pure _ _), fun _ _ => rfl, fun _ h => (by cases h)⟩
  | none =>
    obtain ⟨shared, hshared, hcheck⟩ := Checked.bind_eq_ok.1 hcheck
    cases shared with
    | some indexDef =>
      cases hcheck
      cases h
      exact ⟨w, hstart (Runs.bind (Runs.lift hshared w) (Runs.pure _ _)), fun _ _ => rfl,
        fun _ h => (by cases h)⟩
    | none =>
      cases hcheck
      obtain ⟨t', hwrite, h⟩ := Checked.bind_eq_ok.1 h
      cases h
      obtain ⟨hschema, hmeta⟩ := writeUpdates_meta hwrite
      obtain ⟨w', hsave, hrewrites⟩ := exists_rewrites _ hquiet hnames hschema hmeta
      refine ⟨w', hstart (Runs.bind (Runs.lift hshared w) ?_), fun _ h => (by cases h),
        fun _ h => Except.ok.inj h ▸ hrewrites⟩
      exact Runs.bind (storageOpen_runs hquiet hfiles.data)
        (Runs.bind (writeUpdates_runs hfiles.data hwrite) (Runs.bind hsave (Runs.pure _ _)))

end Writing

end Maxql.Disk
