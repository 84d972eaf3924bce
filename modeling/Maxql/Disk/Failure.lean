import Maxql.Disk.Ddl
import Maxql.Engine.Step

/-!
# A file operation that fails

CREATE TABLE, DROP TABLE and TRUNCATE TABLE where one file operation fails,
from a state in which memory and files agree.  None of the three undoes what
it has done to the files when a later step fails, so only a failure of the
first step leaves everything as it was.

* `onError_createTable`, `onError_dropTable`, `onError_truncateTable`: each
  statement, operation by operation;
* `tableStatement_intact_iff`: which failures are harmless.
-/

namespace Maxql.Disk

open Program Bytes

/-! ## Agreement -/

/-- Memory, catalog, schema, data and index files agree. -/
structure Agrees (strtof : Strtof) (w : World) : Prop where
  names : (w.tables.map (·.name)).Nodup
  loads : databaseLoad strtof w.files = .ok (.ok w.tables)
  schemas : ∀ name, (w.files (.schema name)).isSome ↔ ∃ t ∈ w.tables, t.name = name
  data : ∀ name, (w.files (.data name)).isSome ↔ ∃ t ∈ w.tables, t.name = name
  indexes : ∀ t ∈ w.tables, ∀ indexDef ∈ t.indexMeta,
    (w.files (.index t.name indexDef.name)).isSome

/-- The files and the list of the tables are as they were, and the files give the list. -/
structure Intact (strtof : Strtof) (w w' : World) : Prop where
  files : w'.files = w.files
  tables : w'.tables = w.tables
  loads : databaseLoad strtof w'.files = .ok (.ok w'.tables)

variable {strtof : Strtof} {unwritten : Unwritten} {printFloat : FloatFormat} {w w' : World}
  {n : Nat}

theorem Agrees.intact (h : Agrees strtof w) (hfiles : w'.files = w.files)
    (htables : w'.tables = w.tables) : Intact strtof w w' :=
  ⟨hfiles, htables, by rw [hfiles, htables]; exact h.loads⟩

theorem Agrees.schema_present (h : Agrees strtof w) {t : TableMeta} (ht : t ∈ w.tables) :
    ∃ contents, w.files (.schema t.name) = some contents :=
  Option.isSome_iff_exists.1 ((h.schemas t.name).2 ⟨t, ht, rfl⟩)

theorem Agrees.data_present (h : Agrees strtof w) {t : TableMeta} (ht : t ∈ w.tables) :
    ∃ contents, w.files (.data t.name) = some contents :=
  Option.isSome_iff_exists.1 ((h.data t.name).2 ⟨t, ht, rfl⟩)

theorem Agrees.schema_absent (h : Agrees strtof w) {name : Text}
    (hname : ∀ t ∈ w.tables, t.name ≠ name) : w.files (.schema name) = none := by
  refine Option.not_isSome_iff_eq_none.1 fun hsome => ?_
  obtain ⟨t, ht, heq⟩ := (h.schemas name).1 hsome
  exact hname t ht heq

theorem Agrees.data_absent (h : Agrees strtof w) {name : Text}
    (hname : ∀ t ∈ w.tables, t.name ≠ name) : w.files (.data name) = none := by
  refine Option.not_isSome_iff_eq_none.1 fun hsome => ?_
  obtain ⟨t, ht, heq⟩ := (h.data name).1 hsome
  exact hname t ht heq

/-- A file that has come or gone. -/
theorem Intact.file (h : Intact strtof w w') {file : FileName} {contents : Option file.Contents}
    (hfile : w'.files file = contents) : w.files file = contents := by
  rw [← h.files, hfile]

/-! ## Files of a table -/

theorem storageCreateTable_fails (h : w.failsIn = some 0) (tableName : Text) :
    ∃ e, Runs (storageCreateTable tableName) w (.error e) w.tick :=
  ⟨_, Runs.bind (openFile_null (fopen_fails h)) rfl⟩

theorem storageCreateTable_goes (h : w.failsIn ≠ some 0) {tableName : Text}
    (habsent : w.files (.data tableName) = none) :
    Runs (storageCreateTable tableName) w (.ok ())
      (w.tick.put (.data tableName) (some (FileName.data tableName).empty)) :=
  Runs.bind (openFile_opened (fopen_create h habsent)) rfl

/-- What `index_set_purge` leaves.  It goes on behind an index file that it cannot remove. -/
structure Purged (tableName : Text) (indexMeta : IndexMeta) (w w' : World) : Prop where
  tables : w'.tables = w.tables
  files : ∀ file, (∀ indexDef ∈ indexMeta, file ≠ .index tableName indexDef.name) →
    w'.files file = w.files file
  going : w.failsIn = none → w'.failsIn = none
  failed : ∀ n, w.failsIn = some n → n < indexMeta.length → w'.failsIn = none
  failsIn : ∀ n, w.failsIn = some (indexMeta.length + n) → w'.failsIn = some n
  gone : ∀ n, w.failsIn = some (indexMeta.length + n) → ∀ indexDef ∈ indexMeta,
    w'.files (.index tableName indexDef.name) = none

theorem indexDeleteFile_spec (w : World) (tableName indexName : Text) : ∃ w₁,
    Runs (indexDeleteFile tableName indexName) w () w₁ ∧ w₁.tables = w.tables ∧
      w₁.failsIn = w.tick.failsIn ∧
      (∀ other, other ≠ .index tableName indexName → w₁.files other = w.files other) ∧
      (w.failsIn ≠ some 0 → w₁.files (.index tableName indexName) = none) := by
  obtain ⟨removed, w₁, hrun, hspec⟩ := removeFile_spec w (.index tableName indexName)
  have hdelete : ∃ r, Runs (deleteFile (.index tableName indexName) .storage
      (text "Cannot delete index file")) w r w₁ := by
    cases removed with
    | true => exact ⟨_, Runs.bind hrun rfl⟩
    | false => exact ⟨_, Runs.bind hrun rfl⟩
  obtain ⟨r, hdelete⟩ := hdelete
  exact ⟨w₁, Runs.bind hdelete (Runs.pure _ _), hspec⟩

theorem indexSetPurge_spec (tableName : Text) (indexMeta : IndexMeta) (w : World) :
    ∃ w', Runs (indexSetPurge tableName indexMeta) w () w' ∧ Purged tableName indexMeta w w' := by
  induction indexMeta generalizing w with
  | nil =>
    refine ⟨w, Runs.pure _ _, rfl, fun _ _ => rfl, id, fun n _ hn => ?_, fun n h => ?_,
      fun _ _ => nofun⟩
    · exact absurd hn (Nat.not_lt_zero n)
    · rw [h, List.length_nil, Nat.zero_add]
  | cons indexDef indexMeta ih =>
    obtain ⟨w₁, hdelete, htables, hfailsIn, hfiles, hgone⟩ :=
      indexDeleteFile_spec w tableName indexDef.name
    obtain ⟨w₂, hpurge, hpurged⟩ := ih w₁
    have hnone : w.tick.failsIn = none → w₂.failsIn = none := fun h =>
      hpurged.going (hfailsIn.trans h)
    -- the operations that are left for the other indexes
    have hleft : ∀ n, w.failsIn = some ((indexDef :: indexMeta).length + n) →
        w₁.failsIn = some (indexMeta.length + n) := fun n h => by
      rw [hfailsIn]
      apply World.tick_failsIn_eq_some.2
      rw [h, List.length_cons]
      congr 1
      omega
    refine ⟨w₂, Runs.bind hdelete hpurge, hpurged.tables.trans htables, ?_, ?_, ?_, ?_, ?_⟩
    · intro file hfile
      obtain ⟨hne, hrest⟩ := List.forall_mem_cons.1 hfile
      rw [hpurged.files file hrest, hfiles file hne]
    · intro h
      apply hnone
      rw [World.tick_of_none h]
      exact h
    · intro n h hn
      cases n with
      | zero => exact hnone (World.tick_failsIn_zero h)
      | succ n =>
        have hlt : n < indexMeta.length := Nat.lt_of_succ_lt_succ hn
        exact hpurged.failed n (hfailsIn.trans (World.tick_failsIn_eq_some.2 h)) hlt
    · exact fun n h => hpurged.failsIn n (hleft n h)
    · intro n h
      have hrest := hpurged.gone n (hleft n h)
      refine List.forall_mem_cons.2 ⟨?_, hrest⟩
      by_cases hagain : ∃ d ∈ indexMeta, d.name = indexDef.name
      · obtain ⟨d, hd, hname⟩ := hagain
        rw [← hname]
        exact hrest d hd
      · rw [hpurged.files]
        · apply hgone
          rw [h, List.length_cons]
          intro heq
          have hzero := Option.some.inj heq
          omega
        · intro d hd heq
          exact hagain ⟨d, hd, (FileName.index.inj heq).2.symm⟩

/-! ## The catalog -/

theorem databaseSave_fails (unwritten : Unwritten) (h : w.failsIn = some 0) :
    ∃ e, Runs (databaseSave unwritten) w (.error e) w.tick :=
  ⟨_, Runs.bind (openFile_null (fopen_fails h)) rfl⟩

/-- Only the opening of the catalog can fail. -/
theorem databaseSave_onError (unwritten : Unwritten) (h : w.failsIn ≠ some 0) (I : World → Prop) :
    OnError (databaseSave unwritten) w I := by
  rw [databaseSave, onError_of_runs (openFile_opened (fopen_write h))]
  intro e w' hrun
  obtain ⟨_, _, -, hrun⟩ := hrun.exists_of_bind
  obtain ⟨_, _, -, hrun⟩ := hrun.exists_of_bind
  obtain ⟨_, _, -, hrun⟩ := hrun.exists_of_bind
  cases hrun

theorem databaseAddTable_fails (unwritten : Unwritten) (h : w.failsIn = some 0)
    (schema : TableSchema) :
    ∃ e w₁, Runs (databaseAddTable unwritten schema) w (.error e) w₁ ∧ w₁.files = w.files := by
  obtain ⟨e, hsave⟩ := databaseSave_fails unwritten
    (w := { w with tables := databasePush w.tables schema }) h
  exact ⟨e, _, Runs.bind (Runs.modify _ _) (Runs.bind hsave (Runs.bind (Runs.modify _ _) rfl)), rfl⟩

theorem databaseAddTable_onError (h : w.failsIn ≠ some 0) (schema : TableSchema)
    (I : World → Prop) : OnError (databaseAddTable unwritten schema) w I := by
  rw [databaseAddTable, onError_of_runs (Runs.modify _ _)]
  intro e w' hrun
  obtain ⟨r, w₁, hsave, hrun⟩ := hrun.exists_of_bind
  cases r with
  | error e' =>
    have hno := databaseSave_onError unwritten
      (w := { w with tables := databasePush w.tables schema })
      h fun _ => False
    exact (hno e' w₁ hsave).elim
  | ok => cases hrun

theorem databaseRemoveTable_onError (h : w.failsIn ≠ some 0) (tableName : NameRef)
    (I : World → Prop) : OnError (databaseRemoveTable unwritten tableName) w I := by
  intro e w' hrun
  obtain ⟨_, _, hget, hrun⟩ := hrun.exists_of_bind
  obtain ⟨rfl, rfl⟩ := (Runs.get _).unique hget
  obtain ⟨tables, _, hshift, hrun⟩ := hrun.exists_of_bind
  obtain ⟨-, rfl⟩ := hshift.eq_of_lift
  obtain ⟨_, w₁, hset, hrun⟩ := hrun.exists_of_bind
  cases hset
  exact databaseSave_onError unwritten (w := { w with tables }) h I e w' hrun

theorem databaseShift_entry {tables : Database} (hnodup : (tables.map (·.name)).Nodup) {pos : Nat}
    {table : TableMeta} (htable : tables[pos]? = some table) :
    databaseShift tables (.entry pos) = .ok (tables.eraseIdx pos) := by
  obtain ⟨hpos, hget⟩ := List.getElem?_eq_some_iff.1 htable
  have hlen : (tables.take pos).length = pos := List.length_take_of_le (by omega)
  have hsplit : tables = tables.take pos ++ table :: tables.drop (pos + 1) := by
    rw [← hget, List.getElem_cons_drop, List.take_append_drop]
  have hbefore : ∀ t ∈ tables.take pos, t.name ≠ table.name := by
    intro t ht
    rw [hsplit, List.map_append, List.nodup_append] at hnodup
    exact hnodup.2.2 t.name (List.mem_map_of_mem ht) table.name (by simp)
  have hshift : databaseShift (tables.take pos ++ table :: tables.drop (pos + 1))
      (.entry (tables.take pos).length) = .ok (tables.take pos ++ tables.drop (pos + 1)) :=
    databaseShift_eq hbefore (.inr rfl)
  rw [hlen, ← hsplit] at hshift
  rw [hshift, List.eraseIdx_eq_take_drop_succ]

theorem databaseRemoveTable_fails (unwritten : Unwritten) (h : w.failsIn = some 0)
    {tableName : NameRef} {tables : Database}
    (hshift : databaseShift w.tables tableName = .ok tables) :
    ∃ e w₁, Runs (databaseRemoveTable unwritten tableName) w (.error e) w₁ ∧
      w₁.files = w.files := by
  obtain ⟨e, hsave⟩ := databaseSave_fails unwritten (w := { w with tables }) h
  exact ⟨e, _, Runs.bind (Runs.get _) (Runs.bind (Runs.lift hshift _) (Runs.bind rfl hsave)), rfl⟩

/-! ## CREATE TABLE -/

/-- Once the schema file of the new table is written, a failure leaves it. -/
theorem onError_createTable (h : Agrees strtof w) (hfails : w.failsIn = some n)
    {schema : TableSchema} {buf : Text}
    (hbuf : Maxql.schemaSaveTable unwritten printFloat schema none = .ok buf)
    (hnew : ∀ t ∈ w.tables, t.name ≠ schema.tableName) :
    OnError (executeCreateTable unwritten printFloat schema) w (Intact strtof w) ↔
      n = 0 ∨ 3 ≤ n := by
  have hne : FileName.data schema.tableName ≠ .schema schema.tableName := nofun
  have hleft : ∀ w', w'.files (.schema schema.tableName) = some buf → ¬Intact strtof w w' := by
    intro w' hfile hintact
    have hsome := hintact.file hfile
    rw [h.schema_absent hnew] at hsome
    cases hsome
  match n, hfails with
  | 0, hfails =>
    obtain ⟨e, hsave⟩ := schemaSaveTable_fails unwritten printFloat hfails schema none
    refine Iff.trans (onError_of_fails hsave rfl) ?_
    exact iff_of_true (h.intact rfl rfl) (.inl rfl)
  | n + 1, hfails =>
    have hgoes : w.failsIn ≠ some 0 := by simp [hfails]
    rw [executeCreateTable, onError_of_runs (schemaSaveTable_goes hgoes hbuf)]
    have hfails₁ : (w.tick.put (.schema schema.tableName) (some buf)).failsIn = some n :=
      World.tick_failsIn_eq_some.2 hfails
    have hfile₁ : (w.tick.put (.schema schema.tableName) (some buf)).files
        (.schema schema.tableName) = some buf := World.put_files_self _ _ _
    have habsent₁ : (w.tick.put (.schema schema.tableName) (some buf)).files
        (.data schema.tableName) = none := by
      rw [World.put_files_of_ne _ hne, World.tick_files, h.data_absent hnew]
    generalize w.tick.put (.schema schema.tableName) (some buf) = w₁ at hfails₁ hfile₁ habsent₁ ⊢
    match n, hfails₁ with
    | 0, hfails₁ =>
      obtain ⟨e, hcreate⟩ := storageCreateTable_fails hfails₁ schema.tableName
      refine Iff.trans (onError_of_fails hcreate rfl) ?_
      exact iff_of_false (hleft _ hfile₁) (by omega)
    | n + 1, hfails₁ =>
      have hgoes₁ : w₁.failsIn ≠ some 0 := by simp [hfails₁]
      refine Iff.trans (onError_of_runs (storageCreateTable_goes hgoes₁ habsent₁)) ?_
      have hfails₂ : (w₁.tick.put (.data schema.tableName)
          (some (FileName.data schema.tableName).empty)).failsIn = some n :=
        World.tick_failsIn_eq_some.2 hfails₁
      have hfile₂ : (w₁.tick.put (.data schema.tableName)
          (some (FileName.data schema.tableName).empty)).files (.schema schema.tableName)
          = some buf := by
        rw [World.put_files_of_ne _ hne.symm, World.tick_files, hfile₁]
      generalize w₁.tick.put (.data schema.tableName)
        (some (FileName.data schema.tableName).empty) = w₂ at hfails₂ hfile₂ ⊢
      match n, hfails₂ with
      | 0, hfails₂ =>
        obtain ⟨e, w₃, hadd, hfiles⟩ := databaseAddTable_fails unwritten hfails₂ schema
        refine Iff.trans (onError_of_error hadd) ?_
        exact iff_of_false (hleft w₃ (by rw [hfiles, hfile₂])) (by omega)
      | n + 1, hfails₂ =>
        refine iff_of_true (databaseAddTable_onError ?_ schema _) (.inr (by omega))
        simp [hfails₂]

/-! ## DROP TABLE -/

/-- `execute_drop_table` behind `index_set_purge`. -/
def dropFiles (unwritten : Unwritten) (tableName : Text) (pos : Nat) :
    Prog World (Except Error Unit) := do
  if !(← schemaRemoveTable tableName) then
    return errorFmt .executor (text "Cannot delete schema file")
  else if !(← storageRemoveTable tableName) then
    return errorFmt .executor (text "Cannot delete data file")
  else databaseRemoveTable unwritten (.entry pos)

/-- Once the schema file is gone, a failure does not bring it back. -/
theorem onError_dropFiles {I : World → Prop} {table : TableMeta} {pos : Nat}
    {schemaFile dataFile : List UInt8} (hnodup : (w.tables.map (·.name)).Nodup)
    (htable : w.tables[pos]? = some table)
    (hschema : w.files (.schema table.name) = some schemaFile)
    (hdata : w.files (.data table.name) = some dataFile)
    (hgone : ∀ w', w'.files (.schema table.name) = none → ¬I w') :
    OnError (dropFiles unwritten table.name pos) w I ↔
      (w.failsIn = some 0 → I w.tick) ∧ w.failsIn ≠ some 1 ∧ w.failsIn ≠ some 2 := by
  have hne : FileName.data table.name ≠ .schema table.name := nofun
  by_cases hfirst : w.failsIn = some 0
  · refine Iff.trans (onError_of_runs (removeFile_fails hfirst)) ?_
    refine Iff.trans (onError_of_error (Runs.ite_pos rfl (Runs.pure _ _))) ?_
    simp [hfirst]
  refine Iff.trans (onError_of_runs (removeFile_goes hfirst hschema)) ?_
  have htables₁ : (w.tick.put (.schema table.name) none).tables = w.tables := rfl
  have hfails₁ : (w.tick.put (.schema table.name) none).failsIn = w.tick.failsIn := rfl
  have hschema₁ : (w.tick.put (.schema table.name) none).files (.schema table.name) = none :=
    World.put_files_self _ _ _
  have hdata₁ : (w.tick.put (.schema table.name) none).files (.data table.name)
      = some dataFile := by
    rw [World.put_files_of_ne _ hne, World.tick_files, hdata]
  generalize w.tick.put (.schema table.name) none = w₁ at htables₁ hfails₁ hschema₁ hdata₁ ⊢
  show OnError (storageRemoveTable table.name >>= _) w₁ I ↔ _
  by_cases hsecond : w₁.failsIn = some 0
  · refine Iff.trans (onError_of_runs (removeFile_fails hsecond)) ?_
    refine Iff.trans (onError_of_error (Runs.ite_pos rfl (Runs.pure _ _))) ?_
    refine iff_of_false (hgone _ hschema₁) fun h => h.2.1 ?_
    exact World.tick_failsIn_eq_some.1 (hfails₁.symm.trans hsecond)
  refine Iff.trans (onError_of_runs (removeFile_goes hsecond hdata₁)) ?_
  have htables₂ : (w₁.tick.put (.data table.name) none).tables = w.tables := htables₁
  have hfails₂ : (w₁.tick.put (.data table.name) none).failsIn = w₁.tick.failsIn := rfl
  have hschema₂ : (w₁.tick.put (.data table.name) none).files (.schema table.name) = none := by
    rw [World.put_files_of_ne _ hne.symm, World.tick_files, hschema₁]
  generalize w₁.tick.put (.data table.name) none = w₂ at htables₂ hfails₂ hschema₂ ⊢
  show OnError (databaseRemoveTable unwritten (.entry pos)) w₂ I ↔ _
  have hthird : w₂.failsIn = some 0 ↔ w.failsIn = some 2 := by
    rw [hfails₂, World.tick_failsIn_eq_some, hfails₁, World.tick_failsIn_eq_some]
  by_cases hlast : w₂.failsIn = some 0
  · have hshift := databaseShift_entry hnodup htable
    rw [← htables₂] at hshift
    obtain ⟨e, w₃, hremove, hfiles⟩ := databaseRemoveTable_fails unwritten hlast hshift
    refine Iff.trans (onError_of_error hremove) ?_
    refine iff_of_false (hgone w₃ (by rw [hfiles, hschema₂])) fun h => h.2.2 (hthird.1 hlast)
  · refine iff_of_true (databaseRemoveTable_onError hlast _ I) ⟨fun h => absurd h hfirst, ?_, ?_⟩
    · rw [hfails₁, World.tick_failsIn_eq_some] at hsecond
      exact hsecond
    · exact fun h => hlast (hthird.2 h)

theorem onError_dropTable (h : Agrees strtof w) (hfails : w.failsIn = some n) {pos : Nat}
    {table : TableMeta} (htable : w.tables[pos]? = some table) :
    OnError (executeDropTable unwritten pos) w (Intact strtof w) ↔
      n < table.indexMeta.length ∨ n = 0 ∧ table.indexMeta = [] ∨
        table.indexMeta.length + 3 ≤ n := by
  have hmem : table ∈ w.tables := List.mem_of_getElem? htable
  obtain ⟨schemaFile, hschema⟩ := h.schema_present hmem
  obtain ⟨dataFile, hdata⟩ := h.data_present hmem
  obtain ⟨w₁, hpurge, hpurged⟩ := indexSetPurge_spec table.name table.indexMeta w
  refine Iff.trans (onError_of_runs (Runs.get w)) ?_
  refine Iff.trans (onError_of_runs (Runs.lift (readAt_of_getElem? htable) w)) ?_
  refine Iff.trans (onError_of_runs hpurge) ?_
  have hschema₁ := (hpurged.files (.schema table.name) fun _ _ => nofun).trans hschema
  have hdata₁ := (hpurged.files (.data table.name) fun _ _ => nofun).trans hdata
  refine Iff.trans (onError_dropFiles (hpurged.tables ▸ h.names) (hpurged.tables ▸ htable) hschema₁
    hdata₁ fun w' hfile hintact => ?_) ?_
  · have hnone := hintact.file hfile
    rw [hschema] at hnone
    cases hnone
  by_cases hlt : n < table.indexMeta.length
  · rw [hpurged.failed n hfails hlt]
    simp [hlt]
  · obtain ⟨k, rfl⟩ := Nat.exists_eq_add_of_le (Nat.le_of_not_lt hlt)
    have hkeep : Intact strtof w w₁.tick ↔ table.indexMeta = [] := by
      constructor
      · intro hintact
        refine List.eq_nil_iff_forall_not_mem.2 fun indexDef hindexDef => ?_
        have hfile := hintact.file (hpurged.gone k hfails indexDef hindexDef)
        have hsome := h.indexes table hmem indexDef hindexDef
        rw [hfile] at hsome
        cases hsome
      · intro hnil
        refine h.intact (funext fun file => hpurged.files file ?_) hpurged.tables
        rw [hnil]
        exact fun _ => nofun
    rw [hpurged.failsIn k hfails, hkeep]
    simp only [Option.some.injEq, ne_eq]
    cases table.indexMeta with
    | nil => simp; omega
    | cons indexDef indexMeta => simp; omega

/-! ## TRUNCATE TABLE -/

theorem onError_truncateTable (h : Agrees strtof w) (hfails : w.failsIn = some n) {pos : Nat}
    {table : TableMeta} (htable : w.tables[pos]? = some table) :
    OnError (executeTruncateTable pos) w (Intact strtof w) ↔ n ≠ 1 := by
  obtain ⟨dataFile, hdata⟩ := h.data_present (List.mem_of_getElem? htable)
  refine Iff.trans (onError_of_runs (Runs.get w)) ?_
  refine Iff.trans (onError_of_runs (Runs.lift (readAt_of_getElem? htable) w)) ?_
  match n, hfails with
  | 0, hfails =>
    refine Iff.trans (onError_of_runs (removeFile_fails hfails)) ?_
    refine Iff.trans (onError_of_error (Runs.ite_pos rfl (Runs.pure _ _))) ?_
    exact iff_of_true (h.intact rfl rfl) (by omega)
  | n + 1, hfails =>
    have hgoes : w.failsIn ≠ some 0 := by simp [hfails]
    refine Iff.trans (onError_of_runs (removeFile_goes hgoes hdata)) ?_
    have hfails₁ : (w.tick.put (.data table.name) none).failsIn = some n :=
      World.tick_failsIn_eq_some.2 hfails
    have hdata₁ : (w.tick.put (.data table.name) none).files (.data table.name) = none :=
      World.put_files_self _ _ _
    generalize w.tick.put (.data table.name) none = w₁ at hfails₁ hdata₁ ⊢
    show OnError (storageCreateTable table.name >>= _) w₁ _ ↔ _
    match n, hfails₁ with
    | 0, hfails₁ =>
      -- the old file is gone and there is no new one
      obtain ⟨e, hcreate⟩ := storageCreateTable_fails hfails₁ table.name
      refine Iff.trans (onError_of_fails hcreate rfl) ?_
      refine iff_of_false (fun hintact => ?_) (by omega)
      have hnone : w.files (.data table.name) = none := hintact.file hdata₁
      rw [hdata] at hnone
      cases hnone
    | n + 1, hfails₁ =>
      have hgoes₁ : w₁.failsIn ≠ some 0 := by simp [hfails₁]
      refine Iff.trans (onError_of_runs (storageCreateTable_goes hgoes₁ hdata₁)) ?_
      refine iff_of_true (fun e w' hrun => ?_) (by omega)
      obtain ⟨_, _, -, hrun⟩ := hrun.exists_of_bind
      obtain ⟨_, _, -, hrun⟩ := hrun.exists_of_bind
      cases hrun

/-! ## Statements -/

/-- The failures of the `n`th file operation after which the statement either goes on or has
changed nothing. -/
def TableStatement.Harmless (strtof : Strtof) (tables : Database) (n : Nat) :
    TableStatement → Prop
  | .createTable stmt =>
    (∃ e, createTableStages strtof stmt tables = .error e) ∨ n = 0 ∨ 3 ≤ n
  | .dropTable stmt => ∀ pos table, dropTableStages stmt tables = .ok pos →
    tables[pos]? = some table →
      n < table.indexMeta.length ∨ n = 0 ∧ table.indexMeta = [] ∨ table.indexMeta.length + 3 ≤ n
  | .truncateTable stmt => (∃ e, truncateTableStages stmt tables = .error e) ∨ n ≠ 1

/-- A table that is planned can be written, and its name is new. -/
theorem createTableStages_spec (unwritten : Unwritten) (hfloats : PrintsFloats printFloat)
    {stmt : CreateTableStmt} {tables : Database} {schema : TableSchema}
    (h : createTableStages strtof stmt tables = .ok schema) :
    (∃ buf, Maxql.schemaSaveTable unwritten printFloat schema none = .ok buf) ∧
      ∀ t ∈ tables, t.name ≠ schema.tableName := by
  obtain ⟨⟨⟩, hvalidate, hplan⟩ := bind_eq_ok.1 h
  have hsound := schemaSound_of_plan hvalidate hplan
  constructor
  · have hwritable : Writable schema [] := ⟨hsound.defaults, nofun, nofun, nofun⟩
    exact ⟨_, schemaSaveTable_eq unwritten hfloats hwritable⟩
  · intro t ht hname
    unfold planCreateTable at hplan
    dsimp only at hplan
    split at hplan
    · cases hplan
    · next hnew =>
      obtain ⟨columns, -, hplan⟩ := bind_eq_ok.1 hplan
      cases hplan
      refine hnew (List.contains_iff_mem.2 ?_)
      exact List.mem_map.2 ⟨t, ht, hname⟩

theorem onError_tableStatement (unwritten : Unwritten) (hfloats : PrintsFloats printFloat)
    (h : Agrees strtof w) (hfails : w.failsIn = some n) (stmt : TableStatement) :
    OnError (runTableStatement strtof unwritten printFloat stmt) w (Intact strtof w) ↔
      stmt.Harmless strtof w.tables n := by
  have hsame : Intact strtof w w := h.intact rfl rfl
  cases stmt with
  | createTable stmt =>
    refine Iff.trans (onError_runPipeline _ hsame) ?_
    rw [TableStatement.Harmless]
    cases hstages : createTableStages strtof stmt w.tables with
    | error e => exact iff_of_true nofun (.inl ⟨e, rfl⟩)
    | ok schema =>
      obtain ⟨⟨buf, hbuf⟩, hnew⟩ := createTableStages_spec unwritten hfloats hstages
      have hcreate := onError_createTable h hfails hbuf hnew
      simp [hcreate]
  | dropTable stmt =>
    refine Iff.trans (onError_runPipeline _ hsame) ?_
    rw [TableStatement.Harmless]
    refine forall_congr' fun pos => ?_
    constructor
    · intro hall table hstages htable
      exact (onError_dropTable h hfails htable).1 (hall hstages)
    · intro hall hstages
      obtain ⟨⟨⟩, -, hlookup⟩ := bind_eq_ok.1 hstages
      obtain ⟨⟨table, pos⟩, hlookup, ⟨⟩⟩ := bind_eq_ok.1 hlookup
      have htable := (lookupTable_eq_ok hlookup).1
      exact (onError_dropTable h hfails htable).2 (hall table hstages htable)
  | truncateTable stmt =>
    refine Iff.trans (onError_runPipeline _ hsame) ?_
    rw [TableStatement.Harmless]
    cases hstages : truncateTableStages stmt w.tables with
    | error e => exact iff_of_true nofun (.inl ⟨e, rfl⟩)
    | ok pos =>
      obtain ⟨⟨⟩, -, hlookup⟩ := bind_eq_ok.1 hstages
      obtain ⟨⟨table, pos⟩, hlookup, ⟨⟩⟩ := bind_eq_ok.1 hlookup
      have htable := (lookupTable_eq_ok hlookup).1
      have htruncate := onError_truncateTable h hfails htable
      simp [htruncate]

/-- Where one file operation fails, an error leaves the files and the tables as they were, and
they can be loaded again, exactly if nothing had been changed when the operation failed. -/
theorem tableStatement_intact_iff (strtof : Strtof) (unwritten : Unwritten)
    (printFloat : FloatFormat) (hfloats : PrintsFloats printFloat) (w : World)
    (hagrees : Agrees strtof w) (n : Nat) (hfails : w.failsIn = some n) (stmt : TableStatement) :
    (∀ e w', Runs (runTableStatement strtof unwritten printFloat stmt) w (.error e) w' →
      Intact strtof w w') ↔ stmt.Harmless strtof w.tables n :=
  onError_tableStatement unwritten hfloats hagrees hfails stmt

/-! ## One table -/

/-- A table with one row and one index, where the `n`th operation fails. -/
def oneTable (n : Nat) : World where
  tables := [{ name := text "t", schema := indexedSchema, indexMeta := indexedMeta }]
  files
    | .catalog => some (text "t\n")
    | .schema tableName => if tableName = text "t" then some indexedFile else none
    | .data tableName =>
      if tableName = text "t" then some ([0, 7, 0, 1, 0, 0, 0] : List UInt8) else none
    | .index tableName indexName =>
      if (tableName, indexName) = (text "t", text "i") then
        some (some fun key => if key = [1, 0, 0, 0] then some 0 else none)
      else none
  failsIn := some n

theorem oneTable_agrees (n : Nat) : Agrees (fun s => ⟨false, 0, s⟩) (oneTable n) where
  names := List.nodup_singleton _
  loads := by
    show databaseLoad (fun s => ⟨false, 0, s⟩) (oneTable 0).files
      = .ok (.ok [{ name := text "t", schema := indexedSchema, indexMeta := indexedMeta }])
    decide +kernel
  schemas name := by
    by_cases hname : name = text "t" <;> simp [oneTable, hname, eq_comm]
  data name := by
    by_cases hname : name = text "t" <;> simp [oneTable, hname, eq_comm]
  indexes t ht indexDef hindexDef := by
    cases List.mem_singleton.1 ht
    cases List.mem_singleton.1 hindexDef
    rfl

theorem plainFormat_printsFloats : PrintsFloats fun _ => text "0" :=
  ⟨fun _ => .plain (by decide), fun _ => by decide⟩

/-- DROP TABLE goes on behind an index file that it cannot remove, but not behind the data file,
and the index file is gone by then. -/
theorem tableStatement_intact_iff_drop :
    (∀ e w', Runs (runTableStatement (fun s => ⟨false, 0, s⟩) (fun size => Vector.replicate size 0)
        (fun _ => text "0") (.dropTable ⟨text "t"⟩)) (oneTable 0) (.error e) w' →
      Intact (fun s => ⟨false, 0, s⟩) (oneTable 0) w') ∧
    ¬∀ e w', Runs (runTableStatement (fun s => ⟨false, 0, s⟩) (fun size => Vector.replicate size 0)
        (fun _ => text "0") (.dropTable ⟨text "t"⟩)) (oneTable 1) (.error e) w' →
      Intact (fun s => ⟨false, 0, s⟩) (oneTable 1) w' := by
  have hfound : dropTableStages ⟨text "t"⟩ (oneTable 0).tables = .ok 0 := by decide +kernel
  have hiff : ∀ n, _ ↔ TableStatement.Harmless (fun s => ⟨false, 0, s⟩) (oneTable n).tables n
      (.dropTable ⟨text "t"⟩) := fun n =>
    tableStatement_intact_iff _ (fun size => Vector.replicate size 0) _ plainFormat_printsFloats
      (oneTable n) (oneTable_agrees n) n rfl _
  constructor
  · apply (hiff 0).2
    intro pos table hstages htable
    cases hfound.symm.trans hstages
    cases htable
    exact .inl (by decide)
  · intro hall
    have hlt := (hiff 1).1 hall 0 _ hfound rfl
    simp [indexedMeta] at hlt

/-- Where the data file is removed and cannot be created again, the table has none. -/
theorem truncateTable_losesFile :
    ¬∀ (strtof : Strtof) (unwritten : Unwritten) (printFloat : FloatFormat),
      PrintsFloats printFloat → ∀ w : World, Agrees strtof w → ∀ n, w.failsIn = some n →
        ∀ (stmt : TableStatement) (e : Error) (w' : World),
          Runs (runTableStatement strtof unwritten printFloat stmt) w (.error e) w' →
            Intact strtof w w' := by
  intro h
  have hall := h (fun s => ⟨false, 0, s⟩) (fun size => Vector.replicate size 0) _
    plainFormat_printsFloats (oneTable 1) (oneTable_agrees 1) 1 rfl (.truncateTable ⟨text "t"⟩)
  have hharmless :=
    (onError_tableStatement _ plainFormat_printsFloats (oneTable_agrees 1) rfl _).1 hall
  obtain ⟨e, hstages⟩ | hne := hharmless
  · have hfound : truncateTableStages ⟨text "t"⟩ (oneTable 1).tables = .ok 0 := by decide
    rw [hfound] at hstages
    cases hstages
  · exact hne rfl

end Maxql.Disk
