import Maxql.Engine.NewRows

/-!
# Values on their way to the data file

`analyze_insert` checks every value against its column, `analyze_update` does
not.  In a run whose UPDATE statements set only values that fit their columns,
every row that is stored fits the columns of its table.

The groups are the tables whose records fit, one statement, and the runs.
-/

namespace Maxql

open Program Bytes UniqueIndex

/-! ## Tables whose records fit -/

/-- The records of a data file fit the columns, and the indexes lead to records. -/
structure RecordsTyped (t : TableState) (rs : List (Record t.schema.columns)) : Prop where
  file : t.dataFile = fileOf rs
  typed : ∀ r ∈ rs, RowTyped t.schema.columns r.row
  offsets : OffsetsIn t.indexes (StartsAt rs)

structure TypedTable (t : TableState) : Prop where
  schema : SchemaSound t.schema
  records : ∃ rs : List (Record t.schema.columns), RecordsTyped t rs

section Table

variable {t : TableState} {rs : List (Record t.schema.columns)}

/-- A row source gives rows of the data file, also where an index is out of date. -/
theorem RecordsTyped.rowSource [UnionMemory] (h : RecordsTyped t rs)
    {decision : Option IndexDecision}
    {rows : List StoredRow} (hrun : createRowSource t decision = .ok rows) :
    ∀ x ∈ rows, StartsAt rs x.offset ∧ RowTyped t.schema.columns x.row := by
  cases decision with
  | none =>
    have hscan : tableScan t.dataFile t.schema = .ok rows := hrun
    rw [h.file, tableScan_spec] at hscan
    cases hscan
    intro x hx
    obtain ⟨A, r, B, hrs, _, rfl⟩ := exists_record rs hx
    exact ⟨.of_live hx, h.typed r (by rw [hrs]; simp)⟩
  | some d =>
    obtain ⟨index, hopen, hrun⟩ := bind_eq_ok.1 hrun
    obtain ⟨key, _, hrun⟩ := bind_eq_ok.1 hrun
    cases hlook : index key with
    | none =>
      rw [hlook] at hrun
      cases hrun
      exact fun x hx => absurd hx List.not_mem_nil
    | some offset =>
      rw [hlook] at hrun
      obtain ⟨row, hload, hrun⟩ := bind_eq_ok.1 hrun
      cases row with
      | none =>
        cases hrun
        exact fun x hx => absurd hx List.not_mem_nil
      | some row =>
        cases hrun
        have hstart : StartsAt rs offset := by
          unfold indexOpen at hopen
          split at hopen
          · next entry hfind =>
            cases hopen
            exact h.offsets entry (List.mem_of_find?_eq_some hfind) key offset hlook
          · cases hopen
        obtain ⟨r, hr, hspec⟩ := hstart.load
        rw [← h.file, hload] at hspec
        have hrow : some row = if r.deleted then none else some r.row := Except.ok.inj hspec
        split at hrow
        · cases hrow
        · cases hrow
          intro x hx
          obtain rfl := List.mem_singleton.1 hx
          exact ⟨hstart, h.typed r hr⟩

theorem RecordsTyped.matchedRows [UnionMemory] (h : RecordsTyped t rs) {filter : WhereFilter}
    {decision : Option IndexDecision} {rows : List StoredRow}
    (hrun : matchedRows t filter decision = .ok rows) :
    ∀ x ∈ rows, StartsAt rs x.offset ∧ RowTyped t.schema.columns x.row := by
  obtain ⟨source, hsource, hrun⟩ := bind_eq_ok.1 hrun
  exact fun x hx => h.rowSource hsource x ((matchingRows_sublist hrun).subset hx)

theorem RecordsTyped.store [UnionMemory] (h : RecordsTyped t rs) (hschema : SchemaSound t.schema)
    {values : DataRow} (hrow : RowTyped t.schema.columns values) {dataFile : List UInt8}
    {offset : Nat} (hrun : storageInsertRow t.dataFile values t.schema = .ok (dataFile, offset)) :
    ∃ r : Record t.schema.columns, RowTyped t.schema.columns r.row ∧
      dataFile = fileOf (rs ++ [r]) ∧ offset = (fileOf rs).length := by
  obtain ⟨r, _, hr, hspec⟩ := storageInsertRow_spec hschema.count hschema.columns hrow rs
  rw [h.file, hspec] at hrun
  cases hrun
  exact ⟨r, hr ▸ (hrow.stored hschema.columns).1, rfl, rfl⟩

end Table

/-! ## One statement -/

/-- The rows that the loop over the offsets deletes. -/
theorem exists_deleted {schema : TableSchema} (offsets : List Nat) :
    ∀ {rs : List (Record schema.columns)}, (∀ o ∈ offsets, StartsAt rs o) →
      (∀ r ∈ rs, RowTyped schema.columns r.row) →
      ∃ rs' : List (Record schema.columns),
        storageDeleteRows (fileOf rs) offsets = fileOf rs' ∧
        (∀ r ∈ rs', RowTyped schema.columns r.row) ∧ ∀ o, StartsAt rs o → StartsAt rs' o := by
  induction offsets with
  | nil => exact fun {rs} _ htyped => ⟨rs, rfl, htyped, fun _ h => h⟩
  | cons o offsets ih =>
    intro rs hstarts htyped
    obtain ⟨ho, hrest⟩ := List.forall_mem_cons.1 hstarts
    obtain ⟨A, r, B, rfl, rfl⟩ := ho
    have htyped' : ∀ q ∈ A ++ r.erase :: B, RowTyped schema.columns q.row := by
      intro q hq
      rcases List.mem_append.1 hq with hq | hq
      · exact htyped q (List.mem_append_left _ hq)
      · rcases List.mem_cons.1 hq with rfl | hq
        · exact htyped r (by simp)
        · exact htyped q (by simp [hq])
    obtain ⟨rs', hfile, htyped'', hkeep⟩ :=
      ih (fun p hp => (hrest p hp).erase) htyped'
    refine ⟨rs', ?_, htyped'', fun p hp => hkeep p hp.erase⟩
    rw [storageDeleteRows, List.foldl_cons, storageDeleteRow_spec]
    exact hfile

/-- The loop of `execute_update` that writes. -/
theorem typedTable_writeUpdates [UnionMemory] {pairs : List UpdatePair} :
    ∀ {t t' : TableState} {rs : List (Record t.schema.columns)}, SchemaSound t.schema →
      RecordsTyped t rs → (∀ pair ∈ pairs, StartsAt rs pair.original.offset ∧
        RowTyped t.schema.columns pair.updated) →
      writeUpdates pairs t = .ok t' → TypedTable t' := by
  induction pairs with
  | nil =>
    intro t t' rs hschema hrecords _ h
    cases h
    exact ⟨hschema, rs, hrecords⟩
  | cons pair pairs ih =>
    intro t t' rs hschema hrecords hpairs h
    obtain ⟨⟨hstart, hrow⟩, hpairs⟩ := List.forall_mem_cons.1 hpairs
    rw [writeUpdates] at h
    obtain ⟨⟨dataFile, offset⟩, hstore, h₁⟩ := bind_eq_ok.1 h
    obtain ⟨⟨all, indexes⟩, hdelete, h₂⟩ := bind_eq_ok.1 h₁
    obtain ⟨indexes', hinsert, h₃⟩ := bind_eq_ok.1 h₂
    obtain ⟨rs', hfile, htyped, hkeep⟩ := exists_deleted [pair.original.offset]
      (fun o ho => List.mem_singleton.1 ho ▸ hstart) hrecords.typed
    have hdeleted : RecordsTyped
        { t with dataFile := storageDeleteRow t.dataFile pair.original.offset } rs' :=
      ⟨by rw [hrecords.file]; exact hfile, htyped, hrecords.offsets.imp hkeep⟩
    obtain ⟨r, hr, rfl, rfl⟩ := hdeleted.store hschema hrow hstore
    have hstored : RecordsTyped
        { t with dataFile := fileOf (rs' ++ [r]), indexes := indexes' } (rs' ++ [r]) := by
      refine ⟨rfl, fun q hq => ?_, ?_⟩
      · rcases List.mem_append.1 hq with hq | hq
        · exact htyped q hq
        · exact List.mem_singleton.1 hq ▸ hr
      · exact ((hdeleted.offsets.delete hdelete).imp fun o ho => ho.append [r]).insert
          (startsAt_end rs' r) hinsert
    exact ih (t := { t with dataFile := fileOf (rs' ++ [r]), indexes := indexes' }) hschema hstored
      (fun p hp => ⟨(hkeep _ (hpairs p hp).1).append [r], (hpairs p hp).2⟩) h₃

/-- The index leads to rows of the list. -/
def LeadsTo (rows : List StoredRow) (index : KeyMap) : Prop :=
  ∀ key offset, index key = some offset → ∃ x ∈ rows, x.offset = offset

theorem leadsTo_backfill [UnionMemory] {dataFile : List UInt8} {schema : TableSchema}
    {indexDef : IndexDefinition} {rows : List StoredRow} {index : KeyMap}
    (hscan : tableScan dataFile schema = .ok rows)
    (hrun : backfillIndex dataFile schema indexDef indexCreate = .ok (.ok index)) :
    LeadsTo rows index := by
  have hnone : LeadsTo [] indexCreate := fun key offset h => by cases h
  refine backfillIndexFrom_rule (fun done x index key hI _ _ => ?_) hnone hscan hrun
  refine update_some (fun k o hk => ?_) key _ fun o hx => ⟨x, by simp, Option.some.inj hx⟩
  obtain ⟨y, hy, rfl⟩ := hI k o hk
  exact ⟨y, List.mem_append_left _ hy, rfl⟩

/-- In every row that matches, a value that an UPDATE assigns fits its column, or compares equal
to the value that is there and is not set; or the checks of the unique indexes refuse the
statement. -/
def ValidUpdate [UnionMemory] (strtof : Strtof) (t : TableState) (stmt : UpdateStmt) : Prop :=
  ∀ plan decision rows, (do validateUpdate stmt; analyzeUpdate strtof t stmt) = .ok plan →
    planUpdate t plan = .ok decision → matchedRows t plan.filter decision = .ok rows →
    (∀ x ∈ rows, ∀ q ∈ plan.values, ∀ column, t.schema.columns[q.1]? = some column →
      resolvedTypeValidate column.resolvedType q.2 = .ok ∨
        Equals q.2 (x.row.getD q.1 .null)) ∨
    ∃ pairs e, collectUpdates t plan decision = .ok pairs ∧
      checkUpdates t pairs = .ok (.error e)

/-- What a statement needs so that it stores values of the right types only. -/
def ValidStatement [UnionMemory] (strtof : Strtof) (t : TableState) : Statement → Prop
  | .update stmt => ValidUpdate strtof t stmt
  | _ => True

section Statement

variable {strtof : Strtof} {t t' : TableState}

/-- The rows that an UPDATE is about to write. -/
theorem RecordsTyped.pairs [UnionMemory] {rs : List (Record t.schema.columns)}
    (h : RecordsTyped t rs) {stmt : UpdateStmt} (hvalid : ValidUpdate strtof t stmt)
    {plan : UpdateExecPlan} {decision : Option IndexDecision} {pairs : List UpdatePair}
    (hplan : (do validateUpdate stmt; analyzeUpdate strtof t stmt) = .ok plan)
    (hdecision : planUpdate t plan = .ok decision)
    (hpairs : collectUpdates t plan decision = .ok pairs)
    (hcheck : checkUpdates t pairs = .ok (.ok ())) :
    ∀ pair ∈ pairs, StartsAt rs pair.original.offset ∧
      RowTyped t.schema.columns pair.updated := by
  obtain ⟨rows, hrows, hupdate⟩ := bind_eq_ok.1 hpairs
  have hmatched := h.matchedRows hrows
  have happly := (analyzeUpdate_apart hplan).2
  rw [updatePairs_eq happly fun x hx => (hmatched x hx).2.length_eq.symm] at hupdate
  cases hupdate
  intro pair hpair
  obtain ⟨x, hx, _, rfl⟩ := mem_filledPairs.1 hpair
  obtain ⟨hstart, htyped⟩ := hmatched x hx
  refine ⟨hstart, ?_⟩
  rcases hvalid plan decision rows hplan hdecision hrows with hvalues | ⟨pairs', e, hpairs', he⟩
  · exact forall₂_assignedRow happly htyped (hvalues x hx)
  · cases hpairs.symm.trans hpairs'
    cases hcheck.symm.trans he

/-- The rows that a statement stores fit the columns. -/
theorem TypedTable.handsOver [UnionMemory] (h : TypedTable t) {s : Statement}
    (hs : ValidStatement strtof t s) {values : DataRow}
    (hstore : HandsOver strtof t s values) : RowTyped t.schema.columns values := by
  obtain ⟨rs, hrecords⟩ := h.records
  cases hstore with
  | insert hplan _ =>
    obtain ⟨_, _, hplan⟩ := bind_eq_ok.1 hplan
    exact analyzeInsert_typed h.schema hplan
  | update hplan hdecision hpairs hcheck hpair =>
    exact (hrecords.pairs hs hplan hdecision hpairs hcheck _ hpair).2

theorem TypedTable.step [UnionMemory] (h : TypedTable t) {s : Statement}
    (hs : ValidStatement strtof t s) (hstep : StatementStep strtof t s t') : TypedTable t' := by
  obtain ⟨rs, hrecords⟩ := h.records
  cases hstep with
  | insert hplan hcheck hstore hindex =>
    have hrow := h.handsOver (s := .insert _) trivial
      (show HandsOver strtof t _ _ from .insert hplan hcheck)
    obtain ⟨r, hr, rfl, rfl⟩ := hrecords.store h.schema hrow hstore
    refine ⟨h.schema, rs ++ [r], rfl, fun q hq => ?_, ?_⟩
    · rcases List.mem_append.1 hq with hq | hq
      · exact hrecords.typed q hq
      · exact List.mem_singleton.1 hq ▸ hr
    · exact (hrecords.offsets.imp fun o ho => ho.append [r]).insert (startsAt_end rs r) hindex
  | delete _ _ hrows hindex =>
    obtain ⟨rs', hfile, htyped, hkeep⟩ := exists_deleted _ (fun o ho => by
      obtain ⟨x, hx, rfl⟩ := List.mem_map.1 ho
      exact (hrecords.matchedRows hrows x hx).1) hrecords.typed
    exact ⟨h.schema, rs', by rw [hrecords.file]; exact hfile, htyped,
      (hrecords.offsets.imp hkeep).deleteRows hindex⟩
  | update hplan hdecision hpairs hcheck hwrite =>
    exact typedTable_writeUpdates h.schema hrecords
      (hrecords.pairs hs hplan hdecision hpairs hcheck) hwrite
  | @createIndex _ indexDef index _ hindex =>
    refine ⟨h.schema, rs, hrecords.file, hrecords.typed, fun entry hentry key offset ho => ?_⟩
    rcases List.mem_append.1 hentry with hentry | hentry
    · exact hrecords.offsets entry hentry key offset ho
    · obtain rfl := List.mem_singleton.1 hentry
      -- the new index leads to the rows that the backfill has seen
      have hscan : tableScan t.dataFile t.schema = .ok (liveFrom 0 rs) := by
        rw [hrecords.file, tableScan_spec]
      obtain ⟨x, hx, rfl⟩ := leadsTo_backfill hscan hindex key offset ho
      exact .of_live hx
  | dropIndex pos =>
    exact ⟨h.schema, rs, hrecords.file, hrecords.typed, fun entry hentry =>
      hrecords.offsets entry (List.mem_of_mem_eraseIdx hentry)⟩
  | truncate =>
    refine ⟨h.schema, [], rfl, fun r hr => absurd hr List.not_mem_nil, ?_⟩
    intro entry hentry key offset ho
    obtain ⟨_, _, rfl⟩ := List.mem_map.1 hentry
    cases ho

end Statement

/-! ## Runs -/

theorem Reached.typed [UnionMemory] {strtof : Strtof} {t : TableState}
    (h : Reached strtof (ValidStatement strtof) t) : TypedTable t := by
  induction h with
  | create hvalidate hplan =>
    exact ⟨schemaSound_of_plan hvalidate hplan, [], rfl,
      fun r hr => absurd hr List.not_mem_nil, fun entry hentry => absurd hentry List.not_mem_nil⟩
  | run _ hs hrun ih => exact ih.step hs (statementStep_of_run hrun)

open ClearedMemory

/-- A `strtof` for texts without a number. -/
def noNumber : Strtof := fun s => ⟨false, 0, s⟩

def createNames : CreateTableStmt :=
  { table := text "t"
    columnDefs := [{
      column := text "c", type := ⟨text "char", text "2", true⟩, hasDefault := false
      defaultValue := ⟨.string, []⟩ }] }

def names : TableSchema :=
  { tableName := text "t"
    columns := [{
      columnName := text "c", resolvedType := ⟨.char, 2, text "char(2)"⟩, hasDefault := false
      defaultValue := .null }] }

def setName (name : Text) : Assignment := ⟨text "c", ⟨.string, name⟩⟩

def insertName (name : Text) : Statement := .insert ⟨text "t", [setName name]⟩

/-- `update t set c = value where c = name` -/
def renameTo (value : RawValue) (name : Text) : UpdateStmt :=
  ⟨text "t", [⟨text "c", value⟩], [⟨text "c", .equals, ⟨.string, name⟩⟩]⟩

def nameValue (name : Text) : DataValue := .string (VarcharValue.copy name)

def namesFile (dataFile : List UInt8) : TableState := { schema := names, dataFile, indexes := [] }

theorem reached_names (Condition : TableState → Statement → Prop) :
    Reached noNumber Condition (namesFile []) :=
  @Reached.create _ noNumber Condition [] createNames names rfl rfl

end Maxql
