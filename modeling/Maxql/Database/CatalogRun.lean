import Maxql.Database.Catalog

/-!
# Runs of the catalog

Sequences of `database_add_table` and `database_remove_table` that start with
no table.  The list in memory is always right; the file is right as long as
the names fit in the catalog after every call.

* `runCalls_names`: the list in memory;
* `call_roundTrips_iff`: one call;
* `catalogRun_roundTrips`: every state of a run.
-/

namespace Maxql

open Program Bytes

/-! ## Calls -/

/-- The list in memory and the contents of the catalog file. -/
structure CatalogState where
  tables : Database
  file : List UInt8

/-- `database_add_table`, with what the array of `database_save` holds at first. -/
def databaseAddTable (buffer : List UInt8) (database : Database) (schema : TableSchema) :
    Checked CatalogState := do
  let tables := databasePush database schema
  let file ← catalogText buffer tables
  return { tables, file }

/-- `database_remove_table` -/
def databaseRemoveTable (buffer : List UInt8) (database : Database) (tableName : NameRef) :
    Checked CatalogState := do
  let tables ← databaseShift database tableName
  let file ← catalogText buffer tables
  return { tables, file }

inductive CatalogCall where
  | addTable (schema : TableSchema)
  | removeTable (tableName : NameRef)
  deriving DecidableEq, Repr

def CatalogCall.run (buffer : List UInt8) (database : Database) :
    CatalogCall → Checked CatalogState
  | .addTable schema => databaseAddTable buffer database schema
  | .removeTable tableName => databaseRemoveTable buffer database tableName

/-- Calls one after the other, each with what is in its array at first. -/
def runCalls : List (CatalogCall × List UInt8) → CatalogState → Checked CatalogState
  | [], s => .ok s
  | (call, buffer) :: calls, s => do
    let s ← call.run buffer s.tables
    runCalls calls s

/-- The names of the tables after a call. -/
def CatalogCall.apply (names : List Text) : CatalogCall → List Text
  | .addTable schema => names ++ [schema.tableName]
  | .removeTable (.array name) => names.erase name
  | .removeTable (.entry pos) => names.eraseIdx pos

/-- A table is added under a new name that CREATE TABLE accepts; an entry that a removal names
is there. -/
def CatalogCall.Valid (names : List Text) : CatalogCall → Prop
  | .addTable schema => ValidName schema.tableName ∧ schema.tableName ∉ names
  | .removeTable (.array _) => True
  | .removeTable (.entry pos) => pos < names.length

def ValidCalls : List Text → List (CatalogCall × List UInt8) → Prop
  | _, [] => True
  | names, (call, buffer) :: calls =>
    buffer.length = catalogBufferSize ∧ call.Valid names ∧ ValidCalls (call.apply names) calls

/-- Every call leaves names that fit in the catalog. -/
def FitCalls : List Text → List (CatalogCall × List UInt8) → Prop
  | _, [] => True
  | names, (call, _) :: calls =>
    CatalogFits (call.apply names) ∧ FitCalls (call.apply names) calls

/-- The names that were added and not removed, in the order of their addition. -/
def namesAfter (names : List Text) (calls : List (CatalogCall × List UInt8)) : List Text :=
  calls.foldl (fun names c => c.1.apply names) names

/-- What the list keeps: valid names, each of them once. -/
structure CatalogInv (database : Database) : Prop where
  valid : ∀ t ∈ database, ValidName t.name
  nodup : (database.map (·.name)).Nodup

/-- The entry that a reference names, with what is in front of it. -/
theorem exists_removed {database : Database} (h : CatalogInv database) {tableName : NameRef}
    (hvalid : (CatalogCall.removeTable tableName).Valid (database.map (·.name))) :
    ∃ tables, databaseShift database tableName = .ok tables ∧ tables.Sublist database ∧
      tables.map (·.name) = (CatalogCall.removeTable tableName).apply (database.map (·.name)) := by
  have hsplit : ∀ {pre post : Database} {x : TableMeta}, database = pre ++ x :: post →
      tableName = .array x.name ∨ tableName = .entry pre.length →
      databaseShift database tableName = .ok (pre ++ post) := by
    rintro pre post x rfl href
    refine databaseShift_eq (fun t ht => ?_) href
    have hnodup := h.nodup
    rw [List.map_append, List.nodup_append] at hnodup
    exact hnodup.2.2 t.name (List.mem_map_of_mem ht) x.name (by simp)
  have hsub : ∀ (pre post : Database) (x : TableMeta), (pre ++ post).Sublist (pre ++ x :: post) :=
    fun pre post x => (List.sublist_cons_self x post).append_left pre
  cases tableName with
  | array name =>
    by_cases hmem : name ∈ database.map (·.name)
    · obtain ⟨x, hx, rfl⟩ := List.mem_map.1 hmem
      obtain ⟨pre, post, rfl⟩ := List.append_of_mem hx
      refine ⟨pre ++ post, hsplit rfl (.inl rfl), hsub pre post x, ?_⟩
      have hpre : x.name ∉ pre.map (·.name) := by
        have hnodup := h.nodup
        rw [List.map_append, List.nodup_append] at hnodup
        exact fun hx => hnodup.2.2 x.name hx x.name (by simp) rfl
      rw [CatalogCall.apply, List.map_append, List.map_append, List.map_cons,
        List.erase_append_right _ hpre, List.erase_cons_head]
    · refine ⟨database, databaseShift_absent fun t ht heq => ?_, List.Sublist.refl _, ?_⟩
      · exact hmem (heq ▸ List.mem_map_of_mem ht)
      · rw [CatalogCall.apply, List.erase_of_not_mem hmem]
  | entry pos =>
    have hpos : pos < database.length := by simpa [CatalogCall.Valid] using hvalid
    have hlist : database = database.take pos ++ database[pos] :: database.drop (pos + 1) := by
      rw [List.getElem_cons_drop, List.take_append_drop]
    have hlen : (database.take pos).length = pos := List.length_take_of_le (by omega)
    have hshift := hsplit hlist (.inr (by rw [hlen]))
    refine ⟨_, hshift, ?_, ?_⟩
    · conv_rhs => rw [hlist]
      exact hsub _ _ _
    · rw [CatalogCall.apply, List.eraseIdx_eq_take_drop_succ, List.map_append, List.map_take,
        List.map_drop]

/-! ## Runs -/

/-- What a call does to the list before it saves it. -/
theorem call_run_eq {database : Database} (h : CatalogInv database) {call : CatalogCall}
    (hvalid : call.Valid (database.map (·.name))) :
    ∃ tables, CatalogInv tables ∧ tables.map (·.name) = call.apply (database.map (·.name)) ∧
      ∀ buffer, call.run buffer database = do
        let file ← catalogText buffer tables
        return { tables, file } := by
  cases call with
  | addTable schema =>
    obtain ⟨hname, hnew⟩ := hvalid
    have hcopy : svToCstr schema.tableName (maxTableNameSize + 1) = schema.tableName := by
      rw [svToCstr, Nat.add_sub_cancel, List.take_of_length_le hname.fits,
        cstr_of_zero_not_mem hname.zero_not_mem]
    refine ⟨databasePush database schema, ⟨?_, ?_⟩, ?_, fun buffer => rfl⟩
    · intro t ht
      obtain ht | ht := List.mem_append.1 ht
      · exact h.valid t ht
      · rw [List.mem_singleton.1 ht, hcopy]
        exact hname
    · rw [databasePush, List.map_append, List.map_cons, List.map_nil, hcopy,
        List.nodup_append]
      refine ⟨h.nodup, by simp, ?_⟩
      intro a ha b hb heq
      rw [heq, List.mem_singleton.1 hb] at ha
      exact hnew ha
    · rw [databasePush, List.map_append, List.map_cons, List.map_nil, hcopy]
      rfl
  | removeTable tableName =>
    obtain ⟨tables, hshift, hsub, hnames⟩ := exists_removed h hvalid
    refine ⟨tables, ⟨fun t ht => h.valid t (hsub.subset ht),
      h.nodup.sublist (hsub.map (·.name))⟩, hnames, fun buffer => ?_⟩
    rw [CatalogCall.run, databaseRemoveTable, hshift]
    rfl

/-- Every call of a valid run that returns leaves the right names in the list. -/
theorem runCalls_names {calls : List (CatalogCall × List UInt8)} {s s' : CatalogState}
    (h : CatalogInv s.tables) (hvalid : ValidCalls (s.tables.map (·.name)) calls)
    (hrun : runCalls calls s = .ok s') :
    s'.tables.map (·.name) = namesAfter (s.tables.map (·.name)) calls := by
  induction calls generalizing s with
  | nil =>
    cases hrun
    rfl
  | cons c calls ih =>
    obtain ⟨call, buffer⟩ := c
    obtain ⟨-, hcall, hvalid⟩ := hvalid
    obtain ⟨tables, hinv, hnames, hstep⟩ := call_run_eq h hcall
    rw [runCalls, hstep] at hrun
    obtain ⟨s₁, hs₁, hrun⟩ := bind_eq_ok.1 hrun
    obtain ⟨file, -, hs₁⟩ := bind_eq_ok.1 hs₁
    cases hs₁
    have hrest := ih hinv (by rw [hnames]; exact hvalid) hrun
    rw [hrest, hnames]
    rfl

/-- The file gives the names of the tables back. -/
def CatalogState.InFile (s : CatalogState) (names : List Text) : Prop :=
  ∀ schemas : Text → TableSchema × IndexMeta, ∃ loaded,
    databaseLoad (fun name => .ok (schemas name)) s.file = .ok (.ok loaded) ∧
    loaded.map (·.name) = names

/-- A call gives the names in the list and in the file exactly where they fit. -/
theorem call_roundTrips_iff {database : Database} (h : CatalogInv database) {call : CatalogCall}
    (hvalid : call.Valid (database.map (·.name))) :
    (∀ buffer : List UInt8, buffer.length = catalogBufferSize → ∃ s,
      call.run buffer database = .ok s ∧
      s.tables.map (·.name) = call.apply (database.map (·.name)) ∧
      s.InFile (call.apply (database.map (·.name)))) ↔
    CatalogFits (call.apply (database.map (·.name))) := by
  obtain ⟨tables, hinv, hnames, hstep⟩ := call_run_eq h hvalid
  rw [← hnames, ← roundTrips_iff hinv.valid]
  constructor
  · intro hall buffer hbuffer schemas
    obtain ⟨s, hrun, -, hin⟩ := hall buffer hbuffer
    rw [hstep] at hrun
    obtain ⟨file, hfile, hs⟩ := bind_eq_ok.1 hrun
    cases hs
    obtain ⟨loaded, hload, hmap⟩ := hin schemas
    exact ⟨file, loaded, hfile, hload, hmap⟩
  · intro hround buffer hbuffer
    obtain ⟨file, _, hfile, -⟩ := hround buffer hbuffer
      fun name => ({ tableName := name, columns := [] }, [])
    refine ⟨{ tables, file }, by rw [hstep, hfile]; rfl, rfl, fun schemas => ?_⟩
    obtain ⟨file', loaded, hfile', hload, hmap⟩ := hround buffer hbuffer schemas
    rw [hfile] at hfile'
    cases hfile'
    exact ⟨loaded, hload, hmap⟩

theorem runCalls_inFile {calls : List (CatalogCall × List UInt8)} {s : CatalogState}
    (h : CatalogInv s.tables) (hvalid : ValidCalls (s.tables.map (·.name)) calls)
    (hfits : FitCalls (s.tables.map (·.name)) calls) :
    ∃ s', runCalls calls s = .ok s' ∧
      (calls ≠ [] → s'.InFile (namesAfter (s.tables.map (·.name)) calls)) := by
  induction calls generalizing s with
  | nil => exact ⟨s, rfl, fun h => absurd rfl h⟩
  | cons c calls ih =>
    obtain ⟨call, buffer⟩ := c
    obtain ⟨hbuffer, hcall, hvalid⟩ := hvalid
    obtain ⟨hfit, hfits⟩ := hfits
    obtain ⟨s₁, hrun₁, hnames, hin⟩ := (call_roundTrips_iff h hcall).2 hfit buffer hbuffer
    have hinv : CatalogInv s₁.tables := by
      obtain ⟨tables, hinv, -, hstep⟩ := call_run_eq h hcall
      rw [hstep] at hrun₁
      obtain ⟨file, -, hs⟩ := bind_eq_ok.1 hrun₁
      cases hs
      exact hinv
    rw [← hnames] at hvalid hfits hin
    obtain ⟨s', hrun, hin'⟩ := ih hinv hvalid hfits
    have hafter : namesAfter (s.tables.map (·.name)) ((call, buffer) :: calls)
        = namesAfter (s₁.tables.map (·.name)) calls := by
      rw [hnames]
      rfl
    refine ⟨s', by rw [runCalls, hrun₁]; exact hrun, fun _ => ?_⟩
    rw [hafter]
    cases calls with
    | cons => exact hin' (List.cons_ne_nil _ _)
    | nil =>
      cases hrun
      exact hin

/-- A run that starts with no table. -/
def emptyCatalog (file : List UInt8) : CatalogState := { tables := [], file }

theorem ValidCalls.of_append {p q : List (CatalogCall × List UInt8)} :
    ∀ {names : List Text}, ValidCalls names (p ++ q) → ValidCalls names p := by
  induction p with
  | nil => exact fun _ => trivial
  | cons c p ih => exact fun ⟨hbuffer, hcall, h⟩ => ⟨hbuffer, hcall, ih h⟩

theorem FitCalls.of_append {p q : List (CatalogCall × List UInt8)} :
    ∀ {names : List Text}, FitCalls names (p ++ q) → FitCalls names p := by
  induction p with
  | nil => exact fun _ => trivial
  | cons c p ih => exact fun ⟨hfit, h⟩ => ⟨hfit, ih h⟩

/-- In a run whose calls all leave names that fit in the catalog, every state that is reached has
the names that were added and not removed in the list and, after a call, in the file. -/
theorem catalogRun_roundTrips (file : List UInt8) (calls : List (CatalogCall × List UInt8))
    (hvalid : ValidCalls [] calls) (hfits : FitCalls [] calls)
    (done : List (CatalogCall × List UInt8)) (hdone : done <+: calls) :
    ∃ s, runCalls done (emptyCatalog file) = .ok s ∧
      s.tables.map (·.name) = namesAfter [] done ∧
      (done ≠ [] → s.InFile (namesAfter [] done)) := by
  obtain ⟨rest, rfl⟩ := hdone
  have hinv : CatalogInv (emptyCatalog file).tables := ⟨nofun, List.nodup_nil⟩
  have hvalid : ValidCalls ((emptyCatalog file).tables.map (·.name)) done := hvalid.of_append
  obtain ⟨s, hrun, hin⟩ := runCalls_inFile hinv hvalid hfits.of_append
  exact ⟨s, hrun, runCalls_names hinv hvalid hrun, hin⟩

/-- The columns do not matter here. -/
def namedSchema (name : Text) : TableSchema := { tableName := name, columns := [] }

/-- Names of 30, 1 and 31 letters are added, and the second is removed again. -/
def fourCalls : List (CatalogCall × List UInt8) :=
  [(.addTable (namedSchema (List.replicate 30 97)), List.replicate catalogBufferSize 0),
    (.addTable (namedSchema (text "b")), List.replicate catalogBufferSize 0),
    (.addTable (namedSchema (List.replicate 31 99)), List.replicate catalogBufferSize 0),
    (.removeTable (.entry 1), List.replicate catalogBufferSize 0)]

theorem catalogRun_roundTrips_fourCalls :
    ∃ s, runCalls fourCalls (emptyCatalog []) = .ok s ∧
      s.tables.map (·.name) = [List.replicate 30 97, List.replicate 31 99] ∧
      s.InFile [List.replicate 30 97, List.replicate 31 99] := by
  have hvalid : ValidCalls [] fourCalls :=
    ⟨List.length_replicate, ⟨⟨by decide, by decide⟩, by decide⟩,
      List.length_replicate, ⟨⟨by decide, by decide⟩, by decide⟩,
      List.length_replicate, ⟨⟨by decide, by decide⟩, by decide⟩,
      List.length_replicate, (by decide : 1 < 3), trivial⟩
  have hfits : FitCalls [] fourCalls :=
    ⟨⟨by decide, by decide, by decide⟩, ⟨by decide, by decide, by decide⟩,
      ⟨by decide, by decide, by decide⟩, ⟨by decide, by decide, by decide⟩, trivial⟩
  obtain ⟨s, hrun, hnames, hin⟩ :=
    catalogRun_roundTrips [] fourCalls hvalid hfits fourCalls List.prefix_rfl
  exact ⟨s, hrun, hnames, hin (List.cons_ne_nil _ _)⟩

/-- The line of a name with 31 letters has no newline, and its NUL hides the lines behind it. -/
theorem catalogRun_losesNames :
    ¬∀ (file : List UInt8) (calls : List (CatalogCall × List UInt8)), ValidCalls [] calls →
      ∀ done, done <+: calls → ∃ s, runCalls done (emptyCatalog file) = .ok s ∧
        s.tables.map (·.name) = namesAfter [] done ∧
        (done ≠ [] → s.InFile (namesAfter [] done)) := by
  intro h
  have hlong : ValidName (List.replicate 31 97) := ⟨by decide, by decide⟩
  have hshort : ValidName (text "b") := ⟨by decide, by decide⟩
  have hinv : CatalogInv [⟨List.replicate 31 97, namedSchema (List.replicate 31 97), []⟩] :=
    ⟨by simpa using hlong, List.nodup_singleton _⟩
  have hnew : (CatalogCall.addTable (namedSchema (text "b"))).Valid [List.replicate 31 97] :=
    ⟨hshort, by decide⟩
  have hall := (call_roundTrips_iff hinv hnew).1 fun buffer hbuffer => by
    obtain ⟨s, hrun, hnames, hin⟩ := h []
      [(.addTable (namedSchema (List.replicate 31 97)), List.replicate catalogBufferSize 0),
        (.addTable (namedSchema (text "b")), buffer)]
      ⟨List.length_replicate, ⟨hlong, nofun⟩, hbuffer, hnew, trivial⟩ _ List.prefix_rfl
    obtain ⟨s₁, hfirst, hrest⟩ := bind_eq_ok.1 hrun
    obtain ⟨s₂, hsecond, hdone⟩ := bind_eq_ok.1 hrest
    obtain ⟨file, -, hs₁⟩ := bind_eq_ok.1 hfirst
    cases hs₁
    cases hdone
    exact ⟨s, hsecond, hnames, hin (List.cons_ne_nil _ _)⟩
  have hfull := hall.short (List.replicate 31 97) (by decide)
  exact absurd hfull (by decide)

end Maxql
