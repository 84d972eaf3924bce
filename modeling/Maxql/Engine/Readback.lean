import Maxql.Engine.Assign

/-!
# Predicates on what was inserted

`matches_where` compares the value that is read back, and a `char` column gives
a value back without the spaces at its end, a `binary` column filled up with
zeros.  A predicate is therefore evaluated on the stored form of the value that
was inserted.
-/

namespace Maxql

open Program Bytes

theorem storedRow_getElem {columns : List Column} {values : DataRow} {pos : Nat}
    {column : Column} {v : DataValue} (hcolumn : columns[pos]? = some column)
    (hv : values[pos]? = some v) :
    (storedRow columns values)[pos]? = some (storedValue column.resolvedType v) := by
  rw [storedRow, List.getElem?_zipWith, hcolumn, hv]

theorem type_storedValue (rt : ResolvedType) (v : DataValue) :
    (storedValue rt v).type = v.type := by
  unfold storedValue
  split <;> rfl

theorem exactFloats_storedValue (rt : ResolvedType) (v : DataValue) :
    ExactFloats (storedValue rt v) v := by
  intro a b ha hb _
  subst hb
  have hsame : storedValue rt (.float b) = .float b := by
    unfold storedValue
    split <;> first | rfl | (next h => cases h)
  rw [hsame] at ha
  cases ha
  rfl

/-- The predicate sees the stored form of the value, and an inserted row is found by
`column = ` its own literal exactly if the stored form is the value itself. -/
theorem predicate_sees_storedValue [UnionMemory] (strtof : Strtof) {t : TableState}
    {rows : Nat → Option DataRow} (hschema : SchemaSound t.schema)
    (hfile : FileRows t.schema t.dataFile rows) {stmt : InsertStmt} {values : DataRow}
    (hinsert : analyzeInsert strtof t stmt = .ok values) {condition : Condition}
    {p : WherePredicate} (hwhere : analyzeCondition strtof t.schema condition = .ok p) :
    (∃ dataFile live,
      storageInsertRow t.dataFile values t.schema = .ok (dataFile, t.dataFile.length) ∧
      tableScan dataFile t.schema = .ok live ∧
      ⟨storedRow t.schema.columns values, t.dataFile.length⟩ ∈ live) ∧
    ∃ column v n, t.schema.columns[p.columnIndex]? = some column ∧
      values[p.columnIndex]? = some v ∧
      compareValue (storedValue column.resolvedType v) p.value = .ok n ∧
      matchesWhere (storedRow t.schema.columns values) [p] = .ok (compareMatchesOp p.op n) ∧
      (p.op = .equals → p.value = v →
        (matchesWhere (storedRow t.schema.columns values) [p] = .ok true ↔
          storedValue column.resolvedType v = v)) := by
  have hrow := analyzeInsert_typed hschema hinsert
  have hstored := (hrow.stored hschema.columns).1.ofTypes
  refine ⟨?_, ?_⟩
  · obtain ⟨dataFile, hstore, hrows⟩ := hfile.insert hschema.count hschema.columns hrow
    obtain ⟨live, hscan, hlive, _⟩ := hrows.scan
    exact ⟨dataFile, live, hstore, hscan, (hlive _ _).1 (Function.update_self ..)⟩
  · obtain ⟨column, hcolumn, htype⟩ := analyzeCondition_typed hwhere
    obtain ⟨v, hv, hvtype⟩ := hrow.ofTypes.getElem hcolumn
    have hget := storedRow_getElem hcolumn hv
    obtain ⟨v', n, hv', hn⟩ := exists_compare hstored ⟨column, hcolumn, htype⟩
    cases hget.symm.trans hv'
    have hmatch : matchesWhere (storedRow t.schema.columns values) [p]
        = .ok (compareMatchesOp p.op n) := by
      rw [matchesWhere, readAt_of_getElem? hget, Checked.ok_bind, hn, Checked.ok_bind]
      cases compareMatchesOp p.op n <;> rfl
    refine ⟨column, v, n, hcolumn, hv, hn, hmatch, fun hop hvalue => ?_⟩
    have hzero : matchesWhere (storedRow t.schema.columns values) [p] = .ok true ↔ n = 0 := by
      rw [hmatch, hop, Except.ok.injEq]
      exact decide_eq_true_iff
    rw [hzero]
    subst hvalue
    constructor
    · intro h
      subst h
      exact Equals.eq hn (type_storedValue _ _) (exactFloats_storedValue _ _)
    · intro h
      rw [h] at hn
      have hself : Equals p.value p.value :=
        equals_self (hvtype ▸ column.resolvedType.valueType_ne_null)
      exact Except.ok.inj (hn.symm.trans hself)

/-! ## A `binary(4)` column -/

open ClearedMemory

def blobs : TableSchema :=
  { tableName := text "t"
    columns := [{
      columnName := text "c", resolvedType := ⟨.binary, 4, text "binary(4)"⟩
      hasDefault := false, defaultValue := .null }] }

def emptyBlobs : TableState := { schema := blobs, dataFile := [], indexes := [] }

def oneByte : DataValue := .binary ⟨[171], by decide⟩

def insertOneByte : InsertStmt := ⟨text "t", [⟨text "c", ⟨.hex, text "ab"⟩⟩]⟩

def whereOneByte : Condition := ⟨text "c", .equals, ⟨.hex, text "ab"⟩⟩

theorem schemaSound_blobs : SchemaSound blobs where
  count := by decide
  resolved := fun c hc => by
    obtain rfl := List.mem_singleton.1 hc
    exact ⟨text "binary", true, 4, rfl⟩
  defaults := fun c hc h => by
    obtain rfl := List.mem_singleton.1 hc
    cases h

/-- The byte that was inserted is not found again. -/
theorem predicate_sees_storedValue_blob :
    (∃ dataFile live,
      storageInsertRow [] [oneByte] blobs = .ok (dataFile, 0) ∧
      tableScan dataFile blobs = .ok live ∧ ⟨storedRow blobs.columns [oneByte], 0⟩ ∈ live) ∧
    ¬matchesWhere (storedRow blobs.columns [oneByte]) [⟨0, oneByte, .equals⟩] = .ok true := by
  have hinsert : analyzeInsert (fun s => ⟨false, 0, s⟩) emptyBlobs insertOneByte
      = .ok [oneByte] := rfl
  have hwhere : analyzeCondition (fun s => ⟨false, 0, s⟩) emptyBlobs.schema whereOneByte
      = .ok ⟨0, oneByte, .equals⟩ := rfl
  obtain ⟨hstored, column, v, n, hcolumn, hv, _, _, hiff⟩ :=
    predicate_sees_storedValue _ schemaSound_blobs fileRows_empty hinsert hwhere
  refine ⟨hstored, fun hfound => ?_⟩
  cases hcolumn
  cases hv
  have hsame : storedValue ⟨.binary, 4, text "binary(4)"⟩ oneByte = oneByte :=
    (hiff rfl rfl).1 hfound
  exact absurd hsame (by decide)

/-- A byte of a `binary(4)` column, and the comparison with the same literal: the value as
inserted is equal to it, the value that is read back is not. -/
theorem oneByte_not_found :
    analyzeInsert (fun s => ⟨false, 0, s⟩) emptyBlobs insertOneByte = .ok [oneByte] ∧
    analyzeCondition (fun s => ⟨false, 0, s⟩) blobs whereOneByte
      = .ok ⟨0, oneByte, .equals⟩ ∧
    ∃ dataFile row, storageInsertRow [] [oneByte] blobs = .ok (dataFile, 0) ∧
      tableScan dataFile blobs = .ok [⟨row, 0⟩] ∧
      matchesWhere row [⟨0, oneByte, .equals⟩] = .ok false ∧
      (compareValue oneByte oneByte).map (compareMatchesOp .equals) = .ok true :=
  ⟨rfl, rfl, [0, 7, 0, 171, 0, 0, 0], [.binary ⟨[171, 0, 0, 0], by decide⟩], rfl,
    by decide +kernel, rfl, rfl⟩

end Maxql
