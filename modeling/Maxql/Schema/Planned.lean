import Maxql.Engine.InSync
import Maxql.Literal
import Maxql.Schema.Load

/-!
# What CREATE TABLE and CREATE INDEX make

The columns and the indexes that the planners make of statements that the
parser has accepted, with what is needed to write them down and read them.

* `parsed_valid`: the names and the literals of a statement;
* `resolveType_spec`: a type as it is written;
* `plannedTable_of_plan`, `BuiltIndexes.planned`: what the planners make.
-/

namespace Maxql

open Program Bytes

/-! ## What the planners make -/

theorem parsed_valid {input : Text} {q : Query} (h : parseInput input = .ok (q, none)) :
    q.Formed ∧ ∀ t ∈ q.tokens, t.isValid = true := by
  obtain ⟨q', e, hrun, hwhole⟩ := parseInput_total input
  rw [h] at hrun
  cases hrun
  obtain ⟨hvalid, -, -, hformed, ending, -, htokens⟩ := hwhole rfl
  refine ⟨hformed, fun t ht => ?_⟩
  have hmem : t ∈ lexerTokens input := by
    rw [htokens]
    exact List.mem_append_left _ ht
  obtain ⟨w, hw⟩ := exists_spells hmem
  exact Token.isValid_of_spells hw (hvalid t hmem)

theorem svToCstr_idem (name : Text) (size : Nat) :
    svToCstr (svToCstr name (size + 1)) (size + 1) = svToCstr name (size + 1) :=
  svToCstr_eq (zero_not_mem_cstr _) (length_svToCstr_le _ _)

/-- A resolved type as it is written. -/
def typeText (rt : ResolvedType) : Text :=
  rt.typeInfo.typeName ++
    if rt.typeInfo.expectsLen then text "(" ++ (Decimal.print rt.byteLen ++ text ")") else []

theorem typeByName_some {typeName : Text} {type : ColumnType}
    (h : typeByName typeName = some type) :
    typeName = (typeMapping type).typeName := by
  have hfound := List.find?_some h
  exact beq_iff_eq.1 hfound

theorem resolveType_eq_ok {typeName : Text} {hasLen : Bool} {len : Nat} {rt : ResolvedType}
    (h : resolveType typeName hasLen len = .ok rt) :
    typeName = rt.typeInfo.typeName ∧ hasLen = rt.typeInfo.expectsLen ∧
      (hasLen = true → len = rt.byteLen) ∧
      rt.resolvedTypeName = svToCstr (typeName ++
        if hasLen = true then text "(" ++ (Decimal.print len ++ text ")") else []) 16 := by
  unfold resolveType at h
  split at h
  · cases h
  · next columnType hname =>
    obtain rfl := typeByName_some hname
    dsimp only at h
    split at h
    · cases h
    · next hno =>
      split at h
      · cases h
      · next hyes =>
        have hasLen_eq : hasLen = (typeMapping columnType).expectsLen := by
          cases hasLen <;> cases hexpects : (typeMapping columnType).expectsLen <;>
            simp [hexpects] at hno hyes ⊢
        split at h
        · next hlen =>
          split at h
          · cases h
          · split at h
            · cases h
            · cases h
              refine ⟨rfl, hasLen_eq, fun _ => rfl, ?_⟩
              rw [if_pos hlen, List.append_assoc, List.append_assoc]
        · next hlen =>
          split at h
          · cases h
          · cases h
            refine ⟨rfl, hasLen_eq, fun h => absurd h hlen, ?_⟩
            rw [if_neg hlen, List.append_nil]

/-- The length of a type without one is not looked at. -/
theorem resolveType_noLen (typeName : Text) (len len' : Nat) :
    resolveType typeName false len = resolveType typeName false len' := rfl

theorem typeName_text (type : ColumnType) : isIdentifier (typeMapping type).typeName = true ∧
    (typeMapping type).typeName.length ≤ 7 := by
  cases type <;> decide

/-- A type that is resolved is written as its definition, which is resolved to it again. -/
theorem resolveType_spec {typeName : Text} {hasLen : Bool} {len : Nat} {rt : ResolvedType}
    (h : resolveType typeName hasLen len = .ok rt) :
    rt.resolvedTypeName = typeText rt ∧
      ∀ len', (rt.typeInfo.expectsLen = true → len' = rt.byteLen) →
        resolveType rt.typeInfo.typeName rt.typeInfo.expectsLen len' = .ok rt := by
  have hle := (resolveType_sound h).byteLen_le
  obtain ⟨rfl, rfl, hlen, hname⟩ := resolveType_eq_ok h
  obtain ⟨hident, hshort⟩ := typeName_text rt.columnType
  have hdigits : (Decimal.print rt.byteLen).length ≤ 3 := Decimal.length_print_le 2 (by omega)
  constructor
  · rw [hname, typeText]
    split
    · next hexpects =>
      rw [hlen hexpects]
      apply svToCstr_eq
      · rw [List.mem_append, List.mem_append, List.mem_append, not_or, not_or, not_or]
        exact ⟨isIdentifier_zero_not_mem hident, by decide, decimalDigit_ne_zero, by decide⟩
      · show (rt.typeInfo.typeName ++ _).length ≤ 15
        have hshort : rt.typeInfo.typeName.length ≤ 7 := hshort
        simp [text]
        omega
    · rw [List.append_nil]
      exact svToCstr_eq (isIdentifier_zero_not_mem hident) (Nat.le_trans hshort (by decide))
  · intro len' hlen'
    cases hexpects : rt.typeInfo.expectsLen with
    | true =>
      rw [hlen' hexpects, ← hlen hexpects, ← hexpects]
      exact h
    | false =>
      rw [resolveType_noLen _ len' len, ← hexpects]
      exact h

/-- A column that `plan_create_table` makes of a parsed definition. -/
structure PlannedColumn (col : Column) : Prop where
  name : isIdentifier col.columnName = true
  fits : col.columnName.length ≤ maxColumnNameSize
  type : ∃ typeName hasLen len, resolveType typeName hasLen len = .ok col.resolvedType
  noDefault : col.hasDefault = false → col.defaultValue = .null
  default : col.hasDefault = true → Denoted col.defaultValue

theorem validateColumnDefs_fits {columnDefs : List ColumnDef}
    (h : validateColumnDefs columnDefs = .ok ()) :
    ∀ d ∈ columnDefs, d.column.length ≤ maxColumnNameSize := by
  induction columnDefs with
  | nil => exact nofun
  | cons d columnDefs ih =>
    obtain ⟨_, hd, hrest⟩ := bind_eq_ok.1 h
    refine List.forall_mem_cons.2 ⟨?_, ih hrest⟩
    by_contra hlong
    unfold validateColumnDef at hd
    split at hd
    · cases hd
    · rw [if_pos (by omega)] at hd
      cases hd

theorem mem_separated {α τ : Type} {t : τ} {tokens : α → List τ} {as : List α} {a : α} {u : τ}
    (ha : a ∈ as) (hu : u ∈ tokens a) : u ∈ Grammar.separated t tokens as := by
  induction as with
  | nil => cases ha
  | cons b as ih =>
    cases as with
    | nil =>
      obtain rfl := List.mem_singleton.1 ha
      exact hu
    | cons c as =>
      rw [Grammar.separated, List.mem_append, List.mem_cons]
      obtain rfl | ha := List.mem_cons.1 ha
      · exact .inl hu
      · exact .inr (.inr (ih ha))

theorem columnDef_valid {d : ColumnDef} (h : ∀ t ∈ d.tokens, t.isValid = true) :
    isIdentifier d.column = true ∧
      (d.hasDefault = true → d.defaultValue.token.isValid = true) := by
  refine ⟨h (identToken d.column) List.mem_cons_self, fun hdefault => ?_⟩
  apply h
  simp [ColumnDef.tokens, hdefault]

theorem plannedColumn_of_plan {strtof : Strtof} {d : ColumnDef} {col : Column}
    (hvalid : ∀ t ∈ d.tokens, t.isValid = true) (hfits : d.column.length ≤ maxColumnNameSize)
    (hplan : planColumn strtof d = .ok col) : PlannedColumn col := by
  obtain ⟨hname, hliteral⟩ := columnDef_valid hvalid
  have hcopy : svToCstr d.column (maxColumnNameSize + 1) = d.column :=
    svToCstr_eq (isIdentifier_zero_not_mem hname) hfits
  obtain ⟨len, _, hplan⟩ := bind_eq_ok.1 hplan
  split at hplan
  · cases hplan
  · next rt hresolve =>
    obtain ⟨value, hdefault, hplan⟩ := bind_eq_ok.1 hplan
    cases hplan
    refine ⟨by rwa [hcopy], by rwa [hcopy], ⟨_, _, _, hresolve⟩, fun hno => ?_, fun hyes => ?_⟩
    · have hno : d.hasDefault = false := hno
      rw [planDefault, hno] at hdefault
      exact (Except.ok.inj hdefault).symm
    · have hyes : d.hasDefault = true := hyes
      unfold planDefault at hdefault
      rw [if_neg (by simp [hyes])] at hdefault
      split at hdefault
      · cases hdefault
      · next v hconvert =>
        dsimp only at hdefault
        split at hdefault
        · cases hdefault
        · cases hdefault
          exact convertValue_denoted (hliteral hyes) hconvert

/-- A table that CREATE TABLE accepts. -/
structure PlannedTable (schema : TableSchema) : Prop where
  columns : ∀ col ∈ schema.columns, PlannedColumn col
  sound : SchemaSound schema
  tableName : svToCstr schema.tableName (maxTableNameSize + 1) = schema.tableName

theorem plannedTable_of_plan {strtof : Strtof} {input : Text} {stmt : CreateTableStmt}
    {tableNames : List Text} {schema : TableSchema}
    (hparse : parseInput input = .ok (.createTable stmt, none))
    (hvalidate : validateCreateTable stmt = .ok ())
    (hplan : planCreateTable strtof tableNames stmt = .ok schema) : PlannedTable schema := by
  obtain ⟨-, hvalid⟩ := parsed_valid hparse
  have hsound := schemaSound_of_plan hvalidate hplan
  have hfits : ∀ d ∈ stmt.columnDefs, d.column.length ≤ maxColumnNameSize := by
    unfold validateCreateTable at hvalidate
    split at hvalidate
    · cases hvalidate
    · obtain ⟨⟨⟩, hdefs, -⟩ := bind_eq_ok.1 hvalidate
      exact validateColumnDefs_fits hdefs
  have htokens : ∀ d ∈ stmt.columnDefs, ∀ t ∈ d.tokens, t.isValid = true := by
    intro d hd t ht
    apply hvalid
    refine List.mem_append_right _ (List.mem_cons_of_mem _ (List.mem_cons_of_mem _
      (List.mem_append_left _ ?_)))
    exact mem_separated hd ht
  unfold planCreateTable at hplan
  dsimp only at hplan
  split at hplan
  · cases hplan
  · obtain ⟨columns, hcolumns, hplan⟩ := bind_eq_ok.1 hplan
    cases hplan
    refine ⟨fun col hcol => ?_, hsound, svToCstr_idem _ _⟩
    obtain ⟨d, hd, hcol⟩ := forall₂_mem_right (mapM_eq_ok.1 hcolumns) hcol
    exact plannedColumn_of_plan (htokens d hd) (hfits d hd) hcol

/-- An index that `plan_create_index` makes of a parsed statement. -/
structure PlannedIndex (schema : TableSchema) (idx : IndexDefinition) : Prop where
  name : isIdentifier idx.name = true
  fits : idx.name.length ≤ maxIndexNameSize
  type : idx.type = .btree
  nodeSize : idx.nodeSize = btreeNodeDefaultSize
  unique : idx.isUnique = true
  keySize : idx.keySize = (idx.parts.map (·.partLen)).sum
  someParts : idx.parts ≠ []
  partCount : idx.parts.length ≤ maxIndexColumnCount
  parts : ∀ part ∈ idx.parts, ∃ col, tableColumnPos schema part.column = some part.columnPos ∧
    schema.columns[part.columnPos]? = some col ∧ col.columnName = part.column ∧
    1 ≤ part.partLen ∧ part.partLen ≤ col.resolvedType.byteLen ∧
    part.partType = col.resolvedType.typeInfo.valueType ∧
    part.partCompare = col.resolvedType.typeInfo.compare

/-- The metadata that accepted CREATE INDEX statements make. -/
inductive BuiltIndexes (schema : TableSchema) : IndexMeta → Prop where
  | none : BuiltIndexes schema []
  | create {indexMeta : IndexMeta} {input : Text} {stmt : CreateIndexStmt}
      {indexDef : IndexDefinition} (hmeta : BuiltIndexes schema indexMeta)
      (hparse : parseInput input = .ok (.createIndex stmt, none))
      (hvalidate : validateCreateIndex stmt = .ok ())
      (hplan : planCreateIndex schema indexMeta stmt = .ok indexDef) :
      BuiltIndexes schema (indexMeta ++ [indexDef])

theorem keyPartLength_pos {part : IndexKeyPart} {schemaSize len : Nat} {columnName : Text}
    (hsize : 1 ≤ schemaSize) (h : keyPartLength part schemaSize columnName = .ok len) :
    1 ≤ len ∧ len ≤ schemaSize := by
  unfold keyPartLength at h
  split at h
  · cases h
    exact ⟨hsize, Nat.le_refl _⟩
  · split at h
    · split at h
      · cases h
      · split at h
        · cases h
        · cases h
          omega
    · cases h
    · cases h

theorem planKeyPart_planned {schema : TableSchema} (hsound : SchemaSound schema)
    {keyPart : IndexKeyPart} {part : IndexPart} (h : planKeyPart schema keyPart = .ok part) :
    ∃ col, tableColumnPos schema part.column = some part.columnPos ∧
      schema.columns[part.columnPos]? = some col ∧ col.columnName = part.column ∧
      1 ≤ part.partLen ∧ part.partLen ≤ col.resolvedType.byteLen ∧
      part.partType = col.resolvedType.typeInfo.valueType ∧
      part.partCompare = col.resolvedType.typeInfo.compare := by
  unfold planKeyPart at h
  dsimp only at h
  split at h
  · cases h
  · next pos hpos =>
    obtain ⟨len, hlen, h⟩ := bind_eq_ok.1 h
    cases h
    obtain ⟨col, hcol, hname⟩ := tableColumnPos_some hpos
    have hrt := hsound.columns col (List.mem_of_getElem? hcol)
    rw [columnAt_eq hcol] at hlen ⊢
    obtain ⟨hpos', hle⟩ := keyPartLength_pos hrt.byteLen_pos hlen
    exact ⟨col, hpos, hcol, hname, hpos', hle, rfl, rfl⟩

theorem planIndexType_nodeSize {type : Text} {vtable : IndexVTable}
    (h : planIndexType type = .ok vtable) : vtable.defaultNodeSize = btreeNodeDefaultSize := by
  have hregistry : ∀ vt ∈ indexRegistry, vt.defaultNodeSize = btreeNodeDefaultSize := by
    intro vt hvt
    obtain rfl := List.mem_singleton.1 hvt
    rfl
  unfold planIndexType at h
  dsimp only at h
  split at h <;> split at h
  · next vt hfind =>
    cases h
    exact hregistry _ (List.mem_of_find?_eq_some hfind)
  · cases h
  · next vt hfind =>
    cases h
    exact hregistry _ (List.mem_of_find?_eq_some hfind)
  · cases h

theorem plannedIndex_of_plan {schema : TableSchema} (hsound : SchemaSound schema) {input : Text}
    {stmt : CreateIndexStmt} {indexMeta : IndexMeta} {idx : IndexDefinition}
    (hparse : parseInput input = .ok (.createIndex stmt, none))
    (hvalidate : validateCreateIndex stmt = .ok ())
    (hplan : planCreateIndex schema indexMeta stmt = .ok idx) :
    PlannedIndex schema idx ∧ indexMeta.length < maxTableIndexCount := by
  obtain ⟨⟨hne, -⟩, hvalid⟩ := parsed_valid hparse
  have hident : isIdentifier stmt.name = true := by
    apply hvalid (identToken stmt.name)
    exact List.mem_append_right _ List.mem_cons_self
  obtain ⟨hname, hcount⟩ : stmt.name.length ≤ maxIndexNameSize ∧
      stmt.keyParts.length ≤ maxIndexColumnCount := by
    unfold validateCreateIndex at hvalidate
    split at hvalidate
    · cases hvalidate
    · next hname =>
      split at hvalidate
      · cases hvalidate
      · split at hvalidate
        · cases hvalidate
        · split at hvalidate
          · cases hvalidate
          · next hcount => exact ⟨Nat.not_lt.1 hname, Nat.not_lt.1 hcount⟩
  have hcopy : svToCstr stmt.name (maxIndexNameSize + 1) = stmt.name :=
    svToCstr_eq (isIdentifier_zero_not_mem hident) hname
  have hvalidIdx := planCreateIndex_valid hplan
  unfold planCreateIndex at hplan
  split at hplan
  · cases hplan
  · next hroom =>
    dsimp only at hplan
    split at hplan
    · cases hplan
    · obtain ⟨vtable, hvtable, hplan⟩ := bind_eq_ok.1 hplan
      split at hplan
      · cases hplan
      · obtain ⟨parts, hparts, hplan⟩ := bind_eq_ok.1 hplan
        cases hplan
        have hall := mapM_eq_ok.1 hparts
        refine ⟨⟨by rwa [hcopy], by rwa [hcopy], hvalidIdx.type_eq, ?_, hvalidIdx.unique, rfl, ?_,
          ?_, fun part hpart => ?_⟩, Nat.not_le.1 hroom⟩
        · exact planIndexType_nodeSize hvtable
        · intro hnil
          obtain rfl : parts = [] := hnil
          exact hne (List.forall₂_nil_right_iff.1 hall)
        · exact hall.length_eq ▸ hcount
        · obtain ⟨keyPart, -, hpart⟩ := forall₂_mem_right hall hpart
          exact planKeyPart_planned hsound hpart

theorem BuiltIndexes.planned {schema : TableSchema} (hsound : SchemaSound schema)
    {indexMeta : IndexMeta} (h : BuiltIndexes schema indexMeta) :
    (∀ idx ∈ indexMeta, PlannedIndex schema idx) ∧ indexMeta.length ≤ maxTableIndexCount := by
  induction h with
  | none => exact ⟨nofun, Nat.zero_le _⟩
  | create _ hparse hvalidate hplan ih =>
    obtain ⟨hidx, hroom⟩ := plannedIndex_of_plan hsound hparse hvalidate hplan
    refine ⟨fun idx hmem => ?_, by simp; omega⟩
    obtain hmem | hmem := List.mem_append.1 hmem
    · exact ih.1 idx hmem
    · rwa [List.mem_singleton.1 hmem]

end Maxql
