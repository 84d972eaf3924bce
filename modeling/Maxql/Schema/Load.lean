import Maxql.Codec
import Maxql.Engine.Dml
import Maxql.Parser.SchemaParser

/-!
# Loading a schema

`schema_load_table` of `src/schema/schema_io.c` and `index_resolve` of
`src/index/index_io.c`, on the contents of a file that can be opened.  They
make the checks of CREATE TABLE and CREATE INDEX again, but not all of them.

* `schemaLoadTable_eq_ok`: what a load that succeeds has read and checked;
* `schemaLoadTable_wellFormed_iff`: when the table is one that CREATE TABLE
  and CREATE INDEX can make.
-/

namespace Maxql

open Program Bytes

/-! ## Columns -/

def schemaValidateColumnName (columnName : Text) : Except Error Unit :=
  if columnName.length > maxColumnNameSize then errorFmt .storage (text "Column name too long")
  else if columnName.length = 0 then errorFmt .storage (text "Column name is empty")
  else if columnName.all fun c => isLower c || c == underscore then .ok ()
  else errorFmt .storage (text "Invalid column name")

/-- The length of a type as `schema_load_table` reads it. -/
def loadTypeLength (columnName : Text) (type : ColumnTypeDef) : Except Error Nat :=
  if !type.hasLen then .ok 0
  else
    match convertInt type.len with
    | .ok (.int n) =>
      if n.toInt < 0 ∨ n.toInt > 255 then
        errorFmt .storage (text "Type length out of range for '" ++ columnName ++ text "'")
      else .ok n.toInt.toNat
    | .ok _ => errorFmt .storage (text "Type length out of range for '" ++ columnName ++ text "'")
    | .error e => errorFmt .storage (text "Invalid type length for '" ++ columnName
        ++ text "': " ++ convertResultMsg e)

/-- The default of a column, which is not compared with the type. -/
def loadDefault (strtof : Strtof) (columnName : Text) (cd : ColumnDef) :
    Except Error DataValue :=
  if !cd.hasDefault then .ok .null
  else
    match convertValue strtof cd.defaultValue with
    | .error e => errorFmt .storage (text "Invalid default for '" ++ columnName ++ text "': "
        ++ convertResultMsg e)
    | .ok value => .ok value

/-- One round of the loop of `schema_load_table`. -/
def loadColumn (strtof : Strtof) (tableName : Text) (cd : ColumnDef) : Except Error Column := do
  let columnName := svToCstr cd.column (maxColumnNameSize + 1)
  schemaValidateColumnName columnName
  let typeName := svToCstr cd.type.name (maxTypeNameSize + 1)
  let typeLen ← loadTypeLength columnName cd.type
  match resolveType typeName cd.type.hasLen typeLen with
  | .error e => errorFmt .storage (text "Resolving type for '" ++ tableName ++ text "."
      ++ columnName ++ text "': " ++ resolveResultMsg e)
  | .ok resolvedType =>
    let defaultValue ← loadDefault strtof columnName cd
    .ok { columnName, resolvedType, hasDefault := cd.hasDefault, defaultValue }

/-- The loop, with the columns that are loaded. -/
def loadColumns (strtof : Strtof) (tableName : Text) :
    List ColumnDef → (columns : List Column) → Except Error (List Column)
  | [], columns => .ok columns
  | cd :: columnDefs, columns =>
    if columns.length ≥ maxColumnsPerTable then
      errorFmt .storage (text "Too many columns in table")
    else do
      let column ← loadColumn strtof tableName cd
      loadColumns strtof tableName columnDefs (columns ++ [column])

/-! ## Indexes -/

def resolveIndexPart (idx : IndexDefinition) (colName : Text) (partLen : Nat)
    (schema : TableSchema) : Except Error IndexDefinition :=
  match schema.columns.findIdx? fun column => column.columnName == colName with
  | none => errorFmt .storage (text "Index column '" ++ colName ++ text "' not found in schema")
  | some columnPos =>
    let typeInfo := (columnAt schema columnPos).resolvedType.typeInfo
    .ok { idx with
      keySize := idx.keySize + partLen
      parts := idx.parts ++ [{
        column := colName, columnPos, partLen
        partType := typeInfo.valueType
        partCompare := typeInfo.compare }] }

/-- The length of a key part as `index_resolve` reads it. -/
def loadPartLength (kp : IndexKeyPart) (colByteLen : Nat) (colName : Text) : Except Error Nat :=
  if !kp.hasKeyLen then .ok colByteLen
  else
    match convertInt kp.keyLen with
    | .ok (.int n) =>
      if n.toInt < 1 ∨ n.toInt > colByteLen then
        errorFmt .storage (text "Key part length out of range for '" ++ colName ++ text "'")
      else .ok n.toInt.toNat
    | .ok _ => errorFmt .storage (text "Key part length out of range for '" ++ colName ++ text "'")
    | .error e => errorFmt .storage (text "Invalid key part length for '" ++ colName
        ++ text "': " ++ convertResultMsg e)

/-- The loop of `index_resolve` over the key parts. -/
def resolveKeyParts (schema : TableSchema) :
    List IndexKeyPart → IndexDefinition → Except Error IndexDefinition
  | [], idx => .ok idx
  | kp :: keyParts, idx =>
    if idx.parts.length ≥ maxIndexColumnCount then
      errorFmt .storage (text "Too many key parts in index '" ++ idx.name ++ text "'")
    else
      let colName := svToCstr kp.column (maxColumnNameSize + 1)
      match tableColumnPos schema colName with
      | none =>
        errorFmt .storage (text "Index column '" ++ colName ++ text "' not found in schema")
      | some colPos => do
        let colByteLen := (columnAt schema colPos).resolvedType.byteLen
        let partLen ← loadPartLength kp colByteLen colName
        let idx ← resolveIndexPart idx colName partLen schema
        resolveKeyParts schema keyParts idx

/-- One round of `index_resolve`. -/
def resolveIndex (schema : TableSchema) (d : IndexDef) : Except Error IndexDefinition :=
  let typeName := svToCstr d.type (maxIndexTypeNameSize + 1)
  match indexVtableByName typeName with
  | none => errorFmt .storage (text "Unknown index type '" ++ typeName ++ text "'")
  | some vt =>
    resolveKeyParts schema d.keyParts {
      name := svToCstr d.name (maxIndexNameSize + 1), type := vt.type
      nodeSize := vt.defaultNodeSize, keySize := 0, isUnique := d.isUnique, parts := [] }

/-- `index_resolve`, with the indexes that are resolved. -/
def indexResolve (schema : TableSchema) : List IndexDef → IndexMeta → Except Error IndexMeta
  | [], out => .ok out
  | d :: indexDefs, out =>
    if out.length ≥ maxTableIndexCount then errorFmt .storage (text "Too many indexes")
    else do
      let idx ← resolveIndex schema d
      indexResolve schema indexDefs (out ++ [idx])

/-- What `schema_load_table` makes of the definitions in a file. -/
def resolveSchema (strtof : Strtof) (tableName : Text) (result : SchemaParseResult) :
    Except Error (TableSchema × IndexMeta) := do
  let columns ← loadColumns strtof tableName result.columnDefs []
  let schema := { tableName := svToCstr tableName (maxTableNameSize + 1), columns }
  let indexMeta ← indexResolve schema result.indexDefs []
  return (schema, indexMeta)

/-- `schema_load_table` on the contents of the file. -/
def schemaLoadTable (strtof : Strtof) (tableName : Text) (file : List UInt8) :
    Checked (Except Error (TableSchema × IndexMeta)) := do
  let (result, error) ← parseSchemaText (cstr file)
  match error with
  | some e => return .error e
  | none => return resolveSchema strtof tableName result

/-- A load always returns. -/
theorem schemaLoadTable_total (strtof : Strtof) (tableName : Text) (file : List UInt8) :
    ∃ loaded, schemaLoadTable strtof tableName file = .ok loaded := by
  obtain ⟨result, e, hparse, -⟩ := parseSchemaText_total (cstr file)
  rw [schemaLoadTable, hparse]
  cases e with
  | none => exact ⟨_, rfl⟩
  | some e => exact ⟨_, rfl⟩

/-! ## What a load has checked -/

theorem schemaLoadTable_eq_ok {strtof : Strtof} {tableName : Text} {file : List UInt8}
    {schema : TableSchema} {indexMeta : IndexMeta} :
    schemaLoadTable strtof tableName file = .ok (.ok (schema, indexMeta)) ↔
      ∃ result, parseSchemaText (cstr file) = .ok (result, none) ∧
        resolveSchema strtof tableName result = .ok (schema, indexMeta) := by
  unfold schemaLoadTable
  constructor
  · intro h
    obtain ⟨⟨result, e⟩, hparse, h⟩ := Checked.bind_eq_ok.1 h
    cases e with
    | some e => cases h
    | none => exact ⟨result, hparse, Except.ok.inj h⟩
  · rintro ⟨result, hparse, hresolve⟩
    rw [hparse]
    exact congrArg Except.ok hresolve

/-- The names that can be loaded. -/
def LoadableName (columnName : Text) : Prop :=
  columnName ≠ [] ∧ ∀ c ∈ columnName, isLower c = true ∨ c = underscore

theorem schemaValidateColumnName_eq_ok {columnName : Text}
    (hfits : columnName.length ≤ maxColumnNameSize) {u : Unit} :
    schemaValidateColumnName columnName = .ok u ↔ LoadableName columnName := by
  unfold schemaValidateColumnName LoadableName
  rw [if_neg (Nat.not_lt.2 hfits), ← List.length_pos_iff]
  split
  case isTrue hzero => exact ⟨fun h => (by cases h), fun h => absurd hzero (Nat.ne_of_gt h.1)⟩
  case isFalse hzero =>
    split
    case isTrue hall =>
      refine ⟨fun _ => ⟨Nat.pos_of_ne_zero hzero, fun c hc => ?_⟩, fun _ => rfl⟩
      simpa using List.all_eq_true.1 hall c hc
    case isFalse hall =>
      refine ⟨fun h => (by cases h), fun h => absurd (List.all_eq_true.2 fun c hc => ?_) hall⟩
      simpa using h.2 c hc

/-- The length that a definition gives its type. -/
def ColumnTypeDef.HasLength (type : ColumnTypeDef) (len : Nat) : Prop :=
  if type.hasLen then ∃ n : Int32, convertInt type.len = .ok (.int n) ∧ n.toInt = len else len = 0

theorem loadTypeLength_hasLength {columnName : Text} {type : ColumnTypeDef} {len : Nat}
    (h : loadTypeLength columnName type = .ok len) : type.HasLength len := by
  unfold loadTypeLength at h
  unfold ColumnTypeDef.HasLength
  split at h
  case isTrue hlen =>
    cases h
    rw [if_neg (by simpa using hlen)]
  case isFalse hlen =>
    rw [if_pos (by simpa using hlen)]
    split at h
    case h_1 n hconvert =>
      split at h
      · cases h
      · cases h
        exact ⟨n, hconvert, by omega⟩
    case h_2 => cases h
    case h_3 => cases h

theorem ColumnTypeDef.HasLength.unique {type : ColumnTypeDef} {len len' : Nat}
    (h : type.HasLength len) (h' : type.HasLength len') : len = len' := by
  unfold ColumnTypeDef.HasLength at h h'
  split at h
  case isTrue hlen =>
    rw [if_pos hlen] at h'
    obtain ⟨n, hn, hlen⟩ := h
    obtain ⟨n', hn', hlen'⟩ := h'
    rw [hn] at hn'
    cases hn'
    omega
  case isFalse hlen =>
    rw [if_neg hlen] at h'
    rw [h, h']

/-- What the definition of a column says that is loaded. -/
structure LoadsAs (strtof : Strtof) (cd : ColumnDef) (column : Column) : Prop where
  name : column.columnName = svToCstr cd.column (maxColumnNameSize + 1)
  loadable : LoadableName column.columnName
  type : ∃ len, cd.type.HasLength len ∧
    resolveType (svToCstr cd.type.name (maxTypeNameSize + 1)) cd.type.hasLen len
      = .ok column.resolvedType
  hasDefault : column.hasDefault = cd.hasDefault
  default : cd.hasDefault = true → convertValue strtof cd.defaultValue = .ok column.defaultValue

theorem loadColumn_loadsAs {strtof : Strtof} {tableName : Text} {cd : ColumnDef} {column : Column}
    (h : loadColumn strtof tableName cd = .ok column) : LoadsAs strtof cd column := by
  unfold loadColumn at h
  dsimp only at h
  obtain ⟨_, hname, h⟩ := bind_eq_ok.1 h
  obtain ⟨len, hlen, h⟩ := bind_eq_ok.1 h
  split at h
  · cases h
  · next rt hresolve =>
    obtain ⟨value, hdefault, h⟩ := bind_eq_ok.1 h
    cases h
    refine ⟨rfl, ?_, ⟨len, loadTypeLength_hasLength hlen, hresolve⟩, rfl, fun hhas => ?_⟩
    · exact (schemaValidateColumnName_eq_ok (length_svToCstr_le _ _)).1 hname
    · unfold loadDefault at hdefault
      rw [hhas, if_neg (by simp)] at hdefault
      split at hdefault
      · cases hdefault
      · next hconvert =>
        cases hdefault
        exact hconvert

/-- Every definition is loaded, and the columns fit in the table. -/
theorem loadColumns_spec {strtof : Strtof} {tableName : Text} {columnDefs : List ColumnDef}
    {done columns : List Column} (hdone : done.length ≤ maxColumnsPerTable)
    (h : loadColumns strtof tableName columnDefs done = .ok columns) :
    columns.length ≤ maxColumnsPerTable ∧
      ∃ loaded, columns = done ++ loaded ∧ List.Forall₂ (LoadsAs strtof) columnDefs loaded := by
  induction columnDefs generalizing done with
  | nil =>
    cases h
    exact ⟨hdone, [], by simp, .nil⟩
  | cons cd columnDefs ih =>
    rw [loadColumns] at h
    split at h
    · cases h
    · next hroom =>
      obtain ⟨column, hcolumn, h⟩ := bind_eq_ok.1 h
      obtain ⟨hcount, loaded, rfl, hall⟩ := ih (by simp; omega) h
      exact ⟨hcount, column :: loaded, by simp, .cons (loadColumn_loadsAs hcolumn) hall⟩

/-- A key part that is loaded: the first column with its name, and a length inside it. -/
structure PartLoadsAs (schema : TableSchema) (kp : IndexKeyPart) (part : IndexPart) : Prop where
  column : part.column = svToCstr kp.column (maxColumnNameSize + 1)
  position : ∃ column, schema.columns[part.columnPos]? = some column ∧
    column.columnName = part.column ∧
    (column.resolvedType.Sound → 1 ≤ part.partLen) ∧
    part.partLen ≤ column.resolvedType.byteLen

theorem loadPartLength_spec {kp : IndexKeyPart} {colByteLen len : Nat} {colName : Text}
    (h : loadPartLength kp colByteLen colName = .ok len) :
    (1 ≤ colByteLen → 1 ≤ len) ∧ len ≤ colByteLen := by
  unfold loadPartLength at h
  split at h
  · cases h
    exact ⟨id, Nat.le_refl _⟩
  · split at h
    · split at h
      · cases h
      · cases h
        omega
    · cases h
    · cases h

/-- Both searches of a column find the same one. -/
theorem findColumn_eq (schema : TableSchema) (colName : Text) :
    (schema.columns.findIdx? fun column => column.columnName == colName)
      = tableColumnPos schema colName := by
  have hsymm : (fun column : Column => column.columnName == colName)
      = fun column => colName == column.columnName := by
    funext column
    rw [Bool.eq_iff_iff, beq_iff_eq, beq_iff_eq, eq_comm]
  rw [tableColumnPos, hsymm]

theorem tableColumnPos_some {schema : TableSchema} {colName : Text} {pos : Nat}
    (h : tableColumnPos schema colName = some pos) :
    ∃ column, schema.columns[pos]? = some column ∧ column.columnName = colName := by
  obtain ⟨hpos, hname, -⟩ := List.findIdx?_eq_some_iff_getElem.1 h
  exact ⟨_, List.getElem?_eq_getElem hpos, (beq_iff_eq.1 hname).symm⟩

/-- Every part is resolved, and the sum of the lengths is kept with them. -/
theorem resolveKeyParts_spec {schema : TableSchema} {keyParts : List IndexKeyPart}
    {idx out : IndexDefinition} (hcount : idx.parts.length ≤ maxIndexColumnCount)
    (hsize : idx.keySize = (idx.parts.map (·.partLen)).sum)
    (h : resolveKeyParts schema keyParts idx = .ok out) :
    out.name = idx.name ∧ out.type = idx.type ∧ out.nodeSize = idx.nodeSize ∧
      out.isUnique = idx.isUnique ∧ out.parts.length ≤ maxIndexColumnCount ∧
      out.keySize = (out.parts.map (·.partLen)).sum ∧
      ∃ parts, out.parts = idx.parts ++ parts ∧
        List.Forall₂ (PartLoadsAs schema) keyParts parts := by
  induction keyParts generalizing idx with
  | nil =>
    cases h
    exact ⟨rfl, rfl, rfl, rfl, hcount, hsize, [], by simp, .nil⟩
  | cons kp keyParts ih =>
    rw [resolveKeyParts] at h
    split at h
    · cases h
    · next hroom =>
      dsimp only at h
      split at h
      · cases h
      · next pos hpos =>
        obtain ⟨len, hlen, h⟩ := bind_eq_ok.1 h
        obtain ⟨idx', hidx, h⟩ := bind_eq_ok.1 h
        obtain ⟨column, hcolumn, hname⟩ := tableColumnPos_some hpos
        rw [resolveIndexPart, findColumn_eq, hpos] at hidx
        cases hidx
        obtain ⟨hname', htype, hnode, hunique, hcount', hsize', parts, hparts, hall⟩ :=
          ih (by simp; omega) (by simp [hsize]) h
        rw [columnAt_eq hcolumn] at hlen
        obtain ⟨hpos', hle⟩ := loadPartLength_spec hlen
        refine ⟨hname', htype, hnode, hunique, hcount', hsize', _, by rw [hparts]; simp; rfl,
          .cons ⟨rfl, column, hcolumn, hname, fun hrt => hpos' hrt.byteLen_pos, hle⟩ hall⟩

/-- What the definition of an index says that is loaded. -/
structure IndexLoadsAs (schema : TableSchema) (d : IndexDef) (idx : IndexDefinition) : Prop where
  name : idx.name = svToCstr d.name (maxIndexNameSize + 1)
  type : ∃ vt, indexVtableByName (svToCstr d.type (maxIndexTypeNameSize + 1)) = some vt ∧
    idx.type = vt.type ∧ idx.nodeSize = vt.defaultNodeSize
  isUnique : idx.isUnique = d.isUnique
  partCount : idx.parts.length ≤ maxIndexColumnCount
  keySize : idx.keySize = (idx.parts.map (·.partLen)).sum
  parts : List.Forall₂ (PartLoadsAs schema) d.keyParts idx.parts

theorem resolveIndex_loadsAs {schema : TableSchema} {d : IndexDef} {idx : IndexDefinition}
    (h : resolveIndex schema d = .ok idx) : IndexLoadsAs schema d idx := by
  unfold resolveIndex at h
  dsimp only at h
  split at h
  · cases h
  · next vt hvt =>
    obtain ⟨hname, htype, hnode, hunique, hcount, hsize, parts, hparts, hall⟩ :=
      resolveKeyParts_spec (Nat.zero_le _) rfl h
    rw [List.nil_append] at hparts
    subst hparts
    exact ⟨hname, ⟨vt, hvt, htype, hnode⟩, hunique, hcount, hsize, hall⟩

theorem indexResolve_spec {schema : TableSchema} {indexDefs : List IndexDef}
    {done out : IndexMeta} (hdone : done.length ≤ maxTableIndexCount)
    (h : indexResolve schema indexDefs done = .ok out) :
    out.length ≤ maxTableIndexCount ∧
      ∃ loaded, out = done ++ loaded ∧ List.Forall₂ (IndexLoadsAs schema) indexDefs loaded := by
  induction indexDefs generalizing done with
  | nil =>
    cases h
    exact ⟨hdone, [], by simp, .nil⟩
  | cons d indexDefs ih =>
    rw [indexResolve] at h
    split at h
    · cases h
    · next hroom =>
      obtain ⟨idx, hidx, h⟩ := bind_eq_ok.1 h
      obtain ⟨hcount, loaded, rfl, hall⟩ := ih (by simp; omega) h
      exact ⟨hcount, idx :: loaded, by simp, .cons (resolveIndex_loadsAs hidx) hall⟩

/-! ## Well-formed tables -/

/-- What CREATE INDEX guarantees of an index. -/
structure IndexDefinition.WellFormed (idx : IndexDefinition) (schema : TableSchema) : Prop where
  partCount : 1 ≤ idx.parts.length ∧ idx.parts.length ≤ maxIndexColumnCount
  columns : (idx.parts.map (·.column)).Nodup
  parts : ∀ part ∈ idx.parts, ∃ column, schema.columns[part.columnPos]? = some column ∧
    column.columnName = part.column ∧ 1 ≤ part.partLen ∧
    part.partLen ≤ column.resolvedType.byteLen
  keySize : idx.keySize = (idx.parts.map (·.partLen)).sum
  unique : idx.isUnique = false → ∃ vt, indexVtable idx.type = some vt ∧
    vt.acceptsNonUnique = true

/-- What CREATE TABLE and CREATE INDEX guarantee of a table. -/
structure WellFormedTable (schema : TableSchema) (indexMeta : IndexMeta) : Prop where
  columnCount : schema.columns.length ≤ maxColumnsPerTable
  columnNames : (schema.columns.map (·.columnName)).Nodup
  defaults : ∀ column ∈ schema.columns, column.hasDefault = true →
    resolvedTypeValidate column.resolvedType column.defaultValue = .ok
  indexCount : indexMeta.length ≤ maxTableIndexCount
  indexNames : (indexMeta.map (·.name)).Nodup
  indexes : ∀ idx ∈ indexMeta, idx.WellFormed schema

/-- The default of a column has the type of the column and fits. -/
def ColumnDef.DefaultFits (strtof : Strtof) (cd : ColumnDef) : Prop :=
  cd.hasDefault = true → ∀ len resolvedType value, cd.type.HasLength len →
    resolveType (svToCstr cd.type.name (maxTypeNameSize + 1)) cd.type.hasLen len
      = .ok resolvedType →
    convertValue strtof cd.defaultValue = .ok value →
    resolvedTypeValidate resolvedType value = .ok

/-- What CREATE TABLE and CREATE INDEX check of the definitions and a load does not. -/
structure SchemaParseResult.PassesChecks (strtof : Strtof) (result : SchemaParseResult) : Prop where
  columnNames : (result.columnDefs.map fun cd => svToCstr cd.column (maxColumnNameSize + 1)).Nodup
  defaults : ∀ cd ∈ result.columnDefs, cd.DefaultFits strtof
  indexNames : (result.indexDefs.map fun d => svToCstr d.name (maxIndexNameSize + 1)).Nodup
  partColumns : ∀ d ∈ result.indexDefs,
    (d.keyParts.map fun kp => svToCstr kp.column (maxColumnNameSize + 1)).Nodup
  unique : ∀ d ∈ result.indexDefs, d.isUnique = true

/-- What one list says about its items holds of the items that they belong to. -/
theorem forall₂_map_eq {α β γ : Type} {R : α → β → Prop} {f : α → γ} {g : β → γ}
    (hfg : ∀ a b, R a b → g b = f a) {as : List α} {bs : List β} (h : List.Forall₂ R as bs) :
    bs.map g = as.map f := by
  induction h with
  | nil => rfl
  | cons hab _ ih => rw [List.map_cons, List.map_cons, hfg _ _ hab, ih]

theorem forall₂_mem_left {α β : Type} {R : α → β → Prop} {as : List α} {bs : List β}
    (h : List.Forall₂ R as bs) {a : α} (ha : a ∈ as) : ∃ b ∈ bs, R a b := by
  induction h with
  | nil => cases ha
  | @cons a' b as bs hab _ ih =>
    obtain rfl | ha := List.mem_cons.1 ha
    · exact ⟨b, List.mem_cons_self, hab⟩
    · obtain ⟨b', hb', hR⟩ := ih ha
      exact ⟨b', List.mem_cons_of_mem _ hb', hR⟩

theorem forall₂_mem_right {α β : Type} {R : α → β → Prop} {as : List α} {bs : List β}
    (h : List.Forall₂ R as bs) {b : β} (hb : b ∈ bs) : ∃ a ∈ as, R a b :=
  forall₂_mem_left h.flip hb

theorem LoadsAs.sound {strtof : Strtof} {cd : ColumnDef} {column : Column}
    (h : LoadsAs strtof cd column) : column.resolvedType.Sound := by
  obtain ⟨len, -, hresolve⟩ := h.type
  exact resolveType_sound hresolve

/-- A loaded default is right exactly if the default of the definition is. -/
theorem LoadsAs.defaultFits_iff {strtof : Strtof} {cd : ColumnDef} {column : Column}
    (h : LoadsAs strtof cd column) :
    (column.hasDefault = true → resolvedTypeValidate column.resolvedType column.defaultValue = .ok)
      ↔ cd.DefaultFits strtof := by
  obtain ⟨len, hlen, hresolve⟩ := h.type
  rw [h.hasDefault]
  constructor
  · intro hvalid hhas len' rt value hlen' hresolve' hconvert
    obtain rfl := hlen.unique hlen'
    rw [hresolve] at hresolve'
    cases hresolve'
    rw [h.default hhas] at hconvert
    cases hconvert
    exact hvalid hhas
  · exact fun hfits hhas => hfits hhas len _ _ hlen hresolve (h.default hhas)

/-- The only index type is the B-tree, which is unique. -/
theorem indexVtable_unique {type : IndexType} {vt : IndexVTable} (h : indexVtable type = some vt) :
    vt.acceptsNonUnique = false := by
  obtain rfl := List.mem_singleton.1 (List.mem_of_find?_eq_some h)
  rfl

theorem IndexLoadsAs.wellFormed_iff {schema : TableSchema} {d : IndexDef} {idx : IndexDefinition}
    (h : IndexLoadsAs schema d idx) (hsound : ∀ column ∈ schema.columns, column.resolvedType.Sound)
    (hparts : d.keyParts ≠ []) :
    idx.WellFormed schema ↔
      (d.keyParts.map fun kp => svToCstr kp.column (maxColumnNameSize + 1)).Nodup ∧
        d.isUnique = true := by
  have hnames : idx.parts.map (·.column)
      = d.keyParts.map fun kp => svToCstr kp.column (maxColumnNameSize + 1) :=
    forall₂_map_eq (fun _ _ hp => hp.column) h.parts
  constructor
  · intro hwell
    refine ⟨hnames ▸ hwell.columns, ?_⟩
    by_contra hunique
    obtain ⟨vt, hvt, haccepts⟩ := hwell.unique (by simpa [h.isUnique] using hunique)
    rw [indexVtable_unique hvt] at haccepts
    cases haccepts
  · rintro ⟨hnodup, hunique⟩
    refine ⟨⟨?_, h.partCount⟩, hnames ▸ hnodup, fun part hpart => ?_, h.keySize, fun hfalse => ?_⟩
    · rw [← h.parts.length_eq]
      exact List.length_pos_iff.2 hparts
    · obtain ⟨kp, -, hpart⟩ := forall₂_mem_right h.parts hpart
      obtain ⟨column, hcolumn, hname, hpos, hle⟩ := hpart.position
      exact ⟨column, hcolumn, hname, hpos (hsound column (List.mem_of_getElem? hcolumn)), hle⟩
    · rw [h.isUnique, hunique] at hfalse
      cases hfalse

/-- The indexes of a parsed text have key parts. -/
theorem keyParts_ne_nil {ts : List Token} {indexDefs : List IndexDef} {rest : List Token}
    (h : Grammar.Until rparen comma indexDefGrammar ts indexDefs rest) :
    ∀ d ∈ indexDefs, d.keyParts ≠ [] := by
  induction h with
  | done => exact nofun
  | more _ hitem _ _ ih => exact List.forall_mem_cons.2 ⟨hitem.2.1.keyParts, ih⟩

/-- A table that is loaded is one that CREATE TABLE and CREATE INDEX can make exactly if the file
passes the checks of theirs that a load does not make. -/
theorem schemaLoadTable_wellFormed_iff (strtof : Strtof) (tableName : Text) (file : List UInt8)
    (schema : TableSchema) (indexMeta : IndexMeta)
    (hload : schemaLoadTable strtof tableName file = .ok (.ok (schema, indexMeta))) :
    WellFormedTable schema indexMeta ↔
      ∀ result, parseSchemaText (cstr file) = .ok (result, none) → result.PassesChecks strtof := by
  obtain ⟨result, hparse, hresolve⟩ := schemaLoadTable_eq_ok.1 hload
  obtain ⟨columns, hcolumns, hresolve⟩ := bind_eq_ok.1 hresolve
  obtain ⟨indexes, hindexes, hresolve⟩ := bind_eq_ok.1 hresolve
  cases hresolve
  obtain ⟨hcolumnCount, loaded, hloaded, hall⟩ := loadColumns_spec (Nat.zero_le _) hcolumns
  obtain ⟨hindexCount, loaded', hloaded', hall'⟩ := indexResolve_spec (Nat.zero_le _) hindexes
  rw [List.nil_append] at hloaded hloaded'
  subst hloaded hloaded'
  have hkeyParts : ∀ d ∈ result.indexDefs, d.keyParts ≠ [] := by
    obtain ⟨result', e, hparse', hgrammar⟩ := parseSchemaText_total (cstr file)
    rw [hparse] at hparse'
    cases hparse'
    obtain ⟨rest, ⟨_, _, _, _, _, _, -, -, -, hdefs, -⟩, -⟩ := hgrammar rfl
    exact keyParts_ne_nil hdefs
  have hsound : ∀ column ∈ columns, column.resolvedType.Sound := by
    intro column hcolumn
    obtain ⟨cd, -, hcd⟩ := forall₂_mem_right hall hcolumn
    exact hcd.sound
  have hnames := forall₂_map_eq (g := (·.columnName)) (fun _ _ h => LoadsAs.name h) hall
  have hnames' := forall₂_map_eq (g := (·.name)) (fun _ _ h => IndexLoadsAs.name h) hall'
  constructor
  · intro hwell result' hparse'
    rw [hparse] at hparse'
    cases hparse'
    have hindex : ∀ d ∈ result.indexDefs,
        (d.keyParts.map fun kp => svToCstr kp.column (maxColumnNameSize + 1)).Nodup ∧
          d.isUnique = true := by
      intro d hd
      obtain ⟨idx, hidx, hloads⟩ := forall₂_mem_left hall' hd
      exact (hloads.wellFormed_iff hsound (hkeyParts d hd)).1 (hwell.indexes idx hidx)
    refine ⟨hnames ▸ hwell.columnNames, fun cd hcd => ?_, hnames' ▸ hwell.indexNames,
      fun d hd => (hindex d hd).1, fun d hd => (hindex d hd).2⟩
    obtain ⟨column, hcolumn, hloads⟩ := forall₂_mem_left hall hcd
    exact hloads.defaultFits_iff.1 (hwell.defaults column hcolumn)
  · intro hchecked
    obtain ⟨hcolumnNames, hdefaults, hindexNames, hpartColumns, hunique⟩ := hchecked result hparse
    refine ⟨hcolumnCount, hnames ▸ hcolumnNames, fun column hcolumn => ?_, hindexCount,
      hnames' ▸ hindexNames, fun idx hidx => ?_⟩
    · obtain ⟨cd, hcd, hloads⟩ := forall₂_mem_right hall hcolumn
      exact hloads.defaultFits_iff.2 (hdefaults cd hcd)
    · obtain ⟨d, hd, hloads⟩ := forall₂_mem_right hall' hidx
      exact (hloads.wellFormed_iff hsound (hkeyParts d hd)).2 ⟨hpartColumns d hd, hunique d hd⟩

/-- An `int` column with an index on it. -/
def indexedFile : Text := text "table (columns (a int,), indexes (btree unique i (a(4)),),)"

def indexedSchema : TableSchema :=
  { tableName := text "t", columns := [⟨text "a", ⟨.int, 4, text "int"⟩, false, .null⟩] }

def indexedMeta : IndexMeta :=
  [{ name := text "i", type := .btree, nodeSize := 4096, keySize := 4, isUnique := true
     parts := [⟨text "a", 0, 4, .int, .compareIntKeys⟩] }]

theorem schemaLoadTable_wellFormed_indexed :
    WellFormedTable indexedSchema indexedMeta ↔
      ∀ result, parseSchemaText (cstr indexedFile) = .ok (result, none) →
        result.PassesChecks fun s => ⟨false, 0, s⟩ :=
  schemaLoadTable_wellFormed_iff (fun s => ⟨false, 0, s⟩) (text "t") indexedFile _ _
    (by decide +kernel)

/-- Two columns with one name are loaded. -/
theorem schemaLoadTable_duplicateColumn :
    ¬∀ (strtof : Strtof) (tableName : Text) (file : List UInt8) (schema : TableSchema)
      (indexMeta : IndexMeta),
      schemaLoadTable strtof tableName file = .ok (.ok (schema, indexMeta)) →
        WellFormedTable schema indexMeta := by
  intro h
  have hload : schemaLoadTable (fun s => ⟨false, 0, s⟩) (text "t")
      (text "table (columns (a int, a int,), indexes (),)")
      = .ok (.ok (⟨text "t", [⟨text "a", ⟨.int, 4, text "int"⟩, false, .null⟩,
        ⟨text "a", ⟨.int, 4, text "int"⟩, false, .null⟩]⟩, [])) := by
    decide +kernel
  exact absurd (h _ _ _ _ _ hload).columnNames (by decide)

end Maxql
