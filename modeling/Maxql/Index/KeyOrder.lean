import Maxql.Engine.InSync
import Maxql.Lib.Comparison

/-!
# The order of index keys

`compound_compare` of `src/index/comparator.c` and the functions of
`src/types/key_compare.c`.  A comparison gets the memory from the start of a
key on.  An `int` part is read as four bytes however long it is, so the bytes
behind a shorter part take part in its comparison.

* `compoundCompare_eq`: a comparison that stays inside the keys, as
  `lexParts`;
* `preCmp_lexParts`, `lexParts_eq_zero`: its order, and when it gives 0;
* `keys_ordered_iff`: the indexes whose keys it orders.
-/

namespace Maxql

open Program Bytes SortedEntries

/-! ## Definitions -/

/-- `*(const int32_t*)a` -/
def int32At (a : List UInt8) : Checked Int := do
  let bytes ← slice a 0 4
  return (UInt32.ofNat (ofLe bytes)).toInt32.toInt

/-- `*(const float*)a` -/
def float32At (a : List UInt8) : Checked UInt32 := do
  let bytes ← slice a 0 4
  return UInt32.ofNat (ofLe bytes)

def compareIntKeys (a b : List UInt8) (_length : Nat) : Checked Int := do
  let va ← int32At a
  let vb ← int32At b
  return threeWay va vb

def compareStringKeys (a b : List UInt8) (length : Nat) : Checked Int := do
  let sa ← slice a 0 length
  let sb ← slice b 0 length
  return strncmp sa sb

def compareBinaryKeys (a b : List UInt8) (length : Nat) : Checked Int := do
  let sa ← slice a 0 length
  let sb ← slice b 0 length
  return memcmp sa sb

def compareFloatKeys (a b : List UInt8) (_length : Nat) : Checked Int := do
  let va ← float32At a
  let vb ← float32At b
  return compareFloat va vb

/-- The function of `field_comparators`. -/
def KeyComparator.run : KeyComparator → List UInt8 → List UInt8 → Nat → Checked Int
  | .compareIntKeys => Maxql.compareIntKeys
  | .compareStringKeys => Maxql.compareStringKeys
  | .compareBinaryKeys => Maxql.compareBinaryKeys
  | .compareFloatKeys => Maxql.compareFloatKeys

/-- The loop of `compound_compare`; the parts of the index are the fields of its context. -/
def compoundCompareFrom (ka kb : List UInt8) : List IndexPart → (offset : Nat) → Checked Int
  | [], _ => .ok 0
  | part :: parts, offset => do
    let result ← part.partCompare.run (ka.drop offset) (kb.drop offset) part.partLen
    if result ≠ 0 then return result
    compoundCompareFrom ka kb parts (offset + part.partLen)

def compoundCompare (indexDef : IndexDefinition) (ka kb : List UInt8) : Checked Int :=
  compoundCompareFrom ka kb indexDef.parts 0

/-- The keys that `prepare_index_key` builds from values of the types of the columns. -/
def IsKey [UnionMemory] (schema : TableSchema) (indexDef : IndexDefinition) (key : Key) : Prop :=
  ∃ row, RowOfTypes schema.columns row ∧ rowKey indexDef row = .ok key

/-- The comparison reads nothing but the keys, whatever memory is behind them, and is a total
order on them that tells any two of them apart. -/
def OrdersKeys [UnionMemory] (schema : TableSchema) (indexDef : IndexDefinition) : Prop :=
  ∃ cmp : { key // IsKey schema indexDef key } → { key // IsKey schema indexDef key } → Int,
    (∀ a b behind behind',
      compoundCompare indexDef (a.1 ++ behind) (b.1 ++ behind') = .ok (cmp a b)) ∧
    TotalCmp cmp

/-- From the start of every `int` part on the key has at least four bytes. -/
def IntPartsInside : List IndexPart → Prop
  | [] => True
  | part :: parts =>
    (part.partCompare = .compareIntKeys → 4 ≤ ((part :: parts).map (·.partLen)).sum) ∧
      IntPartsInside parts

/-! ## What a comparison computes -/

/-- One part, on the bytes from its start on. -/
def partCmp (part : IndexPart) (x y : List UInt8) : Int :=
  match part.partCompare with
  | .compareIntKeys => threeWay (UInt32.ofNat (ofLe (x.take 4))).toInt32.toInt
      (UInt32.ofNat (ofLe (y.take 4))).toInt32.toInt
  | .compareStringKeys => strncmp (x.take part.partLen) (y.take part.partLen)
  | .compareBinaryKeys => memcmp (x.take part.partLen) (y.take part.partLen)
  | .compareFloatKeys =>
    compareFloat (UInt32.ofNat (ofLe (x.take 4))) (UInt32.ofNat (ofLe (y.take 4)))

/-- All parts, on the bytes from the start of the first one on. -/
def lexParts : List IndexPart → List UInt8 → List UInt8 → Int
  | [], _, _ => 0
  | part :: parts, x, y =>
    if partCmp part x y ≠ 0 then partCmp part x y
    else lexParts parts (x.drop part.partLen) (y.drop part.partLen)

theorem slice_zero {x : List UInt8} {n : Nat} (h : n ≤ x.length) (behind : List UInt8) :
    slice (x ++ behind) 0 n = .ok (x.take n) := by
  have hle : 0 + n ≤ (x ++ behind).length := by
    rw [List.length_append]
    omega
  rw [slice, if_pos hle, List.drop_zero, List.take_append_of_le_length h]

/-- A comparison inside the keys does not depend on what is behind them. -/
theorem run_partCmp {part : IndexPart} {x y : List UInt8} (hx : part.partLen ≤ x.length)
    (hy : part.partLen ≤ y.length) (hfloat : part.partCompare ≠ .compareFloatKeys)
    (hint : part.partCompare = .compareIntKeys → 4 ≤ x.length ∧ 4 ≤ y.length)
    (behind behind' : List UInt8) :
    part.partCompare.run (x ++ behind) (y ++ behind') part.partLen
      = .ok (partCmp part x y) := by
  unfold partCmp
  cases hcompare : part.partCompare with
  | compareIntKeys =>
    obtain ⟨hx4, hy4⟩ := hint hcompare
    show (int32At (x ++ behind) >>= fun va => int32At (y ++ behind') >>= fun vb =>
      Except.ok (threeWay va vb)) = _
    rw [int32At, int32At, slice_zero hx4, slice_zero hy4]
    rfl
  | compareStringKeys =>
    show (slice (x ++ behind) 0 part.partLen >>= fun sa =>
      slice (y ++ behind') 0 part.partLen >>= fun sb => Except.ok (strncmp sa sb)) = _
    rw [slice_zero hx, slice_zero hy]
    rfl
  | compareBinaryKeys =>
    show (slice (x ++ behind) 0 part.partLen >>= fun sa =>
      slice (y ++ behind') 0 part.partLen >>= fun sb => Except.ok (memcmp sa sb)) = _
    rw [slice_zero hx, slice_zero hy]
    rfl
  | compareFloatKeys => exact absurd hcompare hfloat

theorem compoundCompare_eq {ka kb : List UInt8} {parts : List IndexPart} {offset : Nat}
    (ha : ka.length = offset + (parts.map (·.partLen)).sum)
    (hb : kb.length = offset + (parts.map (·.partLen)).sum)
    (hfloat : ∀ part ∈ parts, part.partCompare ≠ .compareFloatKeys)
    (hinside : IntPartsInside parts) (behind behind' : List UInt8) :
    compoundCompareFrom (ka ++ behind) (kb ++ behind') parts offset
      = .ok (lexParts parts (ka.drop offset) (kb.drop offset)) := by
  induction parts generalizing offset with
  | nil => rfl
  | cons part parts ih =>
    obtain ⟨hint, hinside⟩ := hinside
    obtain ⟨hfloat₁, hfloat⟩ := List.forall_mem_cons.1 hfloat
    rw [List.map_cons, List.sum_cons] at ha hb
    have hrun := run_partCmp (x := ka.drop offset) (y := kb.drop offset)
      (by rw [List.length_drop]; omega) (by rw [List.length_drop]; omega) hfloat₁
      (fun hcompare => by
        have hfour := hint hcompare
        rw [List.map_cons, List.sum_cons] at hfour
        rw [List.length_drop, List.length_drop]
        omega) behind behind'
    have hrest := @ih (offset + part.partLen) (by omega) (by omega) hfloat hinside
    rw [← List.drop_drop, ← List.drop_drop] at hrest
    rw [compoundCompareFrom, List.drop_append_of_le_length (by omega),
      List.drop_append_of_le_length (by omega), hrun, Checked.ok_bind, lexParts]
    split
    · rfl
    · exact hrest

/-- Comparing a key with itself reaches every part. -/
theorem inside_of_compare_self {key : List UInt8} {parts : List IndexPart} {offset : Nat}
    (hkey : key.length = offset + (parts.map (·.partLen)).sum) {r : Int}
    (h : compoundCompareFrom key key parts offset = .ok r) : IntPartsInside parts := by
  induction parts generalizing offset with
  | nil => trivial
  | cons part parts ih =>
    rw [List.map_cons, List.sum_cons] at hkey
    obtain ⟨result, hresult, h⟩ := Checked.bind_eq_ok.1 h
    have hzero : result = 0 := by
      cases hcompare : part.partCompare <;> rw [hcompare] at hresult
      case compareIntKeys =>
        obtain ⟨va, hva, hresult⟩ := Checked.bind_eq_ok.1 hresult
        rw [hva] at hresult
        cases hresult
        exact threeWay_self va
      case compareStringKeys =>
        obtain ⟨sa, hsa, hresult⟩ := Checked.bind_eq_ok.1 hresult
        rw [hsa] at hresult
        cases hresult
        exact (preCmp_strncmp sa.length).self ⟨sa, rfl⟩
      case compareBinaryKeys =>
        obtain ⟨sa, hsa, hresult⟩ := Checked.bind_eq_ok.1 hresult
        rw [hsa] at hresult
        cases hresult
        exact (memcmp_eq_zero rfl).2 rfl
      case compareFloatKeys =>
        obtain ⟨va, hva, hresult⟩ := Checked.bind_eq_ok.1 hresult
        rw [hva] at hresult
        cases hresult
        exact compareFloat_self va
    rw [if_neg (not_not.2 hzero)] at h
    refine ⟨fun hcompare => ?_, @ih (offset + part.partLen) (by omega) h⟩
    rw [hcompare] at hresult
    obtain ⟨va, hva, -⟩ := Checked.bind_eq_ok.1 hresult
    obtain ⟨bytes, hbytes, -⟩ := Checked.bind_eq_ok.1 hva
    unfold slice at hbytes
    split at hbytes
    · next hle =>
      rw [List.length_drop] at hle
      rw [List.map_cons, List.sum_cons]
      omega
    · cases hbytes

/-! ## Its order -/

theorem totalCmp_threeWay : TotalCmp threeWay where
  eq_zero := threeWay_eq_zero
  neg_iff := by
    intro a b
    unfold threeWay
    split <;> split <;> omega
  trans := by
    intro a b c hab hbc
    unfold threeWay at *
    split at hab <;> split at hab <;> split at hbc <;> split at hbc <;> split <;> split <;> omega

theorem preCmp_partCmp (part : IndexPart) {n : Nat} (hn : part.partLen ≤ n)
    (hfloat : part.partCompare ≠ .compareFloatKeys) :
    PreCmp fun x y : Fixed n => partCmp part x.1 y.1 := by
  have htake : ∀ x : Fixed n, (x.1.take part.partLen).length = part.partLen := fun x => by
    rw [List.length_take, x.2, Nat.min_eq_left hn]
  unfold partCmp
  cases hcompare : part.partCompare with
  | compareIntKeys =>
    exact (PreCmp.of_total totalCmp_threeWay).on fun x : Fixed n =>
      (UInt32.ofNat (ofLe (x.1.take 4))).toInt32.toInt
  | compareStringKeys =>
    exact (preCmp_strncmp part.partLen).on fun x : Fixed n =>
      (⟨x.1.take part.partLen, htake x⟩ : Fixed part.partLen)
  | compareBinaryKeys =>
    exact (preCmp_memcmp part.partLen).on fun x : Fixed n =>
      (⟨x.1.take part.partLen, htake x⟩ : Fixed part.partLen)
  | compareFloatKeys => exact absurd hcompare hfloat

theorem preCmp_lexParts {parts : List IndexPart}
    (hfloat : ∀ part ∈ parts, part.partCompare ≠ .compareFloatKeys) :
    ∀ {n : Nat}, (parts.map (·.partLen)).sum ≤ n →
      PreCmp fun x y : Fixed n => lexParts parts x.1 y.1 := by
  induction parts with
  | nil =>
    intro n _
    exact ⟨Iff.rfl, fun _ _ => Int.le_refl 0⟩
  | cons part parts ih =>
    intro n hn
    rw [List.map_cons, List.sum_cons] at hn
    obtain ⟨hfloat₁, hfloat⟩ := List.forall_mem_cons.1 hfloat
    have hfirst := preCmp_partCmp part (n := n) (by omega) hfloat₁
    have hrest := (ih hfloat (n := n - part.partLen) (by omega)).on fun x : Fixed n =>
      (⟨x.1.drop part.partLen, by rw [List.length_drop, x.2]⟩ : Fixed (n - part.partLen))
    exact hfirst.next hrest

/-! ## Keys that compare equal -/

/-- The type of the values that a comparison is for. -/
def KeyComparator.valueType : KeyComparator → ValueType
  | .compareIntKeys => .int
  | .compareStringKeys => .string
  | .compareBinaryKeys => .binary
  | .compareFloatKeys => .float

theorem valueType_compare (rt : ResolvedType) :
    rt.typeInfo.compare.valueType = rt.typeInfo.valueType := by
  obtain ⟨columnType, byteLen, name⟩ := rt
  cases columnType <;> rfl

/-- A value that a part of an index takes its bytes from. -/
def PartTyped (part : IndexPart) (value : DataValue) : Prop :=
  PartFits part.partLen value ∧ value.type = part.partCompare.valueType

/-- The four bytes of an `int` stand for one number only. -/
theorem int_inj {x y : List UInt8} (hx : x.length = 4) (hy : y.length = 4)
    (h : (UInt32.ofNat (ofLe x)).toInt32.toInt = (UInt32.ofNat (ofLe y)).toInt32.toInt) :
    x = y := by
  have hlt : ∀ z : List UInt8, z.length = 4 → ofLe z < UInt32.size := fun z hz => by
    have hz' := ofLe_lt z
    rw [hz] at hz'
    exact hz'
  have hbits : UInt32.ofNat (ofLe x) = UInt32.ofNat (ofLe y) :=
    congrArg Int32.toUInt32 (Int32.toInt_inj.1 h)
  have hnat := congrArg UInt32.toNat hbits
  rw [UInt32.toNat_ofNat_of_lt' (hlt x hx), UInt32.toNat_ofNat_of_lt' (hlt y hy)] at hnat
  exact ofLe_inj (hx.trans hy.symm) hnat

/-- A string of a key, which has no NUL of its own. -/
theorem clearNul_partBytes {n : Nat} {v : DataValue} (hv : v.type = .string) :
    clearNul (partBytes n v) = partBytes n v := by
  cases v with
  | string s =>
    exact clearNul_padTo (fun hmem => s.nonzero (List.mem_of_mem_take hmem))
      (List.length_take_le _ _)
  | _ => cases hv

theorem partBytes_of_partCmp {part : IndexPart} {v w : DataValue} (hv : PartTyped part v)
    (hw : PartTyped part w) (hfloat : part.partCompare ≠ .compareFloatKeys)
    {x y : List UInt8} (hint : part.partCompare = .compareIntKeys →
      4 ≤ part.partLen + x.length ∧ 4 ≤ part.partLen + y.length)
    (h : partCmp part (partBytes part.partLen v ++ x) (partBytes part.partLen w ++ y) = 0) :
    partBytes part.partLen v = partBytes part.partLen w := by
  have hlenv := length_partBytes part.partLen v
  have hlenw := length_partBytes part.partLen w
  obtain ⟨hfit, hvtype⟩ := hv
  obtain ⟨-, hwtype⟩ := hw
  unfold partCmp at h
  cases hcompare : part.partCompare with
  | compareIntKeys =>
    rw [hcompare] at h hvtype
    obtain ⟨hx, hy⟩ := hint hcompare
    have hfour : part.partLen ≤ 4 := by
      cases v with
      | int _ => exact hfit
      | _ => cases hvtype
    have htake := int_inj (by rw [List.length_take, List.length_append]; omega)
      (by rw [List.length_take, List.length_append]; omega) (threeWay_eq_zero.1 h)
    -- the four bytes begin with those of the part
    have hprefix := congrArg (List.take part.partLen) htake
    rwa [List.take_take, List.take_take, Nat.min_eq_left hfour, List.take_left' hlenv,
      List.take_left' hlenw] at hprefix
  | compareStringKeys =>
    rw [hcompare] at h hvtype hwtype
    simp only [List.take_left' hlenv, List.take_left' hlenw] at h
    have hclear : clearNul (partBytes part.partLen v) = clearNul (partBytes part.partLen w) := by
      rw [strncmp_eq (hlenv.trans hlenw.symm)] at h
      refine (memcmp_eq_zero ?_).1 h
      rw [length_clearNul, length_clearNul, hlenv, hlenw]
    rwa [clearNul_partBytes hvtype, clearNul_partBytes hwtype] at hclear
  | compareBinaryKeys =>
    rw [hcompare] at h
    simp only [List.take_left' hlenv, List.take_left' hlenw] at h
    exact (memcmp_eq_zero (hlenv.trans hlenw.symm)).1 h
  | compareFloatKeys => exact absurd hcompare hfloat

theorem keyPieces_cons (part : IndexPart) (parts : List IndexPart) (v : DataValue)
    (vs : DataRow) :
    keyPieces (part :: parts) (v :: vs) = partBytes part.partLen v ++ keyPieces parts vs := rfl

/-- Keys that compare equal are the same bytes. -/
theorem lexParts_eq_zero {parts : List IndexPart} {vs ws : DataRow}
    (hvs : List.Forall₂ PartTyped parts vs) (hws : List.Forall₂ PartTyped parts ws)
    (hfloat : ∀ part ∈ parts, part.partCompare ≠ .compareFloatKeys)
    (hinside : IntPartsInside parts)
    (h : lexParts parts (keyPieces parts vs) (keyPieces parts ws) = 0) :
    keyPieces parts vs = keyPieces parts ws := by
  induction hvs generalizing ws with
  | nil =>
    cases hws
    rfl
  | @cons part v parts vs hv hvs ih =>
    obtain _ | ⟨hw, hws⟩ := hws
    rename_i w ws
    obtain ⟨hint, hinside⟩ := hinside
    obtain ⟨hfloat₁, hfloat⟩ := List.forall_mem_cons.1 hfloat
    rw [keyPieces_cons, keyPieces_cons] at h ⊢
    rw [lexParts] at h
    have hzero : partCmp part (partBytes part.partLen v ++ keyPieces parts vs)
        (partBytes part.partLen w ++ keyPieces parts ws) = 0 := by
      by_contra hne
      rw [if_pos hne] at h
      exact hne h
    rw [if_neg (not_not.2 hzero), List.drop_left' (length_partBytes _ v),
      List.drop_left' (length_partBytes _ w)] at h
    have hhead := partBytes_of_partCmp hv hw hfloat₁ (fun hcompare => by
      have hfour := hint hcompare
      rw [List.map_cons, List.sum_cons] at hfour
      rw [length_keyPieces hvs.length_eq, length_keyPieces hws.length_eq]
      omega) hzero
    rw [hhead, ih hws hfloat hinside h]

/-! ## The keys of an index -/

theorem exists_rowOfTypes (columns : List Column) : ∃ row, RowOfTypes columns row := by
  induction columns with
  | nil => exact ⟨[], .nil⟩
  | cons column columns ih =>
    obtain ⟨row, hrow⟩ := ih
    have hvalue : ∃ v : DataValue, v.type = column.resolvedType.typeInfo.valueType := by
      obtain ⟨columnType, byteLen, name⟩ := column.resolvedType
      cases columnType with
      | int => exact ⟨.int 0, rfl⟩
      | varchar => exact ⟨.string (.copy []), rfl⟩
      | char => exact ⟨.string (.copy []), rfl⟩
      | binary => exact ⟨.binary ⟨[], Nat.zero_le _⟩, rfl⟩
      | float => exact ⟨.float 0, rfl⟩
    obtain ⟨v, hv⟩ := hvalue
    exact ⟨v :: row, .cons hv hrow⟩

section Index

variable {schema : TableSchema} {indexMeta : IndexMeta} {stmt : CreateIndexStmt}
  {indexDef : IndexDefinition}

/-- The values that a row gives to an index are those that its comparisons are for. -/
theorem indexValues_typed (hplan : planCreateIndex schema indexMeta stmt = .ok indexDef)
    (hcolumns : ∀ c ∈ schema.columns, c.resolvedType.Sound) {row : DataRow}
    (hrow : RowOfTypes schema.columns row) :
    List.Forall₂ PartTyped indexDef.parts (indexValues indexDef.parts row) := by
  refine List.forall₂_map_right_iff.2 (List.forall₂_same.2 fun part hpart => ?_)
  obtain ⟨column, hcolumn, hlen, hcompare⟩ := planCreateIndex_parts hplan part hpart
  obtain ⟨v, hv, htype⟩ := hrow.getElem hcolumn
  have hget : row.getD part.columnPos .null = v := by
    rw [List.getD_eq_getElem?_getD, hv]
    rfl
  rw [hget]
  refine ⟨partFits_of_type (hcolumns column (List.mem_of_getElem? hcolumn)) hlen htype, ?_⟩
  rw [htype, hcompare, valueType_compare]

theorem compareFloat_unused (hplan : planCreateIndex schema indexMeta stmt = .ok indexDef)
    (hkinds : ∀ part ∈ indexDef.parts, ∀ column, schema.columns[part.columnPos]? = some column →
      column.resolvedType.columnType ≠ .float) :
    ∀ part ∈ indexDef.parts, part.partCompare ≠ .compareFloatKeys := by
  intro part hpart hfloat
  obtain ⟨column, hcolumn, -, hcompare⟩ := planCreateIndex_parts hplan part hpart
  rw [hcompare, ResolvedType.typeInfo] at hfloat
  cases htype : column.resolvedType.columnType with
  | float => exact hkinds part hpart column hcolumn htype
  | _ =>
    rw [htype] at hfloat
    cases hfloat

/-- A key has the bytes of the parts and nothing else. -/
theorem IsKey.bytes [UnionMemory] (hplan : planCreateIndex schema indexMeta stmt = .ok indexDef)
    (hcolumns : ∀ c ∈ schema.columns, c.resolvedType.Sound) {key : Key}
    (hkey : IsKey schema indexDef key) : ∃ values,
      List.Forall₂ PartTyped indexDef.parts values ∧ key = keyPieces indexDef.parts values ∧
      key.length = (indexDef.parts.map (·.partLen)).sum := by
  obtain ⟨row, hrow, hrun⟩ := hkey
  have hkeyBytes := rowKey_eq (planCreateIndex_valid hplan) hcolumns hrow
  obtain rfl := Except.ok.inj (hrun.symm.trans hkeyBytes)
  have htyped := indexValues_typed hplan hcolumns hrow
  exact ⟨_, htyped, rfl, length_keyPieces htyped.length_eq⟩

/-- The keys of an index over `int`, `varchar`, `char` and `binary` columns are totally ordered,
and told apart by their bytes alone, exactly if no `int` part is read past the end of the key. -/
theorem keys_ordered_iff [UnionMemory]
    (hplan : planCreateIndex schema indexMeta stmt = .ok indexDef)
    (hcolumns : ∀ c ∈ schema.columns, ∃ typeName hasLen len,
      resolveType typeName hasLen len = .ok c.resolvedType)
    (hkinds : ∀ part ∈ indexDef.parts, ∀ column, schema.columns[part.columnPos]? = some column →
      column.resolvedType.columnType ≠ .float) :
    OrdersKeys schema indexDef ↔ IntPartsInside indexDef.parts := by
  have hsound : ∀ c ∈ schema.columns, c.resolvedType.Sound := fun c hc => by
    obtain ⟨_, _, _, hresolve⟩ := hcolumns c hc
    exact resolveType_sound hresolve
  have hfloat := compareFloat_unused hplan hkinds
  constructor
  · rintro ⟨cmp, hcmp, -⟩
    obtain ⟨row, hrow⟩ := exists_rowOfTypes schema.columns
    have hkey : IsKey schema indexDef (keyBytes indexDef row) :=
      ⟨row, hrow, rowKey_eq (planCreateIndex_valid hplan) hsound hrow⟩
    obtain ⟨_, _, _, hlen⟩ := hkey.bytes hplan hsound
    have hself := hcmp ⟨_, hkey⟩ ⟨_, hkey⟩ [] []
    rw [List.append_nil] at hself
    exact inside_of_compare_self (hlen.trans (Nat.zero_add _).symm) hself
  · intro hinside
    refine ⟨fun a b => lexParts indexDef.parts a.1 b.1, fun a b behind behind' => ?_, ?_⟩
    · obtain ⟨_, _, _, ha⟩ := a.2.bytes hplan hsound
      obtain ⟨_, _, _, hb⟩ := b.2.bytes hplan hsound
      exact compoundCompare_eq (ha.trans (Nat.zero_add _).symm)
        (hb.trans (Nat.zero_add _).symm) hfloat hinside behind behind'
    · have horder := preCmp_lexParts hfloat (Nat.le_refl (indexDef.parts.map (·.partLen)).sum)
      have hkeys := horder.on fun a : { key // IsKey schema indexDef key } =>
        (⟨a.1, by
          obtain ⟨_, _, _, ha⟩ := a.2.bytes hplan hsound
          exact ha⟩ : Fixed (indexDef.parts.map (·.partLen)).sum)
      refine hkeys.total ?_
      intro a b hzero
      obtain ⟨vs, hvs, ha, -⟩ := a.2.bytes hplan hsound
      obtain ⟨ws, hws, hb, -⟩ := b.2.bytes hplan hsound
      refine Subtype.ext ?_
      rw [ha, hb]
      refine lexParts_eq_zero hvs hws hfloat hinside ?_
      rw [← ha, ← hb]
      exact hzero

end Index

open ClearedMemory

/-- A table with an `int` and a `varchar(20)` column. -/
def shopTable : TableSchema where
  tableName := text "t"
  columns := [
    ⟨text "a", ⟨.int, 4, text "int"⟩, false, .null⟩,
    ⟨text "b", ⟨.varchar, 20, text "varchar(20)"⟩, false, .null⟩]

/-- `create unique index i on t (...)` -/
def shopIndexStmt (keyParts : List IndexKeyPart) : CreateIndexStmt where
  isUnique := true
  name := text "i"
  type := []
  table := text "t"
  keyParts := keyParts

def shopIndex (parts : List IndexPart) : IndexDefinition where
  name := text "i"
  type := .btree
  nodeSize := 4096
  keySize := (parts.map (·.partLen)).sum
  isUnique := true
  parts := parts

/-- One byte of the `int` column. -/
def firstByte : IndexPart := ⟨text "a", 0, 1, .int, .compareIntKeys⟩

def wholeText : IndexPart := ⟨text "b", 1, 20, .string, .compareStringKeys⟩

/-- The bytes of the text are behind the one of the number. -/
theorem keys_ordered_iff_bothColumns : OrdersKeys shopTable (shopIndex [firstByte, wholeText]) ↔
    IntPartsInside [firstByte, wholeText] := by
  have hplan : planCreateIndex shopTable []
      (shopIndexStmt [⟨text "a", text "1", true⟩, ⟨text "b", [], false⟩])
        = .ok (shopIndex [firstByte, wholeText]) := by decide +kernel
  refine keys_ordered_iff hplan ?_ ?_
  · intro c hc
    simp only [shopTable, List.mem_cons, List.not_mem_nil, or_false] at hc
    obtain rfl | rfl := hc
    · exact ⟨text "int", false, 0, by decide⟩
    · exact ⟨text "varchar", true, 20, by decide⟩
  · intro part hpart column hcolumn
    simp only [shopIndex, List.mem_cons, List.not_mem_nil, or_false] at hpart
    obtain rfl | rfl := hpart
    · obtain rfl := Option.some.inj hcolumn
      decide
    · obtain rfl := Option.some.inj hcolumn
      decide

/-- An index over one byte of an `int` column: what is behind the key decides. -/
theorem compoundCompare_readsBehind :
    planCreateIndex shopTable [] (shopIndexStmt [⟨text "a", text "1", true⟩])
      = .ok (shopIndex [firstByte]) ∧
    IsKey shopTable (shopIndex [firstByte]) [5] ∧
    compoundCompare (shopIndex [firstByte]) [5] [5] = .error .outOfBounds ∧
    compoundCompare (shopIndex [firstByte]) ([5] ++ [0, 0, 0]) ([5] ++ [1, 0, 0]) = .ok (-1) ∧
    ¬OrdersKeys shopTable (shopIndex [firstByte]) := by
  have hkey : IsKey shopTable (shopIndex [firstByte]) [5] :=
    ⟨[.int 5, .string (.copy [])], .cons rfl (.cons rfl .nil), by decide +kernel⟩
  have halone : compoundCompare (shopIndex [firstByte]) [5] [5] = .error .outOfBounds := by
    decide +kernel
  refine ⟨by decide +kernel, hkey, halone, by decide +kernel, ?_⟩
  rintro ⟨cmp, hcmp, -⟩
  have hself := hcmp ⟨_, hkey⟩ ⟨_, hkey⟩ [] []
  rw [List.append_nil, halone] at hself
  cases hself

end Maxql
