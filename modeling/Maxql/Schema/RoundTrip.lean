import Maxql.Schema.Planned

/-!
# From a table to its schema file and back

A table that CREATE TABLE and CREATE INDEX have made is written by
`schema_save_table` and read by `schema_load_table`.  It comes back as it was
exactly if its column names have lower-case letters and underscores only and
its `float` defaults are printed as numbers with a dot that give the same
bits again.

* `lexerTokens_savedColumn`, `lexerTokens_savedIndexes`: the tokens of the file;
* `plainFloats_of_until`: a default that is not printed as a number is not read;
* `resolveSchema_saved`: the definitions in the file give the table;
* `schemaFile_roundTrips_iff`: the round trip.
-/

namespace Maxql

open Program Bytes

/-! ## The definitions in the file -/

def savedType (rt : ResolvedType) : ColumnTypeDef where
  name := rt.typeInfo.typeName
  len := if rt.typeInfo.expectsLen then Decimal.print rt.byteLen else []
  hasLen := rt.typeInfo.expectsLen

def savedColumnDef (printFloat : FloatFormat) (col : Column) : ColumnDef where
  column := col.columnName
  type := savedType col.resolvedType
  hasDefault := col.hasDefault
  defaultValue := literalValue printFloat col.defaultValue

def savedKeyPart (part : IndexPart) : IndexKeyPart where
  column := part.column
  keyLen := Decimal.print part.partLen
  hasKeyLen := true

def savedIndexDef (idx : IndexDefinition) : IndexDef where
  type := text "btree"
  isUnique := idx.isUnique
  name := idx.name
  keyParts := idx.parts.map savedKeyPart

theorem savedType_formed (rt : ResolvedType) : LenFormed (savedType rt).hasLen (savedType rt).len :=
  fun h => if_neg (by rw [show rt.typeInfo.expectsLen = false from h]; exact Bool.false_ne_true)

theorem PlannedColumn.formed {col : Column} (h : PlannedColumn col) (printFloat : FloatFormat) :
    (savedColumnDef printFloat col).Formed := by
  refine ⟨savedType_formed _, fun hdefault => ?_⟩
  show literalValue printFloat col.defaultValue = noValue
  rw [h.noDefault hdefault]
  rfl

theorem PlannedIndex.formed {schema : TableSchema} {idx : IndexDefinition}
    (h : PlannedIndex schema idx) : (savedIndexDef idx).Formed := by
  refine ⟨fun hunique => ?_, ?_, ?_⟩
  · have hfalse : idx.isUnique = false := hunique
    rw [h.unique] at hfalse
    cases hfalse
  · exact fun hnil => h.someParts (List.map_eq_nil_iff.1 hnil)
  · intro kp hkp
    obtain ⟨part, -, rfl⟩ := List.mem_map.1 hkp
    exact nofun

/-! ## The tokens of the file -/

theorem lexerTokens_type {rt : ResolvedType} (hname : rt.resolvedTypeName = typeText rt)
    {rest : Text} (hrest : Delimited rest) :
    lexerTokens (rt.resolvedTypeName ++ rest) = (savedType rt).tokens ++ lexerTokens rest := by
  have hident := (typeName_text rt.columnType).1
  have hident : isIdentifier rt.typeInfo.typeName = true := hident
  rw [hname, typeText, ColumnTypeDef.tokens, savedType]
  dsimp only
  rw [List.append_assoc]
  cases rt.typeInfo.expectsLen with
  | false => exact hrest.ident hident
  | true =>
    have htokens : lexerTokens (rt.typeInfo.typeName ++
        (40 :: (Decimal.print rt.byteLen ++ (41 :: rest))))
        = identToken rt.typeInfo.typeName :: lparen :: numberToken (Decimal.print rt.byteLen)
          :: rparen :: lexerTokens rest := by
      rw [(delimited_cons rfl _).ident hident, lexerTokens_lparen,
        (delimited_cons rfl _).number (isNumber_print _), lexerTokens_rparen]
    simpa [text, lenTokens] using htokens

/-- The tokens of a column up to its literal. -/
theorem lexerTokens_savedColumn {printFloat : FloatFormat} {col : Column} (h : PlannedColumn col)
    (rest : Text) :
    lexerTokens (savedColumn printFloat col ++ rest)
      = identToken col.columnName :: ((savedType col.resolvedType).tokens ++
        if col.hasDefault then identToken (text "default") ::
          lexerTokens (literalText printFloat col.defaultValue ++ 44 :: 10 :: rest)
        else comma :: lexerTokens rest) := by
  obtain ⟨typeName, hasLen, len, hresolve⟩ := h.type
  have hname := (resolveType_spec hresolve).1
  have hdefault : isIdentifier (text "default") = true := by decide
  have hend : lexerTokens (44 :: 10 :: rest) = comma :: lexerTokens rest := by
    rw [lexerTokens_comma, lexerTokens_newline]
  have hline : ∀ more, Delimited more →
      lexerTokens (32 :: 32 :: 32 :: 32 :: (col.columnName ++ 32 ::
        (col.resolvedType.resolvedTypeName ++ more)))
      = identToken col.columnName :: ((savedType col.resolvedType).tokens ++ lexerTokens more) := by
    intro more hmore
    rw [lexerTokens_space, lexerTokens_space, lexerTokens_space, lexerTokens_space,
      (delimited_cons rfl _).ident h.name, lexerTokens_space, lexerTokens_type hname hmore]
  cases hhas : col.hasDefault with
  | false =>
    have htext : savedColumn printFloat col ++ rest = 32 :: 32 :: 32 :: 32 ::
        (col.columnName ++ 32 :: (col.resolvedType.resolvedTypeName ++ 44 :: 10 :: rest)) := by
      simp [savedColumn, hhas, text]
    rw [htext, hline _ (delimited_cons rfl _), hend]
    rfl
  | true =>
    have htext : savedColumn printFloat col ++ rest = 32 :: 32 :: 32 :: 32 ::
        (col.columnName ++ 32 :: (col.resolvedType.resolvedTypeName ++ 32 :: (text "default" ++
          32 :: (literalText printFloat col.defaultValue ++ 44 :: 10 :: rest)))) := by
      simp [savedColumn, hhas, text]
    rw [htext, hline _ (delimited_cons rfl _), lexerTokens_space,
      (delimited_cons rfl _).ident hdefault, lexerTokens_space]
    rfl

/-- The tokens of a column whose literal is one token. -/
theorem lexerTokens_plainColumn {printFloat : FloatFormat} {col : Column} (h : PlannedColumn col)
    (hplain : PlainFloat printFloat col.defaultValue) (rest : Text) :
    lexerTokens (savedColumn printFloat col ++ rest)
      = (savedColumnDef printFloat col).tokens ++ comma :: lexerTokens rest := by
  rw [lexerTokens_savedColumn h, ColumnDef.tokens, savedColumnDef]
  dsimp only
  split
  case isTrue hdefault =>
    rw [lexerTokens_literal (h.default hdefault) hplain (delimited_cons rfl _), lexerTokens_comma,
      lexerTokens_newline]
    simp
  case isFalse => simp

theorem lexerTokens_plainColumns {printFloat : FloatFormat} {cols : List Column}
    (h : ∀ col ∈ cols, PlannedColumn col)
    (hplain : ∀ col ∈ cols, PlainFloat printFloat col.defaultValue) (rest : Text) :
    lexerTokens (cols.flatMap (savedColumn printFloat) ++ rest)
      = (cols.map (savedColumnDef printFloat)).flatMap (fun d => d.tokens ++ [comma])
        ++ lexerTokens rest := by
  induction cols with
  | nil => rfl
  | cons col cols ih =>
    obtain ⟨hcol, h⟩ := List.forall_mem_cons.1 h
    obtain ⟨hcolPlain, hplain⟩ := List.forall_mem_cons.1 hplain
    rw [List.flatMap_cons, List.append_assoc, lexerTokens_plainColumn hcol hcolPlain, ih h hplain]
    simp

/-- The tokens of the key parts in front of the closing parenthesis. -/
theorem lexerTokens_savedParts {parts : List IndexPart}
    (hnames : ∀ part ∈ parts, isIdentifier part.column = true) (rest : Text) :
    lexerTokens (joinParts (parts.map savedPart) ++ 41 :: rest)
      = Grammar.separated comma IndexKeyPart.tokens (parts.map savedKeyPart)
        ++ rparen :: lexerTokens rest := by
  have hpart : ∀ part : IndexPart, isIdentifier part.column = true → ∀ more,
      lexerTokens (savedPart part ++ more) = (savedKeyPart part).tokens ++ lexerTokens more := by
    intro part hname more
    have htext : savedPart part ++ more
        = part.column ++ 40 :: (Decimal.print part.partLen ++ 41 :: more) := by
      simp [savedPart, text]
    rw [htext, (delimited_cons rfl _).ident hname, lexerTokens_lparen,
      (delimited_cons rfl _).number (isNumber_print _), lexerTokens_rparen]
    rfl
  induction parts with
  | nil => exact lexerTokens_rparen rest
  | cons part parts ih =>
    obtain ⟨hname, hnames⟩ := List.forall_mem_cons.1 hnames
    cases parts with
    | nil =>
      rw [List.map_singleton, List.map_singleton, joinParts, Grammar.separated, hpart part hname,
        lexerTokens_rparen]
    | cons other parts =>
      have htext : joinParts ((part :: other :: parts).map savedPart) ++ 41 :: rest
          = savedPart part ++ 44 :: 32 :: (joinParts ((other :: parts).map savedPart)
            ++ 41 :: rest) := by
        simp [joinParts, text]
      rw [htext, hpart part hname, lexerTokens_comma, lexerTokens_space, ih hnames]
      simp [Grammar.separated]

theorem lexerTokens_savedIndexes {schema : TableSchema}
    (hcolumns : ∀ col ∈ schema.columns, PlannedColumn col) {indexMeta : IndexMeta}
    (h : ∀ idx ∈ indexMeta, PlannedIndex schema idx) (rest : Text) :
    lexerTokens (indexMeta.flatMap savedIndex ++ rest)
      = (indexMeta.map savedIndexDef).flatMap (fun d => d.tokens ++ [comma])
        ++ lexerTokens rest := by
  have hbtree : isIdentifier (text "btree") = true := by decide
  have hunique : isIdentifier (text "unique") = true := by decide
  induction indexMeta with
  | nil => rfl
  | cons idx indexMeta ih =>
    obtain ⟨hidx, h⟩ := List.forall_mem_cons.1 h
    have hnames : ∀ part ∈ idx.parts, isIdentifier part.column = true := by
      intro part hpart
      obtain ⟨col, -, hcol, hname, -⟩ := hidx.parts part hpart
      rw [← hname]
      exact (hcolumns col (List.mem_of_getElem? hcol)).name
    have htext : savedIndex idx ++ (indexMeta.flatMap savedIndex ++ rest)
        = 32 :: 32 :: 32 :: 32 :: (text "btree" ++ 32 :: (text "unique" ++ 32 :: (idx.name ++ 32 ::
          40 :: (joinParts (idx.parts.map savedPart) ++ 41 :: 44 :: 10 ::
            (indexMeta.flatMap savedIndex ++ rest))))) := by
      simp [savedIndex, hidx.unique, text]
    rw [List.flatMap_cons, List.append_assoc, htext, lexerTokens_space, lexerTokens_space,
      lexerTokens_space, lexerTokens_space, (delimited_cons rfl _).ident hbtree, lexerTokens_space,
      (delimited_cons rfl _).ident hunique, lexerTokens_space,
      (delimited_cons rfl _).ident hidx.name, lexerTokens_space, lexerTokens_lparen,
      lexerTokens_savedParts hnames, lexerTokens_comma, lexerTokens_newline, ih h]
    simp [savedIndexDef, IndexDef.tokens, hidx.unique]

/-- The file around the columns and the indexes. -/
theorem lexerTokens_savedText (printFloat : FloatFormat) (schema : TableSchema)
    (indexMeta : IndexMeta) : ∃ columnsEnd indexesEnd : Text,
    lexerTokens (savedText printFloat schema indexMeta)
      = identToken (text "table") :: lparen :: identToken (text "columns") :: lparen ::
        lexerTokens (schema.columns.flatMap (savedColumn printFloat) ++ columnsEnd) ∧
    lexerTokens columnsEnd = rparen :: comma :: identToken (text "indexes") :: lparen ::
      lexerTokens (indexMeta.flatMap savedIndex ++ indexesEnd) ∧
    lexerTokens indexesEnd = [rparen, comma, rparen] := by
  have htable : isIdentifier (text "table") = true := by decide
  have hcolumns : isIdentifier (text "columns") = true := by decide
  have hindexes : isIdentifier (text "indexes") = true := by decide
  refine ⟨32 :: 32 :: 41 :: 44 :: 10 :: 32 :: 32 :: (text "indexes" ++ 32 :: 40 :: 10 ::
    (indexMeta.flatMap savedIndex ++ text "  ),\n)\n")), text "  ),\n)\n", ?_, ?_, ?_⟩
  · have htext : savedText printFloat schema indexMeta
        = text "table" ++ 32 :: 40 :: 10 :: 32 :: 32 :: (text "columns" ++ 32 :: 40 :: 10 ::
          (schema.columns.flatMap (savedColumn printFloat) ++ 32 :: 32 :: 41 :: 44 :: 10 :: 32 ::
            32 :: (text "indexes" ++ 32 :: 40 :: 10 :: (indexMeta.flatMap savedIndex
              ++ text "  ),\n)\n")))) := by
      simp [savedText, text]
    rw [htext, (delimited_cons rfl _).ident htable, lexerTokens_space, lexerTokens_lparen,
      lexerTokens_newline, lexerTokens_space, lexerTokens_space,
      (delimited_cons rfl _).ident hcolumns, lexerTokens_space, lexerTokens_lparen,
      lexerTokens_newline]
  · rw [lexerTokens_space, lexerTokens_space, lexerTokens_rparen, lexerTokens_comma,
      lexerTokens_newline, lexerTokens_space, lexerTokens_space,
      (delimited_cons rfl _).ident hindexes, lexerTokens_space, lexerTokens_lparen,
      lexerTokens_newline]
  · show lexerTokens (32 :: 32 :: 41 :: 44 :: 10 :: 41 :: 10 :: []) = _
    rw [lexerTokens_space, lexerTokens_space, lexerTokens_rparen, lexerTokens_comma,
      lexerTokens_newline, lexerTokens_rparen, lexerTokens_newline]
    rw [lexerTokens_eof rfl]

/-! ## What is read of the columns -/

/-- A name is no symbol. -/
theorem keyword_head_ne (name : Text) (ts : List Token) {t : Token} (ht : t.type ≠ .ident) :
    (identToken name :: ts).head? ≠ some t := by
  intro h
  rw [← Option.some.inj h] at ht
  exact ht rfl

/-- A definition is determined by the tokens in front of it. -/
theorem columnDef_split {d : ColumnDef} {type : ColumnTypeDef} (name : Text)
    {rest more : List Token} (hd : d.Formed) (hends : d.Ends rest)
    (htype : LenFormed type.hasLen type.len) (hmore : LenEnds type.hasLen more)
    (h : d.tokens ++ rest = identToken name :: (type.tokens ++ more)) :
    d.column = name ∧ d.type = type ∧
      more = (if d.hasDefault then [identToken (text "default"), d.defaultValue.token] else [])
        ++ rest := by
  obtain ⟨column, ⟨typeName, len, hasLen⟩, hasDefault, defaultValue⟩ := d
  obtain ⟨typeName', len', hasLen'⟩ := type
  have hformed : LenFormed hasLen len := hd.type
  simp only [ColumnDef.tokens, ColumnTypeDef.tokens, List.cons_append, List.append_assoc] at h
  obtain ⟨hcolumn, htokens⟩ := List.cons.inj h
  obtain ⟨hname, hlens⟩ := List.cons.inj htokens
  cases hcolumn
  cases hname
  clear h htokens
  cases hasLen with
  | true =>
    cases hasLen' with
    | true =>
      obtain ⟨-, hlens⟩ := List.cons.inj hlens
      obtain ⟨hlen, hrparen⟩ := List.cons.inj hlens
      obtain ⟨-, hrest⟩ := List.cons.inj hrparen
      cases hlen
      exact ⟨rfl, rfl, hrest.symm⟩
    | false =>
      have hhead := hmore rfl
      have hlparen : more = _ := hlens.symm
      rw [hlparen] at hhead
      exact absurd rfl hhead
  | false =>
    cases hformed rfl
    cases hasLen' with
    | true =>
      cases hasDefault with
      | true =>
        obtain ⟨hlparen, -⟩ := List.cons.inj hlens
        cases hlparen
      | false =>
        have hhead := (hends rfl).1 rfl
        have hlparen : rest = _ := hlens
        rw [hlparen] at hhead
        exact absurd rfl hhead
    | false =>
      cases htype rfl
      exact ⟨rfl, rfl, hlens.symm⟩

theorem RawValue.token_injective {a b : RawValue} (h : a.token = b.token) : a = b := by
  obtain ⟨type, value⟩ := a
  obtain ⟨type', value'⟩ := b
  obtain ⟨htype, hvalue⟩ := Token.mk.inj h
  cases LiteralType.tokenType_injective htype
  exact congrArg (RawValue.mk type) hvalue

/-- In front of a literal that is one token the definition is read as it was written. -/
theorem plainColumn_read {printFloat : FloatFormat} {col : Column} (h : PlannedColumn col)
    {d : ColumnDef} {rest mid : List Token}
    (hread : columnDefGrammar ((savedColumnDef printFloat col).tokens ++ comma :: rest) d mid) :
    d = savedColumnDef printFloat col ∧ mid = comma :: rest := by
  obtain ⟨htokens, hd, hends⟩ := hread
  have hformed := h.formed printFloat
  obtain ⟨column, type, hasDefault, defaultValue⟩ := d
  have hlen : LenEnds (savedType col.resolvedType).hasLen
      ((if col.hasDefault then [identToken (text "default"),
        (literalValue printFloat col.defaultValue).token] else []) ++ comma :: rest) := by
    intro _
    cases col.hasDefault <;> exact nofun
  obtain ⟨rfl, rfl, hmore⟩ := columnDef_split col.columnName hd hends
    (savedType_formed col.resolvedType) hlen (by
      rw [← htokens, ColumnDef.tokens, savedColumnDef, List.cons_append, List.append_assoc])
  cases hhas : col.hasDefault with
  | true =>
    rw [hhas] at hmore
    cases hasDefault with
    | true =>
      obtain ⟨-, hmore⟩ := List.cons.inj hmore
      obtain ⟨htoken, hmid⟩ := List.cons.inj hmore
      have hvalue : literalValue printFloat col.defaultValue = defaultValue :=
        RawValue.token_injective htoken
      exact ⟨by rw [savedColumnDef, hhas, hvalue], hmid.symm⟩
    | false =>
      have hhead := (hends rfl).2
      have hmid : mid = _ := hmore.symm
      rw [hmid] at hhead
      exact absurd rfl hhead
  | false =>
    rw [hhas] at hmore
    cases hasDefault with
    | true =>
      obtain ⟨hcomma, -⟩ := List.cons.inj hmore
      cases hcomma
    | false =>
      have hvalue : defaultValue = noValue := hd.noDefault rfl
      have hsaved := hformed.noDefault hhas
      have hsaved : literalValue printFloat col.defaultValue = noValue := hsaved
      exact ⟨by rw [savedColumnDef, hhas, hvalue, hsaved], hmore.symm⟩

/-- In front of a broken literal nothing is read, or what is left cannot be read. -/
theorem brokenColumn_not_read {name : Text} {type : ColumnTypeDef}
    (htype : LenFormed type.hasLen type.len) {broken : List Token} (hbroken : BrokenLiteral broken)
    {defs : List ColumnDef} {rest : List Token}
    (h : Grammar.Until rparen comma columnDefGrammar
      (identToken name :: (type.tokens ++ identToken (text "default") :: broken)) defs rest) :
    False := by
  cases h with
  | done hstop => cases hstop
  | @more _ d mid b mid' _ _ _ hitem hsep hrest =>
    obtain ⟨htokens, hd, hends⟩ := hitem
    obtain ⟨-, -, hmore⟩ := columnDef_split name hd hends htype
      (fun _ => keyword_head_ne _ _ (by decide)) htokens.symm
    cases hhas : d.hasDefault with
    | false =>
      have hhead := (hends hhas).2
      rw [hhas] at hmore
      rw [show mid = _ from hmore.symm] at hhead
      exact absurd rfl hhead
    | true =>
      rw [hhas] at hmore
      obtain ⟨-, hmore⟩ := List.cons.inj hmore
      cases hbroken with
      | noLiteral ht =>
        obtain ⟨htoken, -⟩ := List.cons.inj hmore
        refine ht d.defaultValue.type ?_
        rw [htoken]
        rfl
      | @exponent m e t ts ht =>
        obtain ⟨-, hmid⟩ := List.cons.inj hmore
        have hmid : mid = identToken e :: t :: ts := hmid.symm
        subst hmid
        obtain ⟨-, hcomma⟩ | ⟨-, -, rfl⟩ := hsep
        · obtain ⟨hcomma, -⟩ := List.cons.inj hcomma
          cases hcomma
        · cases hrest with
          | done hstop => cases hstop
          | more _ hitem =>
            obtain ⟨htokens, -, -⟩ := hitem
            obtain ⟨-, htokens⟩ := List.cons.inj htokens
            obtain ⟨htoken, -⟩ := List.cons.inj htokens
            rw [htoken] at ht
            cases ht

/-- Where all columns are read their literals are single tokens. -/
theorem plainFloats_of_until {printFloat : FloatFormat} (hfloats : PrintsFloats printFloat)
    {cols : List Column} (h : ∀ col ∈ cols, PlannedColumn col) {tail : Text}
    (htail : (lexerTokens tail).head? = some rparen) {defs : List ColumnDef} {rest : List Token}
    (hread : Grammar.Until rparen comma columnDefGrammar
      (lexerTokens (cols.flatMap (savedColumn printFloat) ++ tail)) defs rest) :
    (∀ col ∈ cols, PlainFloat printFloat col.defaultValue) ∧
      defs = cols.map (savedColumnDef printFloat) := by
  induction cols generalizing defs with
  | nil =>
    cases hread with
    | done => exact ⟨nofun, rfl⟩
    | more hgo => exact absurd htail hgo
  | cons col cols ih =>
    obtain ⟨hcol, h⟩ := List.forall_mem_cons.1 h
    rw [List.flatMap_cons, List.append_assoc] at hread
    by_cases hplain : PlainFloat printFloat col.defaultValue
    · rw [lexerTokens_plainColumn hcol hplain] at hread
      cases hread with
      | done hstop => cases hstop
      | more _ hitem hsep hrest =>
        obtain ⟨rfl, rfl⟩ := plainColumn_read hcol hitem
        obtain ⟨-, hmid⟩ | ⟨-, hhead, -⟩ := hsep
        · obtain ⟨-, rfl⟩ := List.cons.inj hmid
          obtain ⟨hplains, rfl⟩ := ih h hrest
          exact ⟨List.forall_mem_cons.2 ⟨hplain, hplains⟩, rfl⟩
        · exact absurd rfl hhead
    · exfalso
      obtain ⟨bits, hbits, hnumber⟩ : ∃ bits, col.defaultValue = .float bits ∧
          ¬isNumber (printFloat bits) = true := by
        simpa [PlainFloat] using hplain
      have hdefault : col.hasDefault = true := by
        by_contra hno
        rw [hcol.noDefault (by simpa using hno)] at hbits
        cases hbits
      rw [lexerTokens_savedColumn hcol, if_pos hdefault, hbits] at hread
      exact brokenColumn_not_read (savedType_formed _)
        (brokenLiteral_of_float (hfloats.form bits) hnumber (delimited_cons rfl _)) hread

/-! ## The table that the definitions give -/

/-- The default of a column is given back. -/
def FloatBack (strtof : Strtof) (printFloat : FloatFormat) (v : DataValue) : Prop :=
  ∀ bits, v = .float bits → convertNumber strtof (printFloat bits) = .ok (.float bits)

theorem loadTypeLength_saved {rt : ResolvedType} (hle : rt.byteLen ≤ 255) (columnName : Text) :
    ∃ len, loadTypeLength columnName (savedType rt) = .ok len ∧
      (rt.typeInfo.expectsLen = true → len = rt.byteLen) := by
  unfold loadTypeLength savedType
  dsimp only
  cases rt.typeInfo.expectsLen with
  | false => exact ⟨0, rfl, nofun⟩
  | true =>
    have hlen := toInt_ofInt_of_le (n := rt.byteLen) (by omega)
    rw [if_neg (by simp), if_pos rfl, convertInt_print (by omega)]
    dsimp only
    rw [hlen, if_neg (by omega)]
    exact ⟨_, rfl, fun _ => rfl⟩

theorem loadColumn_saved {strtof : Strtof} {printFloat : FloatFormat} {col : Column}
    (h : PlannedColumn col) (hname : LoadableName col.columnName)
    (hback : FloatBack strtof printFloat col.defaultValue) (tableName : Text) :
    loadColumn strtof tableName (savedColumnDef printFloat col) = .ok col := by
  obtain ⟨typeName, hasLen, len, hresolve⟩ := h.type
  obtain ⟨-, hagain⟩ := resolveType_spec hresolve
  have hcolumn : svToCstr col.columnName (maxColumnNameSize + 1) = col.columnName :=
    svToCstr_eq (isIdentifier_zero_not_mem h.name) h.fits
  obtain ⟨hident, hshort⟩ := typeName_text col.resolvedType.columnType
  have htypeName : svToCstr col.resolvedType.typeInfo.typeName (maxTypeNameSize + 1)
      = col.resolvedType.typeInfo.typeName :=
    svToCstr_eq (isIdentifier_zero_not_mem hident) (Nat.le_trans hshort (by decide))
  obtain ⟨len', hlen, hbyteLen⟩ := loadTypeLength_saved (resolveType_sound hresolve).byteLen_le
    col.columnName
  have hdefault : loadDefault strtof col.columnName (savedColumnDef printFloat col)
      = .ok col.defaultValue := by
    unfold loadDefault savedColumnDef
    dsimp only
    cases hhas : col.hasDefault with
    | false => rw [h.noDefault hhas]; rfl
    | true => rw [if_neg (by simp), convertValue_literal (h.default hhas) hback]
  have hcheck := (schemaValidateColumnName_eq_ok h.fits (u := ())).2 hname
  unfold loadColumn
  dsimp only
  rw [show (savedColumnDef printFloat col).column = col.columnName from rfl, hcolumn, hcheck,
    show (savedColumnDef printFloat col).type = savedType col.resolvedType from rfl, hlen,
    show (savedType col.resolvedType).name = col.resolvedType.typeInfo.typeName from rfl, htypeName,
    show (savedType col.resolvedType).hasLen = col.resolvedType.typeInfo.expectsLen from rfl]
  dsimp only [bind, Except.bind]
  rw [hagain len' hbyteLen]
  dsimp only
  rw [hdefault]
  rfl

theorem loadColumns_saved {strtof : Strtof} {printFloat : FloatFormat} {tableName : Text}
    {cols : List Column} (h : ∀ col ∈ cols, PlannedColumn col)
    (hnames : ∀ col ∈ cols, LoadableName col.columnName)
    (hback : ∀ col ∈ cols, FloatBack strtof printFloat col.defaultValue) {done : List Column}
    (hroom : done.length + cols.length ≤ maxColumnsPerTable) :
    loadColumns strtof tableName (cols.map (savedColumnDef printFloat)) done
      = .ok (done ++ cols) := by
  induction cols generalizing done with
  | nil => rw [List.append_nil]; rfl
  | cons col cols ih =>
    obtain ⟨hcol, h⟩ := List.forall_mem_cons.1 h
    obtain ⟨hname, hnames⟩ := List.forall_mem_cons.1 hnames
    obtain ⟨hcolBack, hback⟩ := List.forall_mem_cons.1 hback
    rw [List.length_cons] at hroom
    rw [List.map_cons, loadColumns, if_neg (by omega), loadColumn_saved hcol hname hcolBack]
    show loadColumns strtof tableName _ (done ++ [col]) = _
    rw [ih h hnames hback (by simp; omega)]
    simp

/-- The parts of a planned index, in the order of the loop. -/
theorem resolveKeyParts_saved {schema : TableSchema}
    (hcolumns : ∀ col ∈ schema.columns, PlannedColumn col) (hsound : SchemaSound schema)
    {parts : List IndexPart}
    (h : ∀ part ∈ parts, ∃ col, tableColumnPos schema part.column = some part.columnPos ∧
      schema.columns[part.columnPos]? = some col ∧ col.columnName = part.column ∧
      1 ≤ part.partLen ∧ part.partLen ≤ col.resolvedType.byteLen ∧
      part.partType = col.resolvedType.typeInfo.valueType ∧
      part.partCompare = col.resolvedType.typeInfo.compare)
    {idx : IndexDefinition} (hroom : idx.parts.length + parts.length ≤ maxIndexColumnCount) :
    resolveKeyParts schema (parts.map savedKeyPart) idx
      = .ok { idx with
          keySize := idx.keySize + (parts.map (·.partLen)).sum, parts := idx.parts ++ parts } := by
  induction parts generalizing idx with
  | nil => rw [List.append_nil]; rfl
  | cons part parts ih =>
    obtain ⟨⟨col, hpos, hcol, hname, hone, hle, htype, hcompare⟩, h⟩ := List.forall_mem_cons.1 h
    rw [List.length_cons] at hroom
    have hcolMem := List.mem_of_getElem? hcol
    have hplanned := hcolumns col hcolMem
    have hcolumn : svToCstr part.column (maxColumnNameSize + 1) = part.column := by
      rw [← hname]
      exact svToCstr_eq (isIdentifier_zero_not_mem hplanned.name) hplanned.fits
    have hbyteLen := (hsound.columns col hcolMem).byteLen_le
    have hlen : loadPartLength (savedKeyPart part) col.resolvedType.byteLen part.column
        = .ok part.partLen := by
      have hint := toInt_ofInt_of_le (n := part.partLen) (by omega)
      unfold loadPartLength savedKeyPart
      rw [if_neg (by simp), convertInt_print (by omega)]
      dsimp only
      rw [hint, if_neg (by omega)]
      rfl
    have hpart : resolveIndexPart idx part.column part.partLen schema
        = .ok { idx with keySize := idx.keySize + part.partLen, parts := idx.parts ++ [part] } := by
      rw [resolveIndexPart, findColumn_eq, hpos]
      dsimp only
      rw [columnAt_eq hcol, ← htype, ← hcompare]
    rw [List.map_cons, resolveKeyParts, if_neg (by omega)]
    dsimp only
    rw [show (savedKeyPart part).column = part.column from rfl, hcolumn, hpos]
    dsimp only
    rw [columnAt_eq hcol, hlen]
    show resolveIndexPart idx part.column part.partLen schema >>= _ = _
    rw [hpart]
    show resolveKeyParts schema (parts.map savedKeyPart) { idx with
      keySize := idx.keySize + part.partLen, parts := idx.parts ++ [part] } = _
    rw [ih h (by simp; omega)]
    simp [Nat.add_assoc]

theorem resolveIndex_saved {schema : TableSchema}
    (hcolumns : ∀ col ∈ schema.columns, PlannedColumn col) (hsound : SchemaSound schema)
    {idx : IndexDefinition} (h : PlannedIndex schema idx) :
    resolveIndex schema (savedIndexDef idx) = .ok idx := by
  have hname : svToCstr idx.name (maxIndexNameSize + 1) = idx.name :=
    svToCstr_eq (isIdentifier_zero_not_mem h.name) h.fits
  have hcount : ([] : List IndexPart).length + idx.parts.length ≤ maxIndexColumnCount := by
    rw [List.length_nil, Nat.zero_add]
    exact h.partCount
  have hregistry : indexVtableByName (svToCstr (text "btree") (maxIndexTypeNameSize + 1))
      = indexVtable .btree := by rfl
  unfold resolveIndex
  dsimp only
  rw [show (savedIndexDef idx).type = text "btree" from rfl, hregistry]
  show resolveKeyParts schema (idx.parts.map savedKeyPart) {
    name := svToCstr idx.name (maxIndexNameSize + 1), type := .btree
    nodeSize := btreeNodeDefaultSize, keySize := 0, isUnique := idx.isUnique, parts := [] } = _
  rw [resolveKeyParts_saved hcolumns hsound h.parts hcount, hname, ← h.type, ← h.nodeSize,
    Nat.zero_add, ← h.keySize, List.nil_append]

theorem indexResolve_saved {schema : TableSchema}
    (hcolumns : ∀ col ∈ schema.columns, PlannedColumn col) (hsound : SchemaSound schema)
    {indexMeta done : IndexMeta} (h : ∀ idx ∈ indexMeta, PlannedIndex schema idx)
    (hroom : done.length + indexMeta.length ≤ maxTableIndexCount) :
    indexResolve schema (indexMeta.map savedIndexDef) done = .ok (done ++ indexMeta) := by
  induction indexMeta generalizing done with
  | nil => rw [List.append_nil]; rfl
  | cons idx indexMeta ih =>
    obtain ⟨hidx, h⟩ := List.forall_mem_cons.1 h
    rw [List.length_cons] at hroom
    rw [List.map_cons, indexResolve, if_neg (by omega), resolveIndex_saved hcolumns hsound hidx]
    show indexResolve schema _ (done ++ [idx]) = _
    rw [ih h (by simp; omega)]
    simp

def savedResult (printFloat : FloatFormat) (schema : TableSchema) (indexMeta : IndexMeta) :
    SchemaParseResult where
  columnDefs := schema.columns.map (savedColumnDef printFloat)
  indexDefs := indexMeta.map savedIndexDef

theorem resolveSchema_saved {strtof : Strtof} {printFloat : FloatFormat} {schema : TableSchema}
    (h : PlannedTable schema) (hnames : ∀ col ∈ schema.columns, LoadableName col.columnName)
    (hback : ∀ col ∈ schema.columns, FloatBack strtof printFloat col.defaultValue)
    {indexMeta : IndexMeta} (hmeta : BuiltIndexes schema indexMeta) :
    resolveSchema strtof schema.tableName (savedResult printFloat schema indexMeta)
      = .ok (schema, indexMeta) := by
  obtain ⟨hindexes, hcount⟩ := hmeta.planned h.sound
  have hcolumns : loadColumns strtof schema.tableName
      (schema.columns.map (savedColumnDef printFloat)) [] = .ok schema.columns :=
    loadColumns_saved h.columns hnames hback (by simpa using h.sound.count)
  have hresolve : indexResolve schema (indexMeta.map savedIndexDef) [] = .ok indexMeta :=
    indexResolve_saved h.columns h.sound hindexes (by simpa using hcount)
  unfold resolveSchema savedResult
  dsimp only
  rw [hcolumns]
  show (indexResolve ⟨svToCstr schema.tableName (maxTableNameSize + 1), schema.columns⟩ _ [] >>= _)
    = _
  rw [h.tableName, hresolve]
  rfl

/-! ## The round trip -/

theorem PlannedTable.partName {schema : TableSchema} (h : PlannedTable schema)
    {idx : IndexDefinition} (hidx : PlannedIndex schema idx) {part : IndexPart}
    (hpart : part ∈ idx.parts) : isIdentifier part.column = true ∧
      part.column.length ≤ maxColumnNameSize ∧ part.partLen ≤ 255 := by
  obtain ⟨col, -, hcol, hname, -, hle, -⟩ := hidx.parts part hpart
  have hmem := List.mem_of_getElem? hcol
  have hbyteLen := (h.sound.columns col hmem).byteLen_le
  rw [← hname]
  exact ⟨(h.columns col hmem).name, (h.columns col hmem).fits, by omega⟩

theorem PlannedTable.writable {schema : TableSchema} (h : PlannedTable schema)
    {indexMeta : IndexMeta} (hindexes : ∀ idx ∈ indexMeta, PlannedIndex schema idx) :
    Writable schema indexMeta where
  defaults := h.sound.defaults
  types idx hidx := (hindexes idx hidx).type
  partNames idx hidx part hpart :=
    ⟨(h.partName (hindexes idx hidx) hpart).2.1,
      isIdentifier_zero_not_mem (h.partName (hindexes idx hidx) hpart).1⟩
  partLens idx hidx part hpart :=
    Nat.lt_of_le_of_lt (h.partName (hindexes idx hidx) hpart).2.2 (by decide)

theorem joinParts_zero_not_mem {parts : List Text} (h : ∀ part ∈ parts, 0 ∉ part) :
    0 ∉ joinParts parts := by
  induction parts with
  | nil => exact nofun
  | cons part parts ih =>
    obtain ⟨hpart, h⟩ := List.forall_mem_cons.1 h
    cases parts with
    | nil => exact hpart
    | cons other parts =>
      rw [joinParts, List.mem_append, List.mem_append, not_or, not_or]
      exact ⟨⟨hpart, by decide⟩, ih h⟩

theorem typeText_zero_not_mem (rt : ResolvedType) : 0 ∉ typeText rt := by
  have hname : 0 ∉ rt.typeInfo.typeName :=
    isIdentifier_zero_not_mem (typeName_text rt.columnType).1
  rw [typeText, List.mem_append, not_or]
  refine ⟨hname, ?_⟩
  split
  · rw [List.mem_append, List.mem_append, not_or, not_or]
    exact ⟨by decide, decimalDigit_ne_zero, by decide⟩
  · exact List.not_mem_nil

/-- The file is a C string. -/
theorem savedText_zero_not_mem {printFloat : FloatFormat} (hfloats : PrintsFloats printFloat)
    {schema : TableSchema} (h : PlannedTable schema) {indexMeta : IndexMeta}
    (hindexes : ∀ idx ∈ indexMeta, PlannedIndex schema idx) :
    0 ∉ savedText printFloat schema indexMeta := by
  have hcolumn : ∀ col ∈ schema.columns, 0 ∉ savedColumn printFloat col := by
    intro col hcol
    obtain ⟨typeName, hasLen, len, hresolve⟩ := (h.columns col hcol).type
    have hname := isIdentifier_zero_not_mem (h.columns col hcol).name
    have htype : 0 ∉ col.resolvedType.resolvedTypeName := by
      rw [(resolveType_spec hresolve).1]
      exact typeText_zero_not_mem _
    simp only [savedColumn, List.mem_append, not_or]
    refine ⟨⟨⟨⟨⟨by decide, hname⟩, by decide⟩, htype⟩, ?_⟩, by decide⟩
    split
    · rw [List.mem_append, not_or]
      exact ⟨by decide, literalText_zero_not_mem hfloats _⟩
    · exact nofun
  have hindex : ∀ idx ∈ indexMeta, 0 ∉ savedIndex idx := by
    intro idx hidx
    have hparts : 0 ∉ joinParts (idx.parts.map savedPart) := by
      apply joinParts_zero_not_mem
      intro s hs
      obtain ⟨part, hpart, rfl⟩ := List.mem_map.1 hs
      have hname := isIdentifier_zero_not_mem (h.partName (hindexes idx hidx) hpart).1
      simp only [savedPart, List.mem_append, not_or]
      exact ⟨⟨⟨hname, by decide⟩, decimalDigit_ne_zero⟩, by decide⟩
    simp only [savedIndex, List.mem_append, not_or]
    refine ⟨⟨⟨⟨⟨by decide, ?_⟩, isIdentifier_zero_not_mem (hindexes idx hidx).name⟩, by decide⟩,
      hparts⟩, by decide⟩
    split <;> decide
  simp only [savedText, List.mem_append, not_or, List.mem_flatMap, not_exists, not_and]
  exact ⟨by decide, hcolumn, by decide, hindex, by decide⟩

theorem identToken_valid (name : Text) : (identToken name).type ≠ .invalid := fun h => by cases h

theorem lenTokens_valid (hasLen : Bool) (len : Text) :
    ∀ t ∈ lenTokens hasLen len, t.type ≠ .invalid := by
  cases hasLen with
  | false => exact nofun
  | true =>
    have hnumber : (numberToken len).type ≠ .invalid := fun h => by cases h
    exact List.forall_mem_cons.2 ⟨by decide, List.forall_mem_cons.2 ⟨hnumber,
      List.forall_mem_singleton.2 (by decide)⟩⟩

theorem columnDef_tokens_valid (d : ColumnDef) : ∀ t ∈ d.tokens, t.type ≠ .invalid := by
  have hvalue : d.defaultValue.token.type ≠ .invalid := by
    show d.defaultValue.type.tokenType ≠ .invalid
    cases d.defaultValue.type <;> exact TokenType.noConfusion
  refine List.forall_mem_cons.2 ⟨identToken_valid _, List.forall_mem_append.2 ⟨?_, ?_⟩⟩
  · exact List.forall_mem_cons.2 ⟨identToken_valid _, lenTokens_valid _ _⟩
  · split
    · exact List.forall_mem_cons.2 ⟨identToken_valid _, List.forall_mem_singleton.2 hvalue⟩
    · exact nofun

theorem keyParts_tokens_valid (parts : List IndexKeyPart) :
    ∀ t ∈ Grammar.separated comma IndexKeyPart.tokens parts, t.type ≠ .invalid := by
  have hpart : ∀ part : IndexKeyPart, ∀ t ∈ part.tokens, t.type ≠ .invalid := fun part =>
    List.forall_mem_cons.2 ⟨identToken_valid _, lenTokens_valid _ _⟩
  induction parts with
  | nil => exact nofun
  | cons part parts ih =>
    cases parts with
    | nil => exact hpart part
    | cons other parts =>
      exact List.forall_mem_append.2 ⟨hpart part, List.forall_mem_cons.2 ⟨by decide, ih⟩⟩

theorem indexDef_tokens_valid (d : IndexDef) : ∀ t ∈ d.tokens, t.type ≠ .invalid := by
  refine List.forall_mem_cons.2 ⟨identToken_valid _, List.forall_mem_append.2 ⟨?_,
    List.forall_mem_cons.2 ⟨identToken_valid _, List.forall_mem_cons.2 ⟨by decide,
      List.forall_mem_append.2 ⟨keyParts_tokens_valid _,
        List.forall_mem_singleton.2 (by decide)⟩⟩⟩⟩⟩
  split
  · exact List.forall_mem_singleton.2 (identToken_valid _)
  · exact nofun

/-- The file is parsed to the definitions where its literals are single tokens. -/
theorem parseSchemaText_saved {printFloat : FloatFormat} {schema : TableSchema}
    (h : PlannedTable schema) (hplain : ∀ col ∈ schema.columns, PlainFloat printFloat col.defaultValue)
    {indexMeta : IndexMeta} (hindexes : ∀ idx ∈ indexMeta, PlannedIndex schema idx) :
    parseSchemaText (savedText printFloat schema indexMeta)
      = .ok (savedResult printFloat schema indexMeta, none) := by
  obtain ⟨columnsEnd, indexesEnd, hfile, hcolumnsEnd, hindexesEnd⟩ :=
    lexerTokens_savedText printFloat schema indexMeta
  rw [lexerTokens_plainColumns h.columns hplain, hcolumnsEnd,
    lexerTokens_savedIndexes h.columns hindexes, hindexesEnd] at hfile
  have hcolumnsRead : ∀ rest, Grammar.Until rparen comma columnDefGrammar
      ((schema.columns.map (savedColumnDef printFloat)).flatMap (fun d => d.tokens ++ [comma])
        ++ rparen :: rest) (schema.columns.map (savedColumnDef printFloat)) (rparen :: rest) := by
    refine Grammar.until_printed (fun _ _ => keyword_head_ne _ _ (by decide))
      (fun _ _ _ => ⟨fun _ => nofun, nofun⟩) fun d hd => ?_
    obtain ⟨col, hcol, rfl⟩ := List.mem_map.1 hd
    exact (h.columns col hcol).formed printFloat
  have hindexesRead : ∀ rest, Grammar.Until rparen comma indexDefGrammar
      ((indexMeta.map savedIndexDef).flatMap (fun d => d.tokens ++ [comma]) ++ rparen :: rest)
      (indexMeta.map savedIndexDef) (rparen :: rest) := by
    refine Grammar.until_printed (fun _ _ => keyword_head_ne _ _ (by decide))
      (fun _ _ => trivial) fun d hd => ?_
    obtain ⟨idx, hidx, rfl⟩ := List.mem_map.1 hd
    exact (hindexes idx hidx).formed
  apply parseSchemaText_of_grammar []
  · rw [hfile]
    have hitems : ∀ (α : Type) (tokens : α → List Token) (as : List α),
        (∀ a, ∀ t ∈ tokens a, t.type ≠ .invalid) →
        ∀ t ∈ as.flatMap (fun a => tokens a ++ [comma]), t.type ≠ .invalid := by
      intro α tokens as hall t ht
      obtain ⟨a, -, ht⟩ := List.mem_flatMap.1 ht
      obtain ht | ht := List.mem_append.1 ht
      · exact hall a t ht
      · rw [List.mem_singleton.1 ht]
        decide
    have hlist : ∀ ts : List Token, (∀ t ∈ ts, t.type ≠ .invalid) →
        ∀ more : List Token, (∀ t ∈ more, t.type ≠ .invalid) → ∀ t ∈ ts ++ more,
          t.type ≠ .invalid := fun ts hts more hmore => List.forall_mem_append.2 ⟨hts, hmore⟩
    have hhead : ∀ t ∈ [identToken (text "table"), lparen, identToken (text "columns"), lparen],
        t.type ≠ .invalid := by decide
    have hmid : ∀ t ∈ [rparen, comma, identToken (text "indexes"), lparen],
        t.type ≠ .invalid := by decide
    exact hlist _ hhead _ (hlist _ (hitems _ _ _ columnDef_tokens_valid) _
      (hlist _ hmid _ (hlist _ (hitems _ _ _ indexDef_tokens_valid) _ (by decide))))
  · rw [hfile]
    exact ⟨_, _, true, _, _, true, rfl, hcolumnsRead _, .inl ⟨rfl, rfl⟩, hindexesRead _,
      .inl ⟨rfl, rfl⟩⟩

/-- What a column needs so that it comes back. -/
structure ComesBack (strtof : Strtof) (printFloat : FloatFormat) (col : Column) : Prop where
  name : LoadableName col.columnName
  float : ∀ bits, col.defaultValue = .float bits → isNumber (printFloat bits) = true ∧
    convertNumber strtof (printFloat bits) = .ok (.float bits)

theorem roundTrips_planned {strtof : Strtof} {printFloat : FloatFormat}
    (hfloats : PrintsFloats printFloat) (unwritten : Unwritten) {schema : TableSchema}
    (h : PlannedTable schema) {indexMeta : IndexMeta} (hmeta : BuiltIndexes schema indexMeta) :
    (∃ file, schemaSaveTable unwritten printFloat schema (some indexMeta) = .ok file ∧
      schemaLoadTable strtof schema.tableName file = .ok (.ok (schema, indexMeta))) ↔
    ∀ col ∈ schema.columns, ComesBack strtof printFloat col := by
  obtain ⟨hindexes, -⟩ := hmeta.planned h.sound
  have hsave := schemaSaveTable_eq unwritten hfloats (h.writable hindexes)
  have hcstr : cstr (savedText printFloat schema indexMeta)
      = savedText printFloat schema indexMeta :=
    cstr_of_zero_not_mem (savedText_zero_not_mem hfloats h hindexes)
  constructor
  · rintro ⟨file, hfile, hload⟩
    rw [hsave] at hfile
    cases hfile
    obtain ⟨result, hparse, hresolve⟩ := schemaLoadTable_eq_ok.1 hload
    rw [hcstr] at hparse
    obtain ⟨columns, hcolumns, hresolve⟩ := bind_eq_ok.1 hresolve
    obtain ⟨indexes, -, hresolve⟩ := bind_eq_ok.1 hresolve
    -- the columns that are loaded are those of the table
    have hsame : columns = schema.columns := by
      have heq := congrArg (fun r => r.map fun t => t.1.columns) hresolve
      exact Except.ok.inj heq
    subst hsame
    obtain ⟨result', e, hparse', hgrammar⟩ :=
      parseSchemaText_total (savedText printFloat schema indexMeta)
    rw [hparse] at hparse'
    cases hparse'
    obtain ⟨rest, ⟨cols, mid, b, idxs, mid', b', htokens, hread, -⟩, -⟩ := hgrammar rfl
    obtain ⟨columnsEnd, indexesEnd, hfile, hcolumnsEnd, -⟩ :=
      lexerTokens_savedText printFloat schema indexMeta
    rw [hfile] at htokens
    obtain rfl : lexerTokens (schema.columns.flatMap (savedColumn printFloat) ++ columnsEnd)
        = cols := (List.cons.inj (List.cons.inj (List.cons.inj (List.cons.inj htokens).2).2).2).2
    obtain ⟨hplain, hdefs⟩ := plainFloats_of_until hfloats h.columns
      (by rw [hcolumnsEnd]; rfl) hread
    obtain ⟨-, loaded, hloaded, hall⟩ := loadColumns_spec (Nat.zero_le _) hcolumns
    rw [List.nil_append] at hloaded
    subst hloaded
    rw [hdefs, List.forall₂_map_left_iff, List.forall₂_same] at hall
    intro col hcol
    obtain ⟨-, hname, -, -, hdefault⟩ := hall col hcol
    refine ⟨hname, fun bits hbits => ⟨hplain col hcol bits hbits, ?_⟩⟩
    have hhas : col.hasDefault = true := by
      by_contra hno
      rw [(h.columns col hcol).noDefault (by simpa using hno)] at hbits
      cases hbits
    have hconvert := hdefault hhas
    rw [hbits] at hconvert
    rw [← hconvert, savedColumnDef, hbits]
    rfl
  · intro hback
    have hplain : ∀ col ∈ schema.columns, PlainFloat printFloat col.defaultValue :=
      fun col hcol bits hbits => ((hback col hcol).float bits hbits).1
    refine ⟨_, hsave, schemaLoadTable_eq_ok.2 ⟨savedResult printFloat schema indexMeta, ?_, ?_⟩⟩
    · rw [hcstr]
      exact parseSchemaText_saved h hplain hindexes
    · exact resolveSchema_saved h (fun col hcol => (hback col hcol).name)
        (fun col hcol bits hbits => ((hback col hcol).float bits hbits).2) hmeta

/-- A table that CREATE TABLE and CREATE INDEX have made comes back from its file exactly if the
names of its columns have lower-case letters and underscores only and every `float` default is
printed as one number that `convert_number` gives back. -/
theorem schemaFile_roundTrips_iff (strtof : Strtof) (printFloat : FloatFormat)
    (hfloats : PrintsFloats printFloat) (unwritten : Unwritten) (input : Text)
    (stmt : CreateTableStmt) (tableNames : List Text) (schema : TableSchema)
    (hparse : parseInput input = .ok (.createTable stmt, none))
    (hvalidate : validateCreateTable stmt = .ok ())
    (hplan : planCreateTable strtof tableNames stmt = .ok schema) (indexMeta : IndexMeta)
    (hmeta : BuiltIndexes schema indexMeta) :
    (∃ file, schemaSaveTable unwritten printFloat schema (some indexMeta) = .ok file ∧
      schemaLoadTable strtof schema.tableName file = .ok (.ok (schema, indexMeta))) ↔
    ∀ col ∈ schema.columns, ComesBack strtof printFloat col :=
  roundTrips_planned hfloats unwritten (plannedTable_of_plan hparse hvalidate hplan) hmeta

/-! ## Two tables -/

def createHalf : Text := text "create table t (f float default 1.5)"

def createHalfStmt : CreateTableStmt :=
  { table := text "t"
    columnDefs := [⟨text "f", ⟨text "float", [], false⟩, true, ⟨.number, text "1.5"⟩⟩] }

def halfTable : TableSchema :=
  { tableName := text "t"
    columns := [⟨text "f", ⟨.float, 4, text "float"⟩, true, .float 0x3fc00000⟩] }

def createHalfIndex : Text := text "create unique index i on t (f)"

def createHalfIndexStmt : CreateIndexStmt :=
  { isUnique := true, name := text "i", type := [], table := text "t"
    keyParts := [⟨text "f", [], false⟩] }

def halfIndex : IndexDefinition :=
  { name := text "i", type := .btree, nodeSize := 4096, keySize := 4, isUnique := true
    parts := [⟨text "f", 0, 4, .float, .compareFloatKeys⟩] }

/-- `strtof` on the literal of the table. -/
def halfStrtof : Strtof := fun s =>
  if s = text "1.5" then ⟨false, 0x3fc00000, []⟩ else ⟨false, 0, s⟩

theorem schemaFile_roundTrips_half :
    (∃ file, schemaSaveTable (fun size => Vector.replicate size 0) halfFormat halfTable
        (some ([] ++ [halfIndex])) = .ok file ∧
      schemaLoadTable halfStrtof halfTable.tableName file
        = .ok (.ok (halfTable, [] ++ [halfIndex]))) ↔
    ∀ col ∈ halfTable.columns, ComesBack halfStrtof halfFormat col :=
  schemaFile_roundTrips_iff halfStrtof halfFormat halfFormat_printsFloats
    (fun size => Vector.replicate size 0) createHalf createHalfStmt [] halfTable (by decide +kernel)
    rfl (by decide +kernel) _
    (.create .none (show parseInput createHalfIndex = .ok (.createIndex createHalfIndexStmt, none) by
      decide +kernel) rfl (by decide +kernel))

/-- A column whose name has an upper-case letter is written and not read. -/
theorem schemaFile_refusesName :
    ¬∀ (strtof : Strtof) (printFloat : FloatFormat), PrintsFloats printFloat →
      ∀ (unwritten : Unwritten) (input : Text) (stmt : CreateTableStmt) (tableNames : List Text)
        (schema : TableSchema), parseInput input = .ok (.createTable stmt, none) →
        validateCreateTable stmt = .ok () → planCreateTable strtof tableNames stmt = .ok schema →
        ∀ indexMeta, BuiltIndexes schema indexMeta →
          ∃ file, schemaSaveTable unwritten printFloat schema (some indexMeta) = .ok file ∧
            schemaLoadTable strtof schema.tableName file = .ok (.ok (schema, indexMeta)) := by
  intro h
  have hparse : parseInput (text "create table t (A int)") = .ok (.createTable
      { table := text "t", columnDefs := [⟨text "A", ⟨text "int", [], false⟩, false, noValue⟩] },
      none) := by
    decide +kernel
  have hplan : planCreateTable halfStrtof []
      { table := text "t", columnDefs := [⟨text "A", ⟨text "int", [], false⟩, false, noValue⟩] }
      = .ok ⟨text "t", [⟨text "A", ⟨.int, 4, text "int"⟩, false, .null⟩]⟩ := by
    decide +kernel
  have hback := (roundTrips_planned halfFormat_printsFloats
    (fun size => Vector.replicate size 0) (plannedTable_of_plan hparse rfl hplan) .none).1
    (h halfStrtof halfFormat halfFormat_printsFloats _ _ _ [] _ hparse rfl hplan [] .none)
  have hname := (hback _ List.mem_cons_self).name.2 65 (by decide)
  exact absurd hname (by decide)

end Maxql
