import Maxql.Lib.TextFile
import Maxql.Parser.Grammar
import Maxql.Schema

/-!
# The catalog

`src/database/database.c`.  The list of the tables is saved as one line a
table.  `database_save` prints the lines into an array of 8192 bytes that has
no value at first, with room for 31 characters a line, and hands the array to
`fprintf` as a string.  `database_remove_table` compares with a name that may
stand inside the list it moves.

The groups are the model, the removal, what the array holds after the lines,
and what is read back from it.

* `databaseShift_eq`: the removal takes the named table only;
* `printLines_eq_ok`: what the lines need of the array;
* `roundTrips_iff`: when the file that is written gives the list back.
-/

namespace Maxql

open Program Bytes

/-! ## The list of the tables -/

structure TableMeta where
  name : Text
  schema : TableSchema
  indexMeta : IndexMeta
  deriving DecidableEq, Repr

abbrev Database := List TableMeta

/-- A pointer to a name: to an array of the caller, or into an entry of the list. -/
inductive NameRef where
  | array (name : Text)
  | entry (pos : Nat)
  deriving DecidableEq, Repr

def NameRef.read (database : Database) : NameRef → Checked Text
  | .array name => .ok name
  | .entry pos => do
    let table ← readAt database pos
    return table.name

/-- The push of `database_add_table`. -/
def databasePush (database : Database) (schema : TableSchema) : Database :=
  database ++ [{ name := svToCstr schema.tableName (maxTableNameSize + 1), schema, indexMeta := [] }]

/-- The loop of `database_remove_table`, with the steps that are left, on the list and `shift`. -/
def removeLoop (tableName : NameRef) : (steps i : Nat) → Database → (shift : Nat) →
    Checked (Database × Nat)
  | 0, _, database, shift => .ok (database, shift)
  | steps + 1, i, database, shift => do
    let table ← readAt database i
    let database ← writeAt database (i - shift) table
    let current ← readAt database i
    let name ← tableName.read database
    removeLoop tableName steps (i + 1) database (if current.name == name then 1 else shift)

/-- `database_remove_table` up to its call of `database_save`. -/
def databaseShift (database : Database) (tableName : NameRef) : Checked Database := do
  let (tables, shift) ← removeLoop tableName database.length 0 database 0
  return if shift ≠ 0 then tables.take (database.length - 1) else tables

/-! ## The file -/

def catalogBufferSize : Nat := 8192

/-- `snprintf(&buffer[offset], sizeof(TableName), "%s\n", name)` and its result. -/
def printLine (buffer : List UInt8) (offset : Nat) (name : Text) :
    Checked (List UInt8 × Nat) := do
  let line := name ++ [newline]
  let out := line.take maxTableNameSize ++ [0]
  let buffer ← copySlots buffer offset out 0 out.length
  return (buffer, line.length)

/-- The loop of `database_save`. -/
def printLines : List Text → (buffer : List UInt8) → (offset : Nat) → Checked (List UInt8)
  | [], buffer, _ => .ok buffer
  | name :: names, buffer, offset => do
    let (buffer, n) ← printLine buffer offset name
    printLines names buffer (offset + n)

/-- `fprintf(file, "%s", buffer)` -/
def printString (buffer : List UInt8) : Checked (List UInt8) :=
  if 0 ∈ buffer then .ok (cstr buffer) else .error .outOfBounds

/-- What `database_save` writes when `buffer` is what its array holds at first. -/
def catalogText (buffer : List UInt8) (database : Database) : Checked (List UInt8) := do
  let buffer ← printLines (database.map (·.name)) buffer 0
  printString buffer

/-- `strtok(line, "\n")` -/
def strtok (line : Text) : Option Text :=
  let start := (cstr line).dropWhile (· == newline)
  if start = [] then none else some (start.takeWhile (· != newline))

abbrev SchemaLoader := Text → Except Error (TableSchema × IndexMeta)

/-- The loop of `database_load`. -/
def loadTables (schemaLoader : SchemaLoader) : (fuel : Nat) → List UInt8 →
    Checked (Except Error Database)
  | 0, _ => .error .outOfFuel
  | _ + 1, [] => .ok (.ok [])
  | fuel + 1, c :: file =>
    match strtok (fgets 63 (c :: file)).1 with
    | none => .error .badAddress
    | some buffer =>
      if buffer.length > maxTableNameSize then
        .ok (errorFmt .storage (text "Too long table name in catalog"))
      else
        match schemaLoader buffer with
        | .error e => .ok (.error e)
        | .ok (schema, indexMeta) => do
          let tables ← loadTables schemaLoader fuel (fgets 63 (c :: file)).2
          return tables.map fun tables => { name := buffer, schema, indexMeta } :: tables

/-- `database_load` on a catalog file that can be opened. -/
def databaseLoad (schemaLoader : SchemaLoader) (file : List UInt8) :
    Checked (Except Error Database) :=
  loadTables schemaLoader (file.length + 1) file

/-! ## Removal -/

/-- Once an entry is found the entries behind it move to the left. -/
theorem removeLoop_shifted (tableName : NameRef) (pre : Database) (x : TableMeta)
    (post : Database) (hread : ∀ database : Database, database.length = (pre ++ x :: post).length →
      ∃ name, tableName.read database = .ok name) :
    ∃ last, removeLoop tableName post.length (pre.length + 1) (pre ++ x :: post) 1
      = .ok (pre ++ (post ++ [last]), 1) := by
  induction post generalizing pre x with
  | nil => exact ⟨x, rfl⟩
  | cons y post ih =>
    have hreads : readAt (pre ++ x :: y :: post) (pre.length + 1) = .ok y := by
      have h := readAt_append_cons (pre ++ [x]) post y
      simpa using h
    have hwrite : writeAt (pre ++ x :: y :: post) (pre.length + 1 - 1) y
        = .ok (pre ++ y :: y :: post) := writeAt_append_cons pre (y :: post) x y
    have hcurrent : readAt (pre ++ y :: y :: post) (pre.length + 1) = .ok y := by
      have h := readAt_append_cons (pre ++ [y]) post y
      simpa using h
    obtain ⟨name, hname⟩ := hread (pre ++ y :: y :: post) (by simp)
    obtain ⟨last, hlast⟩ := ih (pre ++ [y]) y fun database hlen =>
      hread database (by simpa using hlen)
    refine ⟨last, ?_⟩
    rw [List.length_cons, removeLoop, hreads, Checked.ok_bind, hwrite, Checked.ok_bind, hcurrent,
      Checked.ok_bind, hname, Checked.ok_bind, ite_self]
    simpa using hlast

/-- Up to the entry that is looked for nothing changes. -/
theorem removeLoop_before (tableName : NameRef) (pre mid post : Database) (steps : Nat)
    (hread : ∃ name, tableName.read (pre ++ mid ++ post) = .ok name ∧ ∀ t ∈ mid, t.name ≠ name) :
    removeLoop tableName (mid.length + steps) pre.length (pre ++ mid ++ post) 0
      = removeLoop tableName steps (pre.length + mid.length) (pre ++ mid ++ post) 0 := by
  induction mid generalizing pre with
  | nil => simp
  | cons y mid ih =>
    obtain ⟨name, hname, hne⟩ := hread
    obtain ⟨hy, hmid⟩ := List.forall_mem_cons.1 hne
    have hlist : pre ++ y :: mid ++ post = pre ++ y :: (mid ++ post) := by simp
    have hlist' : pre ++ y :: mid ++ post = (pre ++ [y]) ++ mid ++ post := by simp
    have hread : readAt (pre ++ y :: mid ++ post) pre.length = .ok y := by
      rw [hlist]
      exact readAt_append_cons pre _ y
    have hwrite : writeAt (pre ++ y :: mid ++ post) (pre.length - 0) y
        = .ok (pre ++ y :: mid ++ post) := by
      rw [hlist]
      exact writeAt_append_cons pre _ y y
    have hsteps : (y :: mid).length + steps = (mid.length + steps) + 1 := by
      simp only [List.length_cons]
      omega
    have hstep := ih (pre ++ [y]) (by rw [← hlist']; exact ⟨name, hname, hmid⟩)
    rw [← hlist'] at hstep
    rw [hsteps, removeLoop, hread, Checked.ok_bind, hwrite, Checked.ok_bind, hread,
      Checked.ok_bind, hname, Checked.ok_bind, if_neg (by simpa using hy)]
    simpa [Nat.add_assoc, Nat.add_comm 1] using hstep

/-- The entry that a reference names goes, also where the name stands in this entry. -/
theorem databaseShift_eq {pre post : Database} {x : TableMeta} {tableName : NameRef}
    (hpre : ∀ t ∈ pre, t.name ≠ x.name)
    (href : tableName = .array x.name ∨ tableName = .entry pre.length) :
    databaseShift (pre ++ x :: post) tableName = .ok (pre ++ post) := by
  have hread : tableName.read (pre ++ x :: post) = .ok x.name := by
    obtain rfl | rfl := href
    · rfl
    · rw [NameRef.read, readAt_append_cons]
      rfl
  have htotal : ∀ database : Database, database.length = (pre ++ x :: post).length →
      ∃ name, tableName.read database = .ok name := by
    intro database hlen
    obtain rfl | rfl := href
    · exact ⟨_, rfl⟩
    · have hpos : pre.length < database.length := by
        rw [hlen]
        simp
      exact ⟨_, by rw [NameRef.read, readAt_of_getElem? (List.getElem?_eq_getElem hpos)]; rfl⟩
  have hbefore := removeLoop_before tableName [] pre (x :: post) (post.length + 1)
    ⟨x.name, by simpa using hread, hpre⟩
  obtain ⟨last, hshifted⟩ := removeLoop_shifted tableName pre x post htotal
  have hlen : (pre ++ x :: post).length = pre.length + (post.length + 1) := by simp
  have hwrite : writeAt (pre ++ x :: post) (pre.length - 0) x = .ok (pre ++ x :: post) :=
    writeAt_append_cons pre post x x
  -- The step at the entry itself starts the shift.
  have hloop : removeLoop tableName (pre ++ x :: post).length 0 (pre ++ x :: post) 0
      = .ok (pre ++ (post ++ [last]), 1) := by
    simp only [List.nil_append, List.length_nil, Nat.zero_add] at hbefore
    rw [hlen, hbefore, removeLoop, readAt_append_cons, Checked.ok_bind, hwrite, Checked.ok_bind,
      readAt_append_cons, Checked.ok_bind, hread, Checked.ok_bind, if_pos (beq_self_eq_true _)]
    exact hshifted
  have htake : (pre ++ (post ++ [last])).take ((pre ++ x :: post).length - 1) = pre ++ post := by
    have hlen' : (pre ++ x :: post).length - 1 = (pre ++ post).length := by simp
    rw [hlen', ← List.append_assoc, List.take_left]
  rw [databaseShift, hloop, Checked.ok_bind]
  exact congrArg Except.ok htake

theorem databaseShift_absent {database : Database} {name : Text}
    (h : ∀ t ∈ database, t.name ≠ name) :
    databaseShift database (.array name) = .ok database := by
  have hbefore := removeLoop_before (.array name) [] database [] 0 ⟨name, rfl, h⟩
  simp only [List.nil_append, List.append_nil, List.length_nil, Nat.add_zero] at hbefore
  rw [databaseShift, hbefore]
  rfl

/-! ## What the array holds -/

/-- A name with the byte behind it: the newline, or the NUL that cuts it. -/
def cell (name : Text) : List UInt8 :=
  name ++ [if name.length < maxTableNameSize then newline else 0]

theorem length_cell (name : Text) : (cell name).length = name.length + 1 := by
  simp [cell]

/-- The bytes that the lines of the names need. -/
def catalogSize : List Text → Nat
  | [] => 0
  | [name] => min (name.length + 1) maxTableNameSize + 1
  | name :: other :: names => name.length + 1 + catalogSize (other :: names)

theorem one_le_catalogSize (name : Text) (names : List Text) : 1 ≤ catalogSize (name :: names) := by
  cases names <;> simp only [catalogSize] <;> omega

/-- One line.  It needs a byte for the NUL, over which the next line is printed. -/
theorem printLine_eq (name : Text) (done rest : List UInt8) :
    printLine (done ++ rest) done.length name
      = if min (name.length + 1) maxTableNameSize + 1 ≤ rest.length then
          .ok (done ++ ((name ++ [newline]).take maxTableNameSize ++ [0] ++
            rest.drop (min (name.length + 1) maxTableNameSize + 1)), name.length + 1)
        else .error .outOfBounds := by
  have hout : ((name ++ [newline]).take maxTableNameSize ++ [(0 : UInt8)]).length
      = min (name.length + 1) maxTableNameSize + 1 := by
    simp [Nat.min_comm]
  rw [printLine]
  split
  case isTrue hroom =>
    rw [copySlots_of_le (by omega) (by rw [hout, List.length_append]; omega), hout]
    have hdrop : (done ++ rest).drop (done.length + (min (name.length + 1) maxTableNameSize + 1))
        = rest.drop (min (name.length + 1) maxTableNameSize + 1) := by
      rw [List.drop_append]
      simp
    rw [hdrop, List.take_left, List.drop_zero, List.take_of_length_le (by rw [hout])]
    simp
  case isFalse hroom =>
    have hcopy : copySlots (done ++ rest) done.length
        ((name ++ [newline]).take maxTableNameSize ++ [0]) 0
        ((name ++ [newline]).take maxTableNameSize ++ [(0 : UInt8)]).length
        = .error .outOfBounds := by
      rw [copySlots, if_neg]
      rw [hout, List.length_append]
      omega
    rw [hcopy]
    rfl

/-- A line ends in its cell, and what is behind it starts with the NUL unless the cell has it. -/
theorem printLine_cell {name : Text} (hfits : name.length ≤ maxTableNameSize)
    (rest : List UInt8) :
    ∃ tail, (name ++ [newline]).take maxTableNameSize ++ [0] ++
        rest.drop (min (name.length + 1) maxTableNameSize + 1) = cell name ++ tail ∧
      (name.length < maxTableNameSize → tail.head? = some 0) ∧
      (min (name.length + 1) maxTableNameSize + 1 ≤ rest.length →
        tail.length = rest.length - (name.length + 1)) := by
  unfold cell
  split
  case isTrue hlt =>
    have hmin : min (name.length + 1) maxTableNameSize = name.length + 1 := Nat.min_eq_left hlt
    refine ⟨0 :: rest.drop (name.length + 1 + 1), ?_, fun _ => rfl, ?_⟩
    · rw [hmin, List.take_of_length_le (by rw [List.length_append]; exact hlt)]
      simp
    · intro hroom
      simp
      omega
  case isFalse hge =>
    have hlen : name.length = maxTableNameSize := by omega
    have hmin : min (name.length + 1) maxTableNameSize = name.length := by omega
    refine ⟨rest.drop (name.length + 1), ?_, fun hlt => absurd hlt hge, ?_⟩
    · rw [hmin, ← hlen, List.take_left]
    · intro _
      simp

/-- What the loop leaves in the array. -/
theorem printLines_eq_ok {names : List Text} (hne : names ≠ [])
    (hfits : ∀ name ∈ names, name.length ≤ maxTableNameSize)
    (done rest : List UInt8) :
    (catalogSize names ≤ rest.length → ∃ tail,
      printLines names (done ++ rest) done.length = .ok (done ++ (names.flatMap cell ++ tail)) ∧
      ∀ name ∈ names.getLast?, name.length < maxTableNameSize → tail.head? = some 0) ∧
    (rest.length < catalogSize names →
      printLines names (done ++ rest) done.length = .error .outOfBounds) := by
  induction names generalizing done rest with
  | nil => exact absurd rfl hne
  | cons name names ih =>
    obtain ⟨hfit, hfits⟩ := List.forall_mem_cons.1 hfits
    obtain ⟨tail, htail, hzero, hlen⟩ := printLine_cell hfit rest
    rw [printLines, printLine_eq name]
    cases names with
    | nil =>
      constructor
      · intro hsize
        refine ⟨tail, ?_, by simpa using hzero⟩
        rw [if_pos (show min (name.length + 1) maxTableNameSize + 1 ≤ rest.length from hsize),
          htail]
        simp [printLines]
      · intro hsize
        rw [if_neg (by rw [catalogSize] at hsize; omega)]
        rfl
    | cons other names =>
      have hother := one_le_catalogSize other names
      rw [catalogSize]
      split
      case isTrue hroom =>
        have hstep := ih (List.cons_ne_nil _ _) hfits (done ++ cell name) tail
        have hdone : (done ++ cell name).length = done.length + (name.length + 1) := by
          rw [List.length_append, length_cell]
        rw [Checked.ok_bind, htail]
        simp only [hdone, List.append_assoc] at hstep ⊢
        have hlen := hlen hroom
        constructor
        · intro hsize
          obtain ⟨tail', hprint, hzero'⟩ := hstep.1 (by omega)
          exact ⟨tail', by rw [hprint]; simp, by simpa using hzero'⟩
        · intro hsize
          exact hstep.2 (by omega)
      case isFalse hroom =>
        exact ⟨fun hsize => absurd hroom (by omega), fun _ => rfl⟩

/-! ## What is read back -/

/-- The names that the tables may have. -/
structure ValidName (name : Text) : Prop where
  fits : name.length ≤ maxTableNameSize
  ident : isIdentifier name = true

theorem ValidName.ne_nil {name : Text} (h : ValidName name) : name ≠ [] := by
  rintro rfl
  cases h.ident

theorem ValidName.zero_not_mem {name : Text} (h : ValidName name) : 0 ∉ name :=
  isIdentifier_not_mem h.ident rfl

theorem ValidName.newline_not_mem {name : Text} (h : ValidName name) : newline ∉ name :=
  isIdentifier_not_mem h.ident rfl

/-- The text up to the first NUL in the array. -/
def shownText : List Text → Text
  | [] => []
  | name :: names =>
    if name.length < maxTableNameSize then name ++ newline :: shownText names else name

/-- The names up to the first one that fills its array. -/
def shownNames : List Text → List Text
  | [] => []
  | name :: names =>
    if name.length < maxTableNameSize then name :: shownNames names else [name]

theorem printString_cells {names : List Text} (hne : names ≠ [])
    (hvalid : ∀ name ∈ names, ValidName name) {tail : List UInt8}
    (hzero : ∀ name ∈ names.getLast?, name.length < maxTableNameSize → tail.head? = some 0) :
    printString (names.flatMap cell ++ tail) = .ok (shownText names) := by
  suffices h : 0 ∈ names.flatMap cell ++ tail ∧
      cstr (names.flatMap cell ++ tail) = shownText names by
    rw [printString, if_pos h.1, h.2]
  induction names with
  | nil => exact absurd rfl hne
  | cons name names ih =>
    obtain ⟨hname, hvalid⟩ := List.forall_mem_cons.1 hvalid
    rw [shownText, List.flatMap_cons, cell]
    split
    case isTrue hlt =>
      have hnewline : 0 ∉ name ++ [newline] := by
        rw [List.mem_append, List.mem_singleton]
        exact fun h => h.elim hname.zero_not_mem (by decide)
      have hrest : 0 ∈ names.flatMap cell ++ tail ∧
          cstr (names.flatMap cell ++ tail) = shownText names := by
        cases names with
        | nil =>
          obtain ⟨rest, rfl⟩ : ∃ rest, tail = 0 :: rest := by
            cases tail with
            | nil => cases hzero name rfl hlt
            | cons c rest => exact ⟨rest, by rw [Option.some.inj (hzero name rfl hlt)]⟩
          exact ⟨by simp, rfl⟩
        | cons other names => exact ih (List.cons_ne_nil _ _) hvalid (by simpa using hzero)
      rw [List.append_assoc, cstr_append hnewline, hrest.2]
      exact ⟨List.mem_append_right _ hrest.1, by simp⟩
    case isFalse =>
      rw [List.append_assoc, List.append_assoc, cstr_append hname.zero_not_mem]
      exact ⟨by simp, by simp [cstr]⟩

/-- The name in front of what `fgets` has kept of the newline. -/
theorem strtok_line {name : Text} (hname : ValidName name) {rest : Text}
    (hrest : rest = [] ∨ rest = [newline]) : strtok (name ++ rest) = some name := by
  have hzero : 0 ∉ name ++ rest := by
    rw [List.mem_append]
    obtain rfl | rfl := hrest
    · exact fun h => h.elim hname.zero_not_mem nofun
    · exact fun h => h.elim hname.zero_not_mem (by decide)
  have hne : ∀ c ∈ name, (c != newline) = true := fun c hc =>
    bne_iff_ne.2 fun heq => hname.newline_not_mem (heq ▸ hc)
  have htake : (name ++ rest).takeWhile (· != newline) = name := by
    rw [List.takeWhile_append_of_pos hne]
    obtain rfl | rfl := hrest <;> simp
  obtain ⟨c, cs, rfl⟩ := List.exists_cons_of_ne_nil hname.ne_nil
  have hdrop : (c :: cs ++ rest).dropWhile (· == newline) = c :: cs ++ rest := by
    rw [List.cons_append, List.dropWhile_cons_of_neg]
    simpa using hne c List.mem_cons_self
  rw [strtok, cstr_of_zero_not_mem hzero]
  simp only [hdrop, htake]
  rfl

/-- A loader that succeeds. -/
def loadedTable (schemas : Text → TableSchema × IndexMeta) (name : Text) : TableMeta where
  name := name
  schema := (schemas name).1
  indexMeta := (schemas name).2

theorem loadTables_step (schemas : Text → TableSchema × IndexMeta) (fuel : Nat)
    {file line rest name : Text} (hname : ValidName name) (hne : file ≠ [])
    (hline : fgets 63 file = (line, rest)) (htok : strtok line = some name) :
    loadTables (fun name => .ok (schemas name)) (fuel + 1) file = do
      let tables ← loadTables (fun name => .ok (schemas name)) fuel rest
      return tables.map fun tables => loadedTable schemas name :: tables := by
  obtain ⟨c, file, rfl⟩ := List.exists_cons_of_ne_nil hne
  rw [loadTables, hline]
  simp only [htok]
  rw [if_neg (Nat.not_lt_of_le hname.fits)]
  rfl

theorem loadTables_shownText {names : List Text} (hvalid : ∀ name ∈ names, ValidName name)
    (schemas : Text → TableSchema × IndexMeta) {fuel : Nat}
    (hfuel : (shownText names).length < fuel) :
    loadTables (fun name => .ok (schemas name)) fuel (shownText names)
      = .ok (.ok ((shownNames names).map (loadedTable schemas))) := by
  induction names generalizing fuel with
  | nil =>
    cases fuel with
    | zero => exact absurd hfuel (Nat.not_lt_zero _)
    | succ fuel => rfl
  | cons name names ih =>
    obtain ⟨hname, hvalid⟩ := List.forall_mem_cons.1 hvalid
    have hlen : name.length ≤ 31 := hname.fits
    cases fuel with
    | zero => exact absurd hfuel (Nat.not_lt_zero _)
    | succ fuel =>
      rw [shownText] at hfuel ⊢
      rw [shownNames]
      split at hfuel
      case isTrue hlt =>
        rw [List.length_append, List.length_cons] at hfuel
        rw [if_pos hlt, if_pos hlt, loadTables_step schemas fuel hname (by simp)
          (fgets_line hname.newline_not_mem (by omega) _) (strtok_line hname (.inr rfl)),
          ih hvalid (by omega)]
        rfl
      case isFalse hge =>
        have htok : strtok name = some name := by
          have h := strtok_line hname (.inl rfl)
          rwa [List.append_nil] at h
        have hpos : 0 < name.length := List.length_pos_iff.2 hname.ne_nil
        rw [if_neg hge, if_neg hge, loadTables_step schemas fuel hname hname.ne_nil
          (fgets_last hname.newline_not_mem (by omega)) htok]
        cases fuel with
        | zero => omega
        | succ fuel => rfl

/-! ## The round trip -/

/-- `database_save` and `database_load` give the names back, whatever is in the array and
however the schemas are loaded. -/
def RoundTrips (database : Database) : Prop :=
  ∀ buffer : List UInt8, buffer.length = catalogBufferSize →
    ∀ schemas : Text → TableSchema × IndexMeta, ∃ file loaded,
      catalogText buffer database = .ok file ∧
      databaseLoad (fun name => .ok (schemas name)) file = .ok (.ok loaded) ∧
      loaded.map (·.name) = database.map (·.name)

/-- There is a name, only the last one may fill its array, and the lines fit. -/
structure CatalogFits (names : List Text) : Prop where
  nonempty : names ≠ []
  short : ∀ name ∈ names.dropLast, name.length < maxTableNameSize
  size : catalogSize names ≤ catalogBufferSize

theorem shownNames_eq_iff {names : List Text} :
    shownNames names = names ↔ ∀ name ∈ names.dropLast, name.length < maxTableNameSize := by
  induction names with
  | nil => simp [shownNames]
  | cons name names ih =>
    cases names with
    | nil =>
      rw [shownNames]
      split <;> simp [shownNames]
    | cons other names =>
      rw [shownNames, List.dropLast_cons_of_ne_nil (List.cons_ne_nil _ _), List.forall_mem_cons]
      split
      case isTrue hlt =>
        rw [List.cons.injEq, ih]
        simp [hlt]
      case isFalse hge =>
        simp [hge]

theorem catalogText_eq {database : Database} (hne : database ≠ [])
    (hvalid : ∀ t ∈ database, ValidName t.name) {buffer : List UInt8}
    (hbuffer : buffer.length = catalogBufferSize) :
    (catalogSize (database.map (·.name)) ≤ catalogBufferSize →
      catalogText buffer database = .ok (shownText (database.map (·.name)))) ∧
    (catalogBufferSize < catalogSize (database.map (·.name)) →
      catalogText buffer database = .error .outOfBounds) := by
  have hnames : ∀ name ∈ database.map (·.name), ValidName name := by simpa using hvalid
  have hne' : database.map (·.name) ≠ [] := by simpa using hne
  have hprint := printLines_eq_ok hne' (fun name h => (hnames name h).fits) [] buffer
  simp only [List.nil_append, List.length_nil, hbuffer] at hprint
  constructor
  · intro hsize
    obtain ⟨tail, hlines, hzero⟩ := hprint.1 hsize
    rw [catalogText, hlines, Checked.ok_bind, printString_cells hne' hnames hzero]
  · intro hsize
    rw [catalogText, hprint.2 hsize]
    rfl

/-- When the file that is written gives the list back. -/
theorem roundTrips_iff {database : Database} (hvalid : ∀ t ∈ database, ValidName t.name) :
    RoundTrips database ↔ CatalogFits (database.map (·.name)) := by
  have hnames : ∀ name ∈ database.map (·.name), ValidName name := by simpa using hvalid
  by_cases hnil : database = []
  · subst hnil
    refine ⟨fun h => ?_, fun h => absurd rfl h.nonempty⟩
    -- Without a table the array is printed as it is, here without a NUL in it.
    obtain ⟨buffer, hbuffer, hone⟩ : ∃ buffer : List UInt8,
        buffer.length = catalogBufferSize ∧ 0 ∉ buffer := by
      refine ⟨List.replicate catalogBufferSize 1, List.length_replicate, ?_⟩
      rw [List.mem_replicate]
      exact fun h => absurd h.2 (by decide)
    obtain ⟨file, _, hfile, -⟩ := h buffer hbuffer
      fun name => ({ tableName := name, columns := [] }, [])
    have hprint : printString buffer = .ok file := hfile
    rw [printString, if_neg hone] at hprint
    cases hprint
  have hne' : database.map (·.name) ≠ [] := by simpa using hnil
  have hload : ∀ schemas, databaseLoad (fun name => .ok (schemas name))
      (shownText (database.map (·.name)))
      = .ok (.ok ((shownNames (database.map (·.name))).map (loadedTable schemas))) := fun schemas =>
    loadTables_shownText hnames schemas (Nat.lt_succ_self _)
  have hloaded : ∀ schemas, ((shownNames (database.map (·.name))).map (loadedTable schemas)).map
      (·.name) = shownNames (database.map (·.name)) := fun schemas => by
    simp [Function.comp_def, loadedTable]
  constructor
  · intro h
    have hbuffer : (List.replicate catalogBufferSize (0 : UInt8)).length = catalogBufferSize :=
      List.length_replicate ..
    obtain ⟨file, loaded, hfile, hrun, hmap⟩ := h _ hbuffer
      fun name => ({ tableName := name, columns := [] }, [])
    obtain ⟨hwritten, hover⟩ := catalogText_eq hnil hvalid hbuffer
    have hsize : catalogSize (database.map (·.name)) ≤ catalogBufferSize := by
      by_contra hsize
      rw [hover (by omega)] at hfile
      cases hfile
    refine ⟨hne', ?_, hsize⟩
    rw [hwritten hsize] at hfile
    cases hfile
    rw [hload] at hrun
    cases hrun
    rw [hloaded] at hmap
    exact shownNames_eq_iff.1 hmap
  · intro h buffer hbuffer schemas
    refine ⟨_, _, (catalogText_eq hnil hvalid hbuffer).1 h.size, hload schemas, ?_⟩
    rw [hloaded, shownNames_eq_iff.2 h.short]

end Maxql
