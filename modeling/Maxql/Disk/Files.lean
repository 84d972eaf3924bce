import Maxql.Database.Catalog
import Maxql.Index.IndexSet

/-!
# Files

The files of a database and `src/lib/fs.c`.  A database has a catalog, and for
each table a schema file, a data file and a file for each index.  An index file
holds the index whose tree was saved, or no byte where that tree had no root;
the other files hold their bytes.

A file operation (`fopen` or `remove`) can fail although the file is there, so
the state says how many operations go through before one fails.

The groups are the names, the state, the operations and their rules.

* `FileName.path_injective`: no two files have one path;
* `fopen_runs`, `removeFile_runs`: what an operation does;
* `Quiet`: a program that changes nothing while no operation fails.
-/

namespace Maxql.Disk

open Program Bytes

/-! ## Names -/

inductive FileName where
  | catalog
  | schema (tableName : Text)
  | data (tableName : Text)
  | index (tableName indexName : Text)
  deriving DecidableEq, Repr

/-- The name that the file has on disk. -/
def FileName.path : FileName → Text
  | .catalog => text "maxql.catalog"
  | .schema tableName => tableName ++ text ".schema"
  | .data tableName => tableName ++ text ".data"
  | .index tableName indexName => tableName ++ text "-" ++ indexName ++ text ".idx"

/-- What a file holds. -/
abbrev FileName.Contents : FileName → Type
  | .catalog => List UInt8
  | .schema _ => List UInt8
  | .data _ => List UInt8
  | .index _ _ => Option KeyMap

/-- A file without a byte. -/
def FileName.empty : (file : FileName) → file.Contents
  | .catalog => ([] : List UInt8)
  | .schema _ => ([] : List UInt8)
  | .data _ => ([] : List UInt8)
  | .index _ _ => (none : Option KeyMap)

/-- Its names are identifiers. -/
def FileName.Plain : FileName → Prop
  | .catalog => True
  | .schema tableName => isIdentifier tableName = true
  | .data tableName => isIdentifier tableName = true
  | .index tableName indexName => isIdentifier tableName = true ∧ isIdentifier indexName = true

def dot : UInt8 := 46
def dash : UInt8 := 45

/-- A name is what stands in front of the first mark. -/
theorem append_mark_inj {c : UInt8} {a b x y : Text} (ha : c ∉ a) (hb : c ∉ b)
    (h : a ++ c :: x = b ++ c :: y) : a = b ∧ x = y := by
  induction a generalizing b with
  | nil =>
    cases b with
    | nil => exact ⟨rfl, (List.cons.inj h).2⟩
    | cons d b => exact absurd (List.mem_cons.2 (.inl (List.cons.inj h).1)) hb
  | cons d a ih =>
    cases b with
    | nil => exact absurd (List.mem_cons.2 (.inl (List.cons.inj h).1.symm)) ha
    | cons e b =>
      obtain ⟨hhead, htail⟩ := List.cons.inj h
      obtain ⟨hab, hxy⟩ := ih (fun h => ha (List.mem_cons_of_mem _ h))
        (fun h => hb (List.mem_cons_of_mem _ h)) htail
      exact ⟨by rw [hhead, hab], hxy⟩

/-- The path in front of its dot. -/
def FileName.stem : FileName → Text
  | .catalog => text "maxql"
  | .schema tableName => tableName
  | .data tableName => tableName
  | .index tableName indexName => tableName ++ dash :: indexName

/-- The path behind its dot. -/
def FileName.extension : FileName → Text
  | .catalog => text "catalog"
  | .schema _ => text "schema"
  | .data _ => text "data"
  | .index _ _ => text "idx"

theorem FileName.path_eq (file : FileName) : file.path = file.stem ++ dot :: file.extension := by
  cases file with
  | catalog => rfl
  | schema | data => rfl
  | index tableName indexName =>
    rw [path, stem, extension, List.append_assoc, List.append_assoc, List.append_assoc]
    rfl

theorem FileName.Plain.dot_not_mem {file : FileName} (h : file.Plain) : dot ∉ file.stem := by
  cases file with
  | catalog => decide
  | schema | data => exact isIdentifier_not_mem h rfl
  | index tableName indexName =>
    rw [stem, List.mem_append, List.mem_cons, not_or, not_or]
    exact ⟨isIdentifier_not_mem h.1 rfl, by decide, isIdentifier_not_mem h.2 rfl⟩

/-- No two files have one path. -/
theorem FileName.path_injective {file other : FileName} (h : file.Plain) (h' : other.Plain)
    (hpath : file.path = other.path) : file = other := by
  rw [path_eq, path_eq] at hpath
  obtain ⟨hstem, hextension⟩ := append_mark_inj h.dot_not_mem h'.dot_not_mem hpath
  cases file <;> cases other <;> try cases hextension
  case catalog => rfl
  case schema => exact congrArg schema hstem
  case data => exact congrArg data hstem
  case index tableName indexName tableName' indexName' =>
    obtain ⟨htable, hindex⟩ := append_mark_inj (c := dash) (isIdentifier_not_mem h.1 rfl)
      (isIdentifier_not_mem h'.1 rfl) hstem
    rw [htable, hindex]

/-! ## The state -/

structure World where
  tables : Database
  files : (file : FileName) → Option file.Contents
  /-- How many file operations go through before one fails, if one does. -/
  failsIn : Option Nat

/-- The state with other contents of a file, or without the file. -/
def World.put (w : World) (file : FileName) (contents : Option file.Contents) : World :=
  { w with files := Function.update w.files file contents }

/-- The state when the next file operation has been tried. -/
def World.tick (w : World) : World :=
  { w with failsIn := match w.failsIn with
    | some (n + 1) => some n
    | _ => none }

@[simp] theorem World.put_tables (w : World) (file : FileName) (contents : Option file.Contents) :
    (w.put file contents).tables = w.tables := rfl

@[simp] theorem World.put_failsIn (w : World) (file : FileName) (contents : Option file.Contents) :
    (w.put file contents).failsIn = w.failsIn := rfl

@[simp] theorem World.put_files_self (w : World) (file : FileName)
    (contents : Option file.Contents) : (w.put file contents).files file = contents := by
  simp [put]

theorem World.put_files_of_ne (w : World) {file other : FileName} (h : other ≠ file)
    (contents : Option file.Contents) : (w.put file contents).files other = w.files other := by
  simp [put, h]

@[simp] theorem World.put_put (w : World) (file : FileName) (c d : Option file.Contents) :
    (w.put file c).put file d = w.put file d := by
  simp [put]

@[simp] theorem World.tick_tables (w : World) : w.tick.tables = w.tables := rfl

@[simp] theorem World.tick_files (w : World) : w.tick.files = w.files := rfl

theorem World.tick_failsIn_eq_some {w : World} {n : Nat} :
    w.tick.failsIn = some n ↔ w.failsIn = some (n + 1) := by
  unfold tick
  cases w.failsIn with
  | none => simp
  | some k => cases k <;> simp

theorem World.tick_failsIn_zero {w : World} (h : w.failsIn = some 0) : w.tick.failsIn = none := by
  rw [tick, h]

/-- Where no operation fails, trying one changes nothing. -/
theorem World.tick_of_none {w : World} (h : w.failsIn = none) : w.tick = w := by
  cases w
  cases h
  rfl

/-! ## Operations -/

/-- `"r"`, `"r+"`, `"w"` and `"wx"` -/
inductive OpenMode where
  | read | update | write | create
  deriving DecidableEq, Repr

/-- What `fopen` returns. -/
inductive Stream (file : FileName) where
  | null | opened
  deriving DecidableEq, Repr

/-- Whether the next file operation goes through. -/
def fileOperation : Prog World Bool := do
  let w ← get
  set w.tick
  return w.failsIn != some 0

/-- `"r"` and `"r+"` need the file, `"wx"` creates it, `"w"` empties or creates it. -/
def fopen (file : FileName) (mode : OpenMode) : Prog World (Stream file) := do
  let goes ← fileOperation
  let w ← get
  if !goes then return .null
  else
    match mode with
    | .read | .update => return if (w.files file).isSome then .opened else .null
    | .write =>
      set (w.put file (some file.empty))
      return .opened
    | .create =>
      if (w.files file).isSome then return .null
      else
        set (w.put file (some file.empty))
        return .opened

/-- `remove(file) == 0` -/
def removeFile (file : FileName) : Prog World Bool := do
  let goes ← fileOperation
  let w ← get
  if !goes || (w.files file).isNone then return false
  else
    set (w.put file none)
    return true

/-- `open_file`: the stream and the error. -/
def openFile (file : FileName) (mode : OpenMode) (code : ErrorCode) (msg : Text) :
    Prog World (Stream file × Except Error Unit) := do
  match ← fopen file mode with
  | .null => return (.null, errorFmt code msg)
  | .opened => return (.opened, .ok ())

/-- `delete_file` -/
def deleteFile (file : FileName) (code : ErrorCode) (msg : Text) :
    Prog World (Except Error Unit) := do
  if ← removeFile file then return .ok ()
  else return errorFmt code msg

/-- All that a stream gives.  A null stream cannot be read. -/
def Stream.contents {file : FileName} : Stream file → Prog World file.Contents
  | .null => liftM (Except.error Fault.badAddress : Checked file.Contents)
  | .opened => do
    let w ← get
    match w.files file with
    | some contents => return contents
    | none => liftM (Except.error Fault.badAddress : Checked file.Contents)

/-- What the file holds when a stream has been written and flushed. -/
def Stream.flush {file : FileName} (stream : Stream file) (contents : file.Contents) :
    Prog World Unit :=
  match stream with
  | .null => liftM (Except.error Fault.badAddress : Checked Unit)
  | .opened => modify fun w => w.put file (some contents)

/-! ## Rules -/

variable {w w' : World} {file : FileName} {mode : OpenMode}

theorem fileOperation_goes (h : w.failsIn ≠ some 0) : Runs fileOperation w true w.tick := by
  have hgoes : (w.failsIn != some 0) = true := bne_iff_ne.2 h
  rw [← hgoes]
  rfl

theorem fileOperation_fails (h : w.failsIn = some 0) : Runs fileOperation w false w.tick := by
  have hfails : (w.failsIn != some 0) = false := by rw [h]; rfl
  rw [← hfails]
  rfl

theorem fopen_fails (h : w.failsIn = some 0) : Runs (fopen file mode) w .null w.tick :=
  Runs.bind (fileOperation_fails h) rfl

theorem fopen_write (h : w.failsIn ≠ some 0) :
    Runs (fopen file .write) w .opened (w.tick.put file (some file.empty)) :=
  Runs.bind (fileOperation_goes h) rfl

theorem fopen_create (h : w.failsIn ≠ some 0) (hfile : w.files file = none) :
    Runs (fopen file .create) w .opened (w.tick.put file (some file.empty)) := by
  refine Runs.bind (fileOperation_goes h) (Runs.bind (Runs.get _) ?_)
  refine Runs.ite_neg (by simp) (Runs.ite_neg ?_ rfl)
  rw [World.tick_files, hfile]
  simp

theorem removeFile_fails (h : w.failsIn = some 0) : Runs (removeFile file) w false w.tick := by
  refine Runs.bind (fileOperation_fails h) (Runs.bind (Runs.get _) ?_)
  exact Runs.ite_pos rfl (Runs.pure _ _)

theorem removeFile_goes {contents : file.Contents} (h : w.failsIn ≠ some 0)
    (hfile : w.files file = some contents) :
    Runs (removeFile file) w true (w.tick.put file none) := by
  refine Runs.bind (fileOperation_goes h) (Runs.bind (Runs.get _) ?_)
  refine Runs.ite_neg ?_ rfl
  rw [World.tick_files, hfile]
  simp

theorem openFile_null {code : ErrorCode} {msg : Text} (h : Runs (fopen file mode) w .null w') :
    Runs (openFile file mode code msg) w (.null, errorFmt code msg) w' :=
  Runs.bind h rfl

theorem openFile_opened {code : ErrorCode} {msg : Text}
    (h : Runs (fopen file mode) w .opened w') :
    Runs (openFile file mode code msg) w (.opened, .ok ()) w' :=
  Runs.bind h rfl

/-- A file that is removed is gone, unless the operation fails, and no other file is touched. -/
theorem removeFile_spec (w : World) (file : FileName) : ∃ removed w₁,
    Runs (removeFile file) w removed w₁ ∧ w₁.tables = w.tables ∧ w₁.failsIn = w.tick.failsIn ∧
      (∀ other, other ≠ file → w₁.files other = w.files other) ∧
      (w.failsIn ≠ some 0 → w₁.files file = none) := by
  by_cases h : w.failsIn = some 0
  · exact ⟨false, w.tick, removeFile_fails h, rfl, rfl, fun _ _ => rfl, fun hgoes => absurd h hgoes⟩
  · cases hfile : w.files file with
    | some contents =>
      exact ⟨true, w.tick.put file none, removeFile_goes h hfile, rfl, rfl,
        fun other hother => World.put_files_of_ne _ hother _, fun _ => World.put_files_self _ _ _⟩
    | none =>
      refine ⟨false, w.tick, ?_, rfl, rfl, fun _ _ => rfl, fun _ => hfile⟩
      refine Runs.bind (fileOperation_goes h) (Runs.bind (Runs.get _) ?_)
      refine Runs.ite_pos ?_ (Runs.pure _ _)
      rw [World.tick_files, hfile]
      rfl

/-! ## Programs that read -/

/-- While no operation fails, nothing is changed. -/
def Untouched (w w' : World) : Prop := w.failsIn = none → w' = w

instance : Std.Refl Untouched := ⟨fun _ _ => rfl⟩

instance : IsTrans World Untouched where
  trans _ _ _ h h' hgoes := by
    obtain rfl := h hgoes
    exact h' hgoes

theorem fileOperation_untouched : Within Untouched fileOperation := by
  intro w goes w' hrun hgoes
  have hne : w.failsIn ≠ some 0 := by simp [hgoes]
  rw [((fileOperation_goes hne).unique hrun).2.symm, World.tick_of_none hgoes]

/-- `"r"` and `"r+"` -/
theorem fopen_untouched (file : FileName) {mode : OpenMode}
    (hmode : mode = .read ∨ mode = .update) : Within Untouched (fopen file mode) := by
  refine Within.bind fileOperation_untouched fun goes => Within.bind Within.get fun w => ?_
  cases goes with
  | false => exact Within.pure _
  | true => obtain rfl | rfl := hmode <;> exact Within.pure _

theorem openFile_untouched (file : FileName) {mode : OpenMode} (code : ErrorCode) (msg : Text)
    (hmode : mode = .read ∨ mode = .update) : Within Untouched (openFile file mode code msg) := by
  refine Within.bind (fopen_untouched file hmode) fun stream => ?_
  cases stream <;> exact Within.pure _

theorem Stream.contents_untouched {file : FileName} (stream : Stream file) :
    Within Untouched stream.contents := by
  cases stream with
  | null => exact Within.lift _
  | opened =>
    refine Within.bind Within.get fun w => ?_
    cases w.files file with
    | some contents => exact Within.pure _
    | none => exact Within.lift _

end Maxql.Disk
