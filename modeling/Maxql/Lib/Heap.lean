import Maxql.Lib.Program

/-!
# A heap of cells

The heap is the list of the cells ever handed out: an address is a position
in that list, a freed cell holds nothing, and a fresh cell goes to the end.
An address is therefore never handed out twice, which makes every access
through a stale pointer visible as a fault or as a read of the cell that the
pointer still names.
-/

namespace Program

/-- A position in the heap. -/
abbrev Addr := Nat

/-- The cells handed out so far; `none` marks a freed one. -/
structure Heap (α : Type) where
  cells : List (Option α)
  deriving DecidableEq, Repr

namespace Heap

variable {α : Type}

/-- The heap before any allocation. -/
def empty : Heap α := ⟨[]⟩

/-- The number of cells handed out so far, and the next fresh address. -/
def size (H : Heap α) : Nat := H.cells.length

/-- The contents of a live cell. -/
def get (H : Heap α) (a : Addr) : Option α := H.cells[a]?.join

/-- The heap with the cell at `a` overwritten. -/
def put (H : Heap α) (a : Addr) (x : Option α) : Heap α := ⟨H.cells.set a x⟩

/-- The heap with one more cell. -/
def push (H : Heap α) (x : α) : Heap α := ⟨H.cells ++ [some x]⟩

theorem lt_size_of_get {H : Heap α} {a : Addr} {x : α}
    (h : H.get a = some x) : a < H.size := by
  by_contra hge
  have hnone : H.cells[a]? = none :=
    List.getElem?_eq_none (Nat.le_of_not_lt hge)
  simp [get, hnone] at h

theorem get_eq_none {H : Heap α} {a : Addr} (h : H.size ≤ a) : H.get a = none := by
  unfold size at h
  simp [get, h]

@[simp] theorem size_put (H : Heap α) (a : Addr) (x : Option α) :
    (H.put a x).size = H.size := by
  simp [put, size]

@[simp] theorem size_push (H : Heap α) (x : α) :
    (H.push x).size = H.size + 1 := by
  simp [push, size]

theorem get_put_self {H : Heap α} {a : Addr} (h : a < H.size) (x : Option α) :
    (H.put a x).get a = x := by
  unfold size at h
  simp [put, get, h]

theorem get_put_ne {H : Heap α} {a b : Addr} (h : b ≠ a) (x : Option α) :
    (H.put a x).get b = H.get b := by
  simp [put, get, Ne.symm h]

theorem get_push_self (H : Heap α) (x : α) : (H.push x).get H.size = some x := by
  simp [push, get, size]

theorem get_push_ne {H : Heap α} {b : Addr} (h : b ≠ H.size) (x : α) :
    (H.push x).get b = H.get b := by
  rcases Nat.lt_trichotomy b H.cells.length with hlt | heq | hgt
  · simp [push, get, List.getElem?_append_left hlt]
  · exact absurd heq h
  · have hpush : (H.cells ++ [some x])[b]? = none := by
      rw [List.getElem?_eq_none]
      simp
      omega
    simp [push, get, hpush, List.getElem?_eq_none (Nat.le_of_lt hgt)]

end Heap

section Operations

variable {α : Type}

/-- The address behind a pointer that must not be null. -/
def deref (p : Option Addr) : Checked Addr :=
  match p with
  | some a => .ok a
  | none => .error .badAddress

/-- Read a live cell. -/
def load (a : Addr) : Prog (Heap α) α := do
  match (← get).get a with
  | some x => pure x
  | none => throw .badAddress

/-- Overwrite a live cell. -/
def store (a : Addr) (x : α) : Prog (Heap α) Unit := do
  match (← get).get a with
  | some _ => modify (·.put a (some x))
  | none => throw .badAddress

/-- Hand out a fresh cell. -/
def alloc (x : α) : Prog (Heap α) Addr := do
  let H ← get
  set (H.push x)
  pure H.size

/-- Give back a live cell. -/
def free (a : Addr) : Prog (Heap α) Unit := do
  match (← get).get a with
  | some _ => modify (·.put a none)
  | none => throw .badAddress

variable {H : Heap α} {a : Addr} {x : α}

theorem Runs.deref (a : Addr) (H : Heap α) :
    Runs (liftM (deref (some a)) : Prog (Heap α) Addr) H a H :=
  Runs.lift rfl H

theorem Runs.load (h : H.get a = some x) : Runs (load a) H x H := by
  refine Runs.bind (Runs.get H) ?_
  rw [h]
  exact Runs.pure x H

theorem Runs.store (h : H.get a = some x) (y : α) :
    Runs (store a y) H () (H.put a (some y)) := by
  refine Runs.bind (Runs.get H) ?_
  rw [h]
  exact Runs.modify _ H

theorem Runs.alloc (H : Heap α) (x : α) :
    Runs (alloc x) H H.size (H.push x) := rfl

theorem Runs.free (h : H.get a = some x) :
    Runs (free a) H () (H.put a none) := by
  refine Runs.bind (Runs.get H) ?_
  rw [h]
  exact Runs.modify _ H

theorem Faults.load (h : H.get a = none) : Faults (load a) H := by
  refine ⟨.badAddress, ?_⟩
  have hrun : (Program.load a).run H = (match H.get a with
      | some x => (pure x : Prog (Heap α) α)
      | none => throw Fault.badAddress).run H := rfl
  rw [hrun, h]
  rfl

end Operations

end Program
