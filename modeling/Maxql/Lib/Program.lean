import Mathlib.Data.List.Basic
import Mathlib.Data.List.Induction

/-!
# Programs over a state that can fault

A program reads and writes a state and either returns a value or faults.  A
fault stands for what the language leaves undefined (an access outside an
array, a pointer that points to nothing, a read of memory nobody wrote) and
for a loop that uses up its fuel.  `Runs p s a s'` is the big-step judgement:
`p` started in `s` returns `a` and leaves `s'`.  `Faults p s` is its negative
counterpart.  The rules below take a program apart at its binds, so a proof
about a program follows the lines of the program.
-/

namespace Program

/-- The ways in which a run goes wrong. -/
inductive Fault where
  /-- An index at or past the end of an array. -/
  | outOfBounds
  /-- A null pointer, a freed cell or an address that was never handed out. -/
  | badAddress
  /-- A value read before anything was written to it. -/
  | uninitialised
  /-- A fill or copy whose length wraps below zero. -/
  | badLength
  /-- A member of a union read after another one was written. -/
  | wrongMember
  /-- An assertion that does not hold. -/
  | failedAssert
  /-- A loop or a recursion that uses up its fuel. -/
  | outOfFuel
  deriving DecidableEq, Repr

/-- A computation without a state that can fault. -/
abbrev Checked (α : Type) := Except Fault α

/-- A program over the state `σ`. -/
abbrev Prog (σ α : Type) := StateT σ Checked α

@[simp] theorem Checked.ok_bind {α β : Type} (a : α) (f : α → Checked β) :
    (Except.ok a >>= f : Checked β) = f a := rfl

@[simp] theorem Checked.error_bind {α β : Type} (e : Fault)
    (f : α → Checked β) : (Except.error e >>= f : Checked β) = .error e := rfl

theorem bind_eq_ok {ε α β : Type} {x : Except ε α} {f : α → Except ε β} {b : β} :
    x >>= f = .ok b ↔ ∃ a, x = .ok a ∧ f a = .ok b := by
  cases x with
  | error e => exact ⟨fun h => (by cases h), fun ⟨_, h, _⟩ => (by cases h)⟩
  | ok a => exact ⟨fun h => ⟨a, rfl, h⟩, fun ⟨_, h, hf⟩ => (by cases h; exact hf)⟩

theorem Checked.bind_eq_ok {α β : Type} {x : Checked α} {f : α → Checked β} {b : β} :
    x >>= f = .ok b ↔ ∃ a, x = .ok a ∧ f a = .ok b := Program.bind_eq_ok

/-- A loop over a list that collects what it gets for every element. -/
theorem mapM_eq_ok {ε α β : Type} {f : α → Except ε β} : ∀ {xs : List α} {ys : List β},
    xs.mapM f = .ok ys ↔ List.Forall₂ (fun x y => f x = .ok y) xs ys
  | [], ys => by
    rw [List.mapM_nil]
    exact ⟨fun h => (by cases h; exact .nil), fun h => (by cases h; rfl)⟩
  | x :: xs, ys => by
    rw [List.mapM_cons, bind_eq_ok]
    constructor
    · rintro ⟨y, hy, h⟩
      obtain ⟨zs, hzs, h⟩ := bind_eq_ok.1 h
      cases h
      exact .cons hy (mapM_eq_ok.1 hzs)
    · intro h
      cases h with
      | cons hy hys => exact ⟨_, hy, bind_eq_ok.2 ⟨_, mapM_eq_ok.2 hys, rfl⟩⟩

/-- A loop whose results have a property each. -/
theorem exists_mapM_iff {ε α β : Type} {f : α → Except ε β} {S : α → β → Prop} {xs : List α} :
    (∃ ys, xs.mapM f = .ok ys ∧ List.Forall₂ S xs ys) ↔ ∀ x ∈ xs, ∃ y, f x = .ok y ∧ S x y := by
  simp only [mapM_eq_ok]
  induction xs with
  | nil => exact ⟨fun _ x hx => absurd hx List.not_mem_nil, fun _ => ⟨[], .nil, .nil⟩⟩
  | cons x xs ih =>
    rw [List.forall_mem_cons, ← ih]
    constructor
    · rintro ⟨ys, hf, hS⟩
      cases hf with
      | cons hfy hf =>
        cases hS with
        | cons hSy hS => exact ⟨⟨_, hfy, hSy⟩, _, hf, hS⟩
    · rintro ⟨⟨y, hfy, hSy⟩, ys, hf, hS⟩
      exact ⟨y :: ys, .cons hfy hf, .cons hSy hS⟩

section Rules

variable {σ α β : Type}

/-- `p` started in `s` returns `a` and leaves the state `s'`. -/
def Runs (p : Prog σ α) (s : σ) (a : α) (s' : σ) : Prop :=
  p.run s = .ok (a, s')

/-- `p` started in `s` goes wrong. -/
def Faults (p : Prog σ α) (s : σ) : Prop :=
  ∃ f, p.run s = .error f

theorem Runs.pure (a : α) (s : σ) : Runs (pure a : Prog σ α) s a s := rfl

theorem Runs.bind {p : Prog σ α} {f : α → Prog σ β} {s s' s'' : σ} {a : α}
    {b : β} (hp : Runs p s a s') (hf : Runs (f a) s' b s'') :
    Runs (p >>= f) s b s'' := by
  unfold Runs at *
  rw [StateT.run_bind, hp]
  exact hf

/-- A sequence that returns has run both of its parts. -/
theorem Runs.exists_of_bind {p : Prog σ α} {f : α → Prog σ β} {s s'' : σ} {b : β}
    (h : Runs (p >>= f) s b s'') : ∃ a s', Runs p s a s' ∧ Runs (f a) s' b s'' := by
  unfold Runs at *
  rw [StateT.run_bind] at h
  obtain ⟨⟨a, s'⟩, hp, hf⟩ := bind_eq_ok.1 h
  exact ⟨a, s', hp, hf⟩

/-- A stateless computation that succeeds leaves the state alone. -/
theorem Runs.lift {x : Checked α} {a : α} (h : x = .ok a) (s : σ) :
    Runs (liftM x : Prog σ α) s a s := by
  subst h; rfl

theorem Runs.get (s : σ) : Runs (get : Prog σ σ) s s s := rfl

theorem Runs.modify (f : σ → σ) (s : σ) :
    Runs (modify f : Prog σ PUnit) s ⟨⟩ (f s) := rfl

theorem Runs.ite_pos {c : Prop} [Decidable c] {p q : Prog σ α} {s s' : σ}
    {a : α} (hc : c) (h : Runs p s a s') : Runs (if c then p else q) s a s' := by
  rwa [if_pos hc]

theorem Runs.ite_neg {c : Prop} [Decidable c] {p q : Prog σ α} {s s' : σ}
    {a : α} (hc : ¬c) (h : Runs q s a s') : Runs (if c then p else q) s a s' := by
  rwa [if_neg hc]

/-- A program has at most one outcome. -/
theorem Runs.unique {p : Prog σ α} {s s₁ s₂ : σ} {a₁ a₂ : α}
    (h₁ : Runs p s a₁ s₁) (h₂ : Runs p s a₂ s₂) : a₁ = a₂ ∧ s₁ = s₂ := by
  have h : (Except.ok (a₁, s₁) : Checked (α × σ)) = .ok (a₂, s₂) :=
    h₁.symm.trans h₂
  simpa using h

/-- What is left of a sequence whose first part is known. -/
theorem Runs.rest {p : Prog σ α} {f : α → Prog σ β} {s s' s'' : σ} {a : α} {b : β}
    (hp : Runs p s a s') (h : Runs (p >>= f) s b s'') : Runs (f a) s' b s'' := by
  obtain ⟨a', s₁, hp', hf⟩ := h.exists_of_bind
  obtain ⟨rfl, rfl⟩ := hp.unique hp'
  exact hf

/-- A first part whose run is known can be left out. -/
theorem Runs.run_bind {p : Prog σ α} {f : α → Prog σ β} {s s' : σ} {a : α} (h : Runs p s a s') :
    (p >>= f).run s = (f a).run s' := by
  unfold Runs at h
  rw [StateT.run_bind, h]
  rfl

theorem Runs.eq_of_lift {x : Checked α} {s s' : σ} {a : α}
    (h : Runs (liftM x : Prog σ α) s a s') : x = .ok a ∧ s = s' := by
  cases x with
  | error e => cases h
  | ok b =>
    obtain ⟨rfl, rfl⟩ := (Runs.lift rfl s).unique h
    exact ⟨rfl, rfl⟩

/-- Every run of `p` leaves a state that `R` allows for the one it started in. -/
def Within (R : σ → σ → Prop) (p : Prog σ α) : Prop :=
  ∀ ⦃s a s'⦄, Runs p s a s' → R s s'

theorem Within.pure {R : σ → σ → Prop} [Std.Refl R] (a : α) :
    Within R (Pure.pure a : Prog σ α) := by
  intro s b s' h
  cases h
  exact Std.Refl.refl s

theorem Within.lift {R : σ → σ → Prop} [Std.Refl R] (x : Checked α) :
    Within R (liftM x : Prog σ α) := by
  intro s a s' h
  rw [(Runs.eq_of_lift h).2]
  exact Std.Refl.refl s'

theorem Within.get {R : σ → σ → Prop} [Std.Refl R] : Within R (MonadState.get : Prog σ σ) := by
  intro s a s' h
  cases h
  exact Std.Refl.refl s

theorem Within.bind {R : σ → σ → Prop} [IsTrans σ R] {p : Prog σ α} {f : α → Prog σ β}
    (hp : Within R p) (hf : ∀ a, Within R (f a)) : Within R (p >>= f) := by
  intro s b s'' h
  obtain ⟨a, s', hrun, hrest⟩ := h.exists_of_bind
  exact IsTrans.trans s s' s'' (hp hrun) (hf a hrest)

/-- A program whose result is known has a run. -/
theorem exists_runs {p : Prog σ α} {s : σ} {a : α} (h : (p.run s).map Prod.fst = .ok a) :
    ∃ s', Runs p s a s' := by
  cases hrun : p.run s with
  | error e =>
    rw [hrun] at h
    cases h
  | ok r =>
    rw [hrun] at h
    cases h
    exact ⟨r.2, hrun⟩

/-- Every run that returns an error leaves a state in `I`. -/
def OnError {ε : Type} (p : Prog σ (Except ε α)) (s : σ) (I : σ → Prop) : Prop :=
  ∀ e s', Runs p s (.error e) s' → I s'

theorem onError_of_error {ε : Type} {p : Prog σ (Except ε α)} {s s' : σ} {e : ε} {I : σ → Prop}
    (h : Runs p s (.error e) s') : OnError p s I ↔ I s' := by
  constructor
  · exact fun hall => hall e s' h
  · intro hI e' s'' h'
    rwa [(h'.unique h).2]

/-- What is left of a program whose first part is known decides. -/
theorem onError_of_runs {ε : Type} {p : Prog σ β} {f : β → Prog σ (Except ε α)} {s s' : σ} {b : β}
    {I : σ → Prop} (h : Runs p s b s') : OnError (p >>= f) s I ↔ OnError (f b) s' I := by
  constructor
  · exact fun hall e s'' hrest => hall e s'' (h.bind hrest)
  · exact fun hall e s'' hrun => hall e s'' (h.rest hrun)

/-- A part that fails ends the program. -/
theorem onError_of_fails {ε : Type} {p : Prog σ (Except ε β)} {f : Except ε β → Prog σ (Except ε α)}
    {s s' : σ} {e : ε} {I : σ → Prop} (h : Runs p s (.error e) s')
    (hf : f (.error e) = Pure.pure (.error e)) : OnError (p >>= f) s I ↔ I s' := by
  rw [onError_of_runs h, hf, onError_of_error (Runs.pure _ _)]

theorem OnError.lift {ε : Type} {x : Checked β} {f : β → Prog σ (Except ε α)} {s : σ} {I : σ → Prop}
    (hf : ∀ b, x = .ok b → OnError (f b) s I) : OnError (liftM x >>= f) s I := by
  intro e s'' hrun
  obtain ⟨b, s', hfirst, hrest⟩ := hrun.exists_of_bind
  obtain ⟨hx, rfl⟩ := hfirst.eq_of_lift
  exact hf b hx e s'' hrest

/-- A program that ends without an error. -/
theorem onError_bind_ok {ε : Type} (p : Prog σ β) (a : α) (s : σ) (I : σ → Prop) :
    OnError (p >>= fun _ => Pure.pure (Except.ok a : Except ε α)) s I := by
  intro e s'' hrun
  obtain ⟨b, s', -, hrest⟩ := hrun.exists_of_bind
  cases hrest

theorem OnError.bind {ε : Type} {p : Prog σ β} {f : β → Prog σ (Except ε α)} {s : σ}
    {I : σ → Prop} (hf : ∀ b s', OnError (f b) s' I) : OnError (p >>= f) s I := by
  intro e s'' hrun
  obtain ⟨b, s', -, hrest⟩ := hrun.exists_of_bind
  exact hf b s' e s'' hrest

/-- A program over the first part of the state. -/
def onFst {τ : Type} (p : Prog σ α) : Prog (σ × τ) α := do
  let (s, t) ← get
  let (a, s) ← p.run s
  set (s, t)
  return a

/-- A program over the second part of the state. -/
def onSnd {τ : Type} (p : Prog τ α) : Prog (σ × τ) α := do
  let (s, t) ← get
  let (a, t) ← p.run t
  set (s, t)
  return a

theorem Runs.onFst {τ : Type} {p : Prog σ α} {s s' : σ} {a : α} (h : Runs p s a s') (t : τ) :
    Runs (Program.onFst p) (s, t) a (s', t) :=
  Runs.bind (Runs.get (s, t)) (Runs.bind (Runs.lift h (s, t)) rfl)

theorem Runs.onSnd {τ : Type} {p : Prog τ α} {t t' : τ} {a : α} (h : Runs p t a t') (s : σ) :
    Runs (Program.onSnd p) (s, t) a (s, t') :=
  Runs.bind (Runs.get (s, t)) (Runs.bind (Runs.lift h (s, t)) rfl)

/-- A run over the first part leaves the second alone. -/
theorem Runs.of_onFst {τ : Type} {p : Prog σ α} {s : σ} {t : τ} {a : α} {r : σ × τ}
    (h : Runs (Program.onFst p) (s, t) a r) : Runs p s a r.1 ∧ r.2 = t := by
  obtain ⟨⟨b, s'⟩, _, hrun, hrest⟩ := (Runs.rest (Runs.get (s, t)) h).exists_of_bind
  obtain ⟨hp, rfl⟩ := hrun.eq_of_lift
  cases hrest
  exact ⟨hp, rfl⟩

/-- A run over the second part leaves the first alone. -/
theorem Runs.of_onSnd {τ : Type} {p : Prog τ α} {s : σ} {t : τ} {a : α} {r : σ × τ}
    (h : Runs (Program.onSnd p) (s, t) a r) : Runs p t a r.2 ∧ r.1 = s := by
  obtain ⟨⟨b, t'⟩, _, hrun, hrest⟩ := (Runs.rest (Runs.get (s, t)) h).exists_of_bind
  obtain ⟨hp, rfl⟩ := hrun.eq_of_lift
  cases hrest
  exact ⟨hp, rfl⟩

end Rules

/-! ## Checked arrays

An array is the list of its slots.  Every access names its index and faults
when the index is not a slot. -/

section Arrays

variable {α : Type}

/-- The value in slot `i`. -/
def readAt (xs : List α) (i : Nat) : Checked α :=
  match xs[i]? with
  | some a => .ok a
  | none => .error .outOfBounds

/-- The array with `a` in slot `i`. -/
def writeAt (xs : List α) (i : Nat) (a : α) : Checked (List α) :=
  if i < xs.length then .ok (xs.set i a) else .error .outOfBounds

/-- `memcpy` and `memmove` of `n` slots, from slot `s` of `src` to slot `d` of
`dst`.  The source is read as a whole before anything is written, so `src` and
`dst` may be the same array. -/
def copySlots (dst : List α) (d : Nat) (src : List α) (s n : Nat) :
    Checked (List α) :=
  if s + n ≤ src.length ∧ d + n ≤ dst.length then
    .ok (dst.take d ++ (src.drop s).take n ++ dst.drop (d + n))
  else
    .error .outOfBounds

/-- The loop `for (j = lo + n; j > lo; j--) xs[j] = xs[j - 1]`. -/
def shiftUp (xs : List α) (lo : Nat) : Nat → Checked (List α)
  | 0 => .ok xs
  | n + 1 => do
    let x ← readAt xs (lo + n)
    let xs ← writeAt xs (lo + n + 1) x
    shiftUp xs lo n

theorem readAt_append_cons (pre post : List α) (a : α) :
    readAt (pre ++ a :: post) pre.length = .ok a := by
  simp [readAt]

theorem readAt_of_getElem? {xs : List α} {i : Nat} {a : α}
    (h : xs[i]? = some a) : readAt xs i = .ok a := by
  simp [readAt, h]

theorem readAt_map {β : Type} {xs : List α} {i : Nat} {a : α} (h : xs[i]? = some a) (f : α → β) :
    readAt (xs.map f) i = .ok (f a) := by
  simp [readAt, h]

theorem writeAt_append_cons (pre post : List α) (a b : α) :
    writeAt (pre ++ a :: post) pre.length b = .ok (pre ++ b :: post) := by
  simp [writeAt]

/-- A copy with its source and its target cut at the copied part. -/
theorem copySlots_parts (pre old post srcPre new srcPost : List α)
    (h : old.length = new.length) :
    copySlots (pre ++ old ++ post) pre.length (srcPre ++ new ++ srcPost)
      srcPre.length new.length = .ok (pre ++ new ++ post) := by
  have hsrc : srcPre.length + new.length ≤ (srcPre ++ new ++ srcPost).length := by
    simp
  have hdst : pre.length + new.length ≤ (pre ++ old ++ post).length := by
    simp; omega
  rw [copySlots, if_pos ⟨hsrc, hdst⟩]
  have hdrop : (pre ++ old ++ post).drop (pre.length + new.length) = post := by
    rw [← h]
    simp
  have hnew : ((srcPre ++ new ++ srcPost).drop srcPre.length).take new.length
      = new := by
    simp
  rw [hdrop, hnew]
  simp

theorem copySlots_of_le {dst src : List α} {d s n : Nat} (hs : s + n ≤ src.length)
    (hd : d + n ≤ dst.length) :
    copySlots dst d src s n
      = .ok (dst.take d ++ (src.drop s).take n ++ dst.drop (d + n)) :=
  if_pos ⟨hs, hd⟩

/-- A copy to the front of an array. -/
theorem copySlots_front {dst src : List α} {s n : Nat} (hs : s + n ≤ src.length)
    (hd : n ≤ dst.length) :
    copySlots dst 0 src s n = .ok ((src.drop s).take n ++ dst.drop n) := by
  rw [copySlots_of_le hs (by omega)]
  simp

/-- The shift doubles the slot at `lo` and pushes the slots behind it up by
one; the slot behind the shifted part is overwritten. -/
theorem shiftUp_parts (pre : List α) (a : α) (mid : List α) (last : α)
    (post : List α) :
    shiftUp (pre ++ a :: (mid ++ last :: post)) pre.length (mid.length + 1)
      = .ok (pre ++ a :: a :: (mid ++ post)) := by
  induction mid using List.reverseRecOn generalizing last post with
  | nil =>
    rw [shiftUp, Nat.add_zero]
    have hr : readAt (pre ++ a :: ([] ++ last :: post)) (pre.length) = .ok a :=
      readAt_append_cons pre _ a
    have hw : writeAt (pre ++ a :: ([] ++ last :: post)) (pre.length + 1) a
        = .ok (pre ++ a :: a :: post) := by
      have := writeAt_append_cons (pre ++ [a]) post last a
      simpa using this
    simp only [List.length_nil, Nat.add_zero, hr, hw, Checked.ok_bind]
    rfl
  | append_singleton mid x ih =>
    have hlen : (mid ++ [x]).length + 1 = (mid.length + 1) + 1 := by simp
    have hr : readAt (pre ++ a :: (mid ++ [x] ++ last :: post))
        (pre.length + (mid.length + 1)) = .ok x := by
      have := readAt_append_cons (pre ++ a :: mid) (last :: post) x
      simpa [Nat.add_assoc] using this
    have hw : writeAt (pre ++ a :: (mid ++ [x] ++ last :: post))
        (pre.length + (mid.length + 1) + 1) x
        = .ok (pre ++ a :: (mid ++ x :: x :: post)) := by
      have := writeAt_append_cons (pre ++ a :: (mid ++ [x])) post last x
      simpa [Nat.add_assoc] using this
    rw [hlen, shiftUp, hr, Checked.ok_bind, hw, Checked.ok_bind]
    simpa using ih x (x :: post)

/-- Opening a gap at `lo` and writing `v` into it inserts `v`; the slot behind
the `count` used ones is the one that is given up. -/
theorem shiftUp_insert (pre mid : List α) (v last : α) (post : List α) :
    (shiftUp (pre ++ (mid ++ last :: post)) pre.length mid.length >>=
      fun xs => writeAt xs pre.length v) = .ok (pre ++ v :: (mid ++ post)) := by
  cases mid with
  | nil =>
    have hw := writeAt_append_cons pre post last v
    simpa [shiftUp] using hw
  | cons a mid =>
    have hs := shiftUp_parts pre a mid last post
    have hw := writeAt_append_cons pre (a :: (mid ++ post)) a v
    simp only [List.cons_append, List.length_cons] at hs ⊢
    rw [hs, Checked.ok_bind]
    simpa using hw

/-- Moving the used part of an array up by one frees its first slot. -/
theorem copySlots_prepend (used : List α) (j : α) (junk : List α) (v : α) :
    ∃ ys, copySlots (used ++ j :: junk) 1 (used ++ j :: junk) 0 used.length = .ok ys ∧
      writeAt ys 0 v = .ok (v :: (used ++ junk)) := by
  cases used with
  | nil => exact ⟨j :: junk, rfl, rfl⟩
  | cons a used =>
    refine ⟨a :: (a :: used ++ junk), ?_, rfl⟩
    have hdrop : (a :: used ++ j :: junk).drop (1 + (a :: used).length) = junk := by
      simp [Nat.add_comm 1]
    rw [copySlots_of_le (by simp) (by simp; omega), hdrop]
    simp

/-- Moving the tail of the used part down by one removes a slot from it. -/
theorem copySlots_remove (pre : List α) (x : α) (mid junk : List α) :
    ∃ last, copySlots (pre ++ x :: (mid ++ junk)) pre.length (pre ++ x :: (mid ++ junk))
        (pre.length + 1) mid.length = .ok (pre ++ (mid ++ last :: junk)) := by
  obtain ⟨init, last, hinit⟩ : ∃ init last, x :: mid = init ++ [last] :=
    ⟨_, _, (List.dropLast_append_getLast (List.cons_ne_nil x mid)).symm⟩
  have hlen : init.length = mid.length := by
    have := congrArg List.length hinit
    simpa using this.symm
  have hxs : pre ++ x :: (mid ++ junk) = pre ++ init ++ last :: junk := by
    rw [← List.cons_append, hinit]
    simp
  have hsrc : pre ++ x :: (mid ++ junk) = (pre ++ [x]) ++ mid ++ junk := by simp
  have hcopy := copySlots_parts pre init (last :: junk) (pre ++ [x]) mid junk hlen
  have hpre : (pre ++ [x]).length = pre.length + 1 := by simp
  rw [← hxs, ← hsrc, hpre] at hcopy
  exact ⟨last, by simpa using hcopy⟩

end Arrays

end Program
