import Maxql.Lib.Heap

/-!
# Programs that stay inside their arrays

`InBounds p s` says that `p`, started in `s`, does not access an array outside
its slots, whatever else may go wrong; `Overruns p s` says that it does.  Both
follow a program from bind to bind along the parts whose run is known.

`Keeps I p Q` needs no known run: from every state of the invariant `I` the
program stays inside the arrays, and where it returns, `I` holds again and the
result satisfies `Q`.  `Fine` is the same for a computation without a state.
The rules of `Keeps` follow the lines of a program, and the facts they carry
are about loaded values, so the cells of a heap need not be told apart:
`Everywhere P` is the invariant that every live cell satisfies `P`.
-/

namespace Program

section Runs

variable {σ α β : Type} {p : Prog σ α} {f : α → Prog σ β} {s s' : σ} {a : α}

/-- `p` started in `s` does not leave an array. -/
def InBounds (p : Prog σ α) (s : σ) : Prop := p.run s ≠ .error .outOfBounds

/-- `p` started in `s` leaves an array. -/
def Overruns (p : Prog σ α) (s : σ) : Prop := p.run s = .error .outOfBounds

theorem Overruns.not_inBounds (h : Overruns p s) : ¬InBounds p s := fun hin => hin h

theorem Overruns.not_runs (h : Overruns p s) : ¬Runs p s a s' := by
  intro hrun
  unfold Overruns at h
  rw [show p.run s = .ok (a, s') from hrun] at h
  cases h

theorem Runs.inBounds (h : Runs p s a s') : InBounds p s := by
  intro herr
  rw [show p.run s = .ok (a, s') from h] at herr
  cases herr

theorem Runs.overruns_bind (h : Runs p s a s') (hf : Overruns (f a) s') :
    Overruns (p >>= f) s := h.run_bind.trans hf

theorem Runs.inBounds_bind (h : Runs p s a s') (hf : InBounds (f a) s') :
    InBounds (p >>= f) s := by
  unfold InBounds
  rw [h.run_bind]
  exact hf

theorem Overruns.bind (h : Overruns p s) : Overruns (p >>= f) s := by
  unfold Overruns at *
  rw [StateT.run_bind, h]
  rfl

theorem Overruns.lift {x : Checked α} (h : x = .error .outOfBounds) (s : σ) :
    Overruns (liftM x : Prog σ α) s := by
  subst h
  rfl

theorem InBounds.bind (h : InBounds p s) (hf : ∀ a s', Runs p s a s' → InBounds (f a) s') :
    InBounds (p >>= f) s := by
  unfold InBounds at *
  rw [StateT.run_bind]
  cases hrun : p.run s with
  | error e =>
    rw [hrun] at h
    rw [Checked.error_bind]
    intro herr
    cases herr
    exact h rfl
  | ok r => exact hf r.1 r.2 hrun

end Runs

/-! ## Checked arrays -/

/-- `x` stays inside the arrays, and its result satisfies `Q`. -/
def Fine {α : Type} (x : Checked α) (Q : α → Prop) : Prop :=
  x ≠ .error .outOfBounds ∧ ∀ a, x = .ok a → Q a

section Fine

variable {α β : Type} {Q : α → Prop} {R : β → Prop}

theorem Fine.ok {a : α} (h : Q a) : Fine (.ok a) Q := by
  refine ⟨fun herr => (by cases herr), fun b hb => ?_⟩
  cases hb
  exact h

theorem Fine.of_eq {x : Checked α} {a : α} (hx : x = .ok a) (h : Q a) : Fine x Q :=
  hx ▸ Fine.ok h

theorem Fine.bind {x : Checked α} {f : α → Checked β} (hx : Fine x Q)
    (hf : ∀ a, Q a → Fine (f a) R) : Fine (x >>= f) R := by
  cases x with
  | error e =>
    refine ⟨fun herr => hx.1 ?_, fun b hb => (by cases hb)⟩
    cases herr
    rfl
  | ok a => exact hf a (hx.2 a rfl)

theorem Fine.ite {c : Prop} [Decidable c] {x y : Checked α} (hx : c → Fine x Q)
    (hy : ¬c → Fine y Q) : Fine (if c then x else y) Q := by
  by_cases hc : c
  · rw [if_pos hc]
    exact hx hc
  · rw [if_neg hc]
    exact hy hc

theorem fine_readAt {xs : List α} {i : Nat} (h : i < xs.length) :
    Fine (readAt xs i) fun _ => True :=
  Fine.of_eq (readAt_of_getElem? (List.getElem?_eq_getElem h)) trivial

theorem fine_writeAt {xs : List α} {i : Nat} (h : i < xs.length) (a : α) :
    Fine (writeAt xs i a) fun ys => ys.length = xs.length :=
  Fine.of_eq (if_pos h) (List.length_set ..)

theorem fine_copySlots {dst src : List α} {d s n : Nat} (hs : s + n ≤ src.length)
    (hd : d + n ≤ dst.length) :
    Fine (copySlots dst d src s n) fun ys => ys.length = dst.length := by
  refine Fine.of_eq (copySlots_of_le hs hd) ?_
  simp only [List.length_append, List.length_take, List.length_drop]
  omega

/-- The loop touches the slots from `lo` to `lo + n`. -/
theorem fine_shiftUp {lo : Nat} (n : Nat) {xs : List α} (h : n = 0 ∨ lo + n < xs.length) :
    Fine (shiftUp xs lo n) fun ys => ys.length = xs.length := by
  induction n generalizing xs with
  | zero => exact Fine.ok rfl
  | succ n ih =>
    have hlast : lo + n + 1 < xs.length := by omega
    refine (fine_readAt (by omega)).bind fun x _ => ?_
    refine (fine_writeAt hlast x).bind fun ys hys => ?_
    have hlow : lo + n < ys.length := by omega
    have hrest := ih (Or.inr hlow)
    rwa [hys] at hrest

end Fine

/-! ## The rules -/

section Keeps

variable {σ α β : Type} {I : σ → Prop} {Q Q' : α → Prop} {R : β → Prop}

/-- From every state of `I`, `p` stays inside the arrays, and where it returns, `I` holds
again and the result satisfies `Q`. -/
def Keeps (I : σ → Prop) (p : Prog σ α) (Q : α → Prop) : Prop :=
  ∀ s, I s → InBounds p s ∧ ∀ a s', Runs p s a s' → I s' ∧ Q a

theorem Keeps.pure {a : α} (h : Q a) : Keeps I (Pure.pure a : Prog σ α) Q := by
  intro s hs
  refine ⟨(Runs.pure a s).inBounds, fun b s' hrun => ?_⟩
  cases hrun
  exact ⟨hs, h⟩

theorem Keeps.bind {p : Prog σ α} {f : α → Prog σ β} (hp : Keeps I p Q)
    (hf : ∀ a, Q a → Keeps I (f a) R) : Keeps I (p >>= f) R := by
  intro s hs
  obtain ⟨hin, hret⟩ := hp s hs
  refine ⟨hin.bind fun a s' hrun => ?_, fun b s'' hrun => ?_⟩
  · obtain ⟨hs', ha⟩ := hret a s' hrun
    exact (hf a ha s' hs').1
  · obtain ⟨a, s', hfirst, hrest⟩ := hrun.exists_of_bind
    obtain ⟨hs', ha⟩ := hret a s' hfirst
    exact (hf a ha s' hs').2 b s'' hrest

theorem Keeps.mono {p : Prog σ α} (hp : Keeps I p Q) (hQ : ∀ a, Q a → Q' a) : Keeps I p Q' := by
  intro s hs
  obtain ⟨hin, hret⟩ := hp s hs
  exact ⟨hin, fun a s' hrun => ⟨(hret a s' hrun).1, hQ a (hret a s' hrun).2⟩⟩

theorem Keeps.lift {x : Checked α} (hx : Fine x Q) : Keeps I (liftM x : Prog σ α) Q := by
  intro s hs
  refine ⟨fun herr => ?_, fun a s' hrun => ?_⟩
  · cases x with
    | error e =>
      have he : (Except.error e : Checked (α × σ)) = .error .outOfBounds := herr
      cases he
      exact hx.1 rfl
    | ok a => cases herr
  · obtain ⟨heq, rfl⟩ := hrun.eq_of_lift
    exact ⟨hs, hx.2 a heq⟩

theorem Keeps.ite {c : Prop} [Decidable c] {p q : Prog σ α} (hp : c → Keeps I p Q)
    (hq : ¬c → Keeps I q Q) : Keeps I (if c then p else q) Q := by
  by_cases hc : c
  · rw [if_pos hc]
    exact hp hc
  · rw [if_neg hc]
    exact hq hc

theorem Keeps.get : Keeps I (MonadState.get : Prog σ σ) I := by
  intro s hs
  refine ⟨(Runs.get s).inBounds, fun a s' hrun => ?_⟩
  cases hrun
  exact ⟨hs, hs⟩

theorem Keeps.throw {e : Fault} (h : e ≠ .outOfBounds) :
    Keeps I (throw e : Prog σ α) Q := by
  intro s hs
  refine ⟨fun herr => h ?_, fun a s' hrun => (by cases hrun)⟩
  have he : (Except.error e : Checked (α × σ)) = .error .outOfBounds := herr
  cases he
  rfl

end Keeps

/-! ## Heaps -/

section Heaps

variable {α : Type} {P : α → Prop} {H : Heap α} {a : Addr} {x : α}

/-- Every live cell satisfies `P`. -/
def Everywhere (P : α → Prop) (H : Heap α) : Prop := ∀ a x, H.get a = some x → P x

theorem Everywhere.put (hH : Everywhere P H) (hx : P x) (a : Addr) :
    Everywhere P (H.put a (some x)) := by
  intro b y hget
  by_cases hb : b = a
  · subst hb
    by_cases hlt : b < H.size
    · rw [Heap.get_put_self hlt, Option.some.injEq] at hget
      exact hget ▸ hx
    · exact absurd (Heap.lt_size_of_get hget) (by rw [Heap.size_put]; exact hlt)
  · rw [Heap.get_put_ne hb] at hget
    exact hH b y hget

theorem Everywhere.push (hH : Everywhere P H) (hx : P x) : Everywhere P (H.push x) := by
  intro b y hget
  by_cases hb : b = H.size
  · subst hb
    rw [Heap.get_push_self, Option.some.injEq] at hget
    exact hget ▸ hx
  · rw [Heap.get_push_ne hb] at hget
    exact hH b y hget

theorem everywhere_of_cells (h : ∀ c ∈ H.cells, ∀ x, c = some x → P x) : Everywhere P H := by
  intro a x hget
  obtain ⟨c, hcell, hc⟩ := Option.bind_eq_some_iff.1 hget
  exact h c (List.mem_of_getElem? hcell) x hc

theorem everywhere_empty : Everywhere P Heap.empty := by
  intro a x hget
  exact absurd (Heap.lt_size_of_get hget) (Nat.not_lt_zero a)

theorem InBounds.deref (p : Option Addr) (H : Heap α) :
    InBounds (liftM (Program.deref p) : Prog (Heap α) Addr) H := by
  intro herr
  cases p
  · cases herr
  · cases herr

theorem run_load_none (h : H.get a = none) : (Program.load a).run H = .error .badAddress := by
  simp only [Program.load, StateT.run_bind, StateT.run_get, pure_bind, h]
  rfl

theorem run_store_none (h : H.get a = none) :
    (Program.store a x).run H = .error .badAddress := by
  simp only [Program.store, StateT.run_bind, StateT.run_get, pure_bind, h]
  rfl

theorem run_free_none (h : H.get a = none) : (Program.free a).run H = .error .badAddress := by
  simp only [Program.free, StateT.run_bind, StateT.run_get, pure_bind, h]
  rfl

theorem InBounds.load (a : Addr) (H : Heap α) : InBounds (Program.load a) H := by
  cases hget : H.get a with
  | some x => exact (Runs.load hget).inBounds
  | none =>
    unfold InBounds
    rw [run_load_none hget]
    intro herr
    cases herr

theorem InBounds.store (a : Addr) (x : α) (H : Heap α) : InBounds (Program.store a x) H := by
  cases hget : H.get a with
  | some y => exact (Runs.store hget x).inBounds
  | none =>
    unfold InBounds
    rw [run_store_none hget]
    intro herr
    cases herr

theorem InBounds.free (a : Addr) (H : Heap α) : InBounds (Program.free a) H := by
  cases hget : H.get a with
  | some y => exact (Runs.free hget).inBounds
  | none =>
    unfold InBounds
    rw [run_free_none hget]
    intro herr
    cases herr

theorem keeps_deref (p : Option Addr) :
    Keeps (Everywhere P) (liftM (Program.deref p) : Prog (Heap α) Addr) fun _ => True := by
  intro H hH
  refine ⟨InBounds.deref p H, fun a H' hrun => ⟨?_, trivial⟩⟩
  rw [← hrun.eq_of_lift.2]
  exact hH

theorem keeps_load (a : Addr) : Keeps (Everywhere P) (Program.load a) P := by
  intro H hH
  refine ⟨InBounds.load a H, fun x H' hrun => ?_⟩
  cases hget : H.get a with
  | none =>
    unfold Runs at hrun
    rw [run_load_none hget] at hrun
    cases hrun
  | some y =>
    obtain ⟨rfl, rfl⟩ := hrun.unique (Runs.load hget)
    exact ⟨hH, hH a x hget⟩

theorem keeps_store (a : Addr) (hx : P x) :
    Keeps (Everywhere P) (Program.store a x) fun _ => True := by
  intro H hH
  refine ⟨InBounds.store a x H, fun _ H' hrun => ⟨?_, trivial⟩⟩
  cases hget : H.get a with
  | none =>
    unfold Runs at hrun
    rw [run_store_none hget] at hrun
    cases hrun
  | some y =>
    obtain ⟨_, rfl⟩ := hrun.unique (Runs.store hget x)
    exact hH.put hx a

theorem keeps_alloc (hx : P x) : Keeps (Everywhere P) (Program.alloc x) fun _ => True := by
  intro H hH
  refine ⟨(Runs.alloc H x).inBounds, fun a H' hrun => ?_⟩
  obtain ⟨_, rfl⟩ := hrun.unique (Runs.alloc H x)
  exact ⟨hH.push hx, trivial⟩

end Heaps

end Program
