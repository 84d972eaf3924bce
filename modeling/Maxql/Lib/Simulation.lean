import Maxql.Lib.Program

/-!
# Machines and simulations

A machine answers requests: for every request it has a program over its state.
A simulation carries every run of a specification over to an implementation:
from related states the implementation gives the same answer and ends in
related states.

* `Simulates.run`: a simulation of single requests is one of whole scripts;
* `Simulates.comp`: simulations compose;
* `script_invariant`: what every request keeps holds after every script;
* `exists_runs_script`: a machine that answers every request runs every script.
-/

namespace Simulation

open Program

variable {C M B Q A : Type}

/-- The machine `impl` does what `spec` does, where the requests meet `Ok`. -/
def Simulates (R : C → B → Prop) (Ok : B → Q → Prop) (impl : Q → Prog C A)
    (spec : Q → Prog B A) : Prop :=
  ∀ ⦃c b q a b'⦄, R c b → Ok b q → Runs (spec q) b a b' → ∃ c', Runs (impl q) c a c' ∧ R c' b'

/-- Every request of the script meets `Ok` in the state in which the machine gets it. -/
def Meets (Ok : B → Q → Prop) (spec : Q → Prog B A) : B → List Q → Prop
  | _, [] => True
  | b, q :: qs => Ok b q ∧ ∀ a b', Runs (spec q) b a b' → Meets Ok spec b' qs

/-- The answers of a script, one for each request. -/
def script (machine : Q → Prog C A) : List Q → Prog C (List A)
  | [] => pure []
  | q :: qs => do
    let a ← machine q
    let rest ← script machine qs
    pure (a :: rest)

theorem runs_script_cons {machine : Q → Prog C A} {q : Q} {qs : List Q} {c c' : C} {as : List A}
    (h : Runs (script machine (q :: qs)) c as c') :
    ∃ a c₁ rest, Runs (machine q) c a c₁ ∧ Runs (script machine qs) c₁ rest c' ∧
      as = a :: rest := by
  obtain ⟨a, c₁, hfirst, h⟩ := Runs.exists_of_bind h
  obtain ⟨rest, c₂, hrest, h⟩ := Runs.exists_of_bind h
  cases h
  exact ⟨a, c₁, rest, hfirst, hrest, rfl⟩

theorem runs_cons_script {machine : Q → Prog C A} {q : Q} {qs : List Q} {c c₁ c' : C} {a : A}
    {as : List A} (hfirst : Runs (machine q) c a c₁) (hrest : Runs (script machine qs) c₁ as c') :
    Runs (script machine (q :: qs)) c (a :: as) c' :=
  Runs.bind hfirst (Runs.bind hrest (Runs.pure _ _))

/-- What holds at first and is kept by every request holds after every script. -/
theorem script_invariant {machine : Q → Prog C A} {I : C → Prop}
    (hstep : ∀ q c a c', I c → Runs (machine q) c a c' → I c') {qs : List Q} {c c' : C}
    {as : List A} (hc : I c) (h : Runs (script machine qs) c as c') : I c' := by
  induction qs generalizing c as with
  | nil =>
    cases h
    exact hc
  | cons q qs ih =>
    obtain ⟨a, c₁, rest, hfirst, hrest, rfl⟩ := runs_script_cons h
    exact ih (hstep q c a c₁ hc hfirst) hrest

/-- A machine that answers what meets `Ok` runs every script that does. -/
theorem exists_runs_script {machine : Q → Prog C A} {I : C → Prop} {Ok : C → Q → Prop}
    (hstep : ∀ q c a c', I c → Runs (machine q) c a c' → I c')
    (hanswer : ∀ q c, I c → Ok c q → ∃ a c', Runs (machine q) c a c') {qs : List Q} {c : C}
    (hc : I c) (hok : Meets Ok machine c qs) : ∃ as c', Runs (script machine qs) c as c' := by
  induction qs generalizing c with
  | nil => exact ⟨[], c, Runs.pure _ _⟩
  | cons q qs ih =>
    obtain ⟨a, c₁, hfirst⟩ := hanswer q c hc hok.1
    obtain ⟨as, c', hrest⟩ := ih (hstep q c a c₁ hc hfirst) (hok.2 a c₁ hfirst)
    exact ⟨a :: as, c', runs_cons_script hfirst hrest⟩

section Compose

variable {R : C → B → Prop} {Ok : B → Q → Prop} {impl : Q → Prog C A} {spec : Q → Prog B A}

/-- Whole scripts give the same answers. -/
theorem Simulates.run (h : Simulates R Ok impl spec) :
    Simulates R (fun b qs => Meets Ok spec b qs) (script impl) (script spec) := by
  intro c b qs as b' hR hok hrun
  induction qs generalizing c b as with
  | nil =>
    cases hrun
    exact ⟨c, Runs.pure _ _, hR⟩
  | cons q qs ih =>
    obtain ⟨a, b₁, rest, hfirst, hrest, rfl⟩ := runs_script_cons hrun
    obtain ⟨c₁, himpl, hR₁⟩ := h hR hok.1 hfirst
    obtain ⟨c', hscript, hR'⟩ := ih hR₁ (hok.2 a b₁ hfirst) hrest
    exact ⟨c', runs_cons_script himpl hscript, hR'⟩

/-- An implementation of an implementation. -/
theorem Simulates.comp {S : M → B → Prop} {R : C → M → Prop} {Ok : B → Q → Prop}
    {Ok' : M → Q → Prop} {impl : Q → Prog C A} {mid : Q → Prog M A} {spec : Q → Prog B A}
    (hlow : Simulates R Ok' impl mid) (hhigh : Simulates S Ok mid spec)
    (hok : ∀ m b q, S m b → Ok b q → Ok' m q) :
    Simulates (fun c b => ∃ m, R c m ∧ S m b) Ok impl spec := by
  rintro c b q a b' ⟨m, hR, hS⟩ hq hrun
  obtain ⟨m', hmid, hS'⟩ := hhigh hS hq hrun
  obtain ⟨c', himpl, hR'⟩ := hlow hR (hok m b q hS hq) hmid
  exact ⟨c', himpl, m', hR', hS'⟩

end Compose

end Simulation
