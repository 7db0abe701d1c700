/-
Deterministic transition systems driven by an operation list: the run
vocabulary every safety argument of the development is phrased in.

A system is a step function `σ → ι → σ`; a run is a list of operations
folded from a start state. There is no separate notion of "reachable
state" to prove lemmas about: a reachable state IS the end of a run,
and every prefix of a run is a run, so a statement about the end state
of every run is a statement about every state reached.

# Guards

A guard `G : σ → ι → Prop` is a condition on an operation and the state
it is applied in. `Guarded` says that every operation of a run meets it
at its own moment. An invariant that only guarded steps preserve holds
along every guarded run (`Guarded.invariant`); the unguarded rule
(`run_invariant`) is its instance at the trivial guard.
-/
import Mathlib.Data.List.Basic

namespace Transition

variable {σ ι : Type} (step : σ → ι → σ)

/-- The state after a list of operations, applied left to right. -/
def run (s : σ) (ops : List ι) : σ := ops.foldl step s

@[simp] theorem run_nil (s : σ) : run step s [] = s := rfl

@[simp] theorem run_cons (s : σ) (op : ι) (ops : List ι) :
    run step s (op :: ops) = run step (step s op) ops := rfl

theorem run_append (s : σ) (ops ops' : List ι) :
    run step s (ops ++ ops') = run step (run step s ops) ops' := by
  unfold run
  rw [List.foldl_append]

/-- Every operation of the run meets `G` in the state it is applied
in. -/
def Guarded (G : σ → ι → Prop) : σ → List ι → Prop
  | _, [] => True
  | s, op :: ops => G s op ∧ Guarded G (step s op) ops

/-- A guard that can be checked can be checked along a run. -/
instance Guarded.decidable {G : σ → ι → Prop} [∀ s op, Decidable (G s op)] :
    ∀ (s : σ) (ops : List ι), Decidable (Guarded step G s ops)
  | _, [] => isTrue trivial
  | s, op :: ops =>
    have : Decidable (Guarded step G (step s op) ops) := Guarded.decidable (step s op) ops
    inferInstanceAs (Decidable (G s op ∧ Guarded step G (step s op) ops))

variable {step} {I : σ → Prop}

/-- The guarded run rule: what every guarded step preserves holds at
the end of every guarded run. -/
theorem Guarded.invariant {G : σ → ι → Prop} (hstep : ∀ s op, I s → G s op → I (step s op)) :
    ∀ {ops : List ι} {s : σ}, I s → Guarded step G s ops → I (run step s ops) := by
  intro ops
  induction ops with
  | nil => intro s hs _; exact hs
  | cons op ops ih =>
    intro s hs hg
    exact ih (hstep s op hs hg.1) hg.2

/-- The run rule: what every step preserves holds at the end of every
run. -/
theorem run_invariant (hstep : ∀ s op, I s → I (step s op)) {s : σ} (hs : I s) (ops : List ι) :
    I (run step s ops) := by
  induction ops generalizing s with
  | nil => exact hs
  | cons op ops ih => exact ih (hstep s op hs)

end Transition
