import Mathlib.Data.List.Chain
import Mathlib.Logic.Relation

/-!
# Transition systems

A transition system has initial states and steps, of whichever of its parties. A state is
reachable if finitely many steps lead to it from an initial one. What holds initially and
is preserved by every step holds in every reachable state (`Reachable.invariant`).

A condition on the steps restricts a system to the runs whose steps all meet it
(`restrict`). A run is the list of its states (`Run`). What holds initially, and is preserved by the
steps that meet the condition, holds in all states of a run whose steps all do
(`Run.forall_of_isChain`).
-/

set_option autoImplicit false

namespace Cluon.Library

/-- A transition system: its initial states and its steps. -/
structure TransitionSystem (σ : Type) where
  init : σ → Prop
  step : σ → σ → Prop

namespace TransitionSystem

variable {σ : Type} {M : TransitionSystem σ}

/-- Some run leads to the state. -/
def Reachable (M : TransitionSystem σ) (s : σ) : Prop :=
  ∃ s₀, M.init s₀ ∧ Relation.ReflTransGen M.step s₀ s

theorem Reachable.initially {s : σ} (h : M.init s) : M.Reachable s := ⟨s, h, .refl⟩

theorem Reachable.next {s s' : σ} (h : M.Reachable s) (step : M.step s s') : M.Reachable s' := by
  obtain ⟨s₀, init, run⟩ := h
  exact ⟨s₀, init, run.tail step⟩

/-- **Invariant rule.** -/
theorem Reachable.invariant {I : σ → Prop} (initially : ∀ s, M.init s → I s)
    (preserved : ∀ s s', I s → M.step s s' → I s') {s : σ} (h : M.Reachable s) : I s := by
  obtain ⟨s₀, init, run⟩ := h
  induction run with
  | refl => exact initially s₀ init
  | tail _ step ih => exact preserved _ _ ih step

/-- The states of a run, one after the other. -/
structure Run (M : TransitionSystem σ) (s : σ) (ss : List σ) : Prop where
  init : M.init s
  steps : List.IsChain M.step (s :: ss)

/-- **Invariant rule for a run** whose steps all meet a condition. -/
theorem Run.forall_of_isChain {I : σ → Prop} {condition : σ → σ → Prop} {s : σ} {ss : List σ}
    (run : M.Run s ss) (initially : ∀ s, M.init s → I s)
    (preserved : ∀ s s', I s → M.step s s' → condition s s' → I s')
    (all : List.IsChain condition (s :: ss)) : ∀ s' ∈ s :: ss, I s' := by
  have here : I s := initially s run.init
  have steps := run.steps
  clear run
  induction ss generalizing s with
  | nil => exact List.forall_mem_singleton.mpr here
  | cons s' ss ih =>
      obtain ⟨step, steps⟩ := List.isChain_cons_cons.mp steps
      obtain ⟨meets, all⟩ := List.isChain_cons_cons.mp all
      exact List.forall_mem_cons.mpr ⟨here, ih all (preserved s s' here step meets) steps⟩

/-- The system that makes only steps that meet a condition. -/
def restrict (M : TransitionSystem σ) (condition : σ → σ → Prop) : TransitionSystem σ where
  init := M.init
  step s s' := M.step s s' ∧ condition s s'

end TransitionSystem

end Cluon.Library
