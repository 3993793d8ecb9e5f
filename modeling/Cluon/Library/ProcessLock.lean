import Mathlib.Logic.Function.Basic

/-!
# Locks between processes

Processes share locks of the operating system. A process may exit at any time, also while it has the
lock, and a lock may be removed while processes use it. So a call can be refused, and the operating
system cleans up behind a process.

Whatever a lock consists of, it is to behave as an owner, which is there or not
(`ProcessLock.Simulates`): only a lock without an owner can be acquired, and an owner that exits is
an owner no more. This is shown for the two kinds of locks that there are: a semaphore whose
operations are undone at exit (`Semaphore.simulates`), and a robust mutex (`RobustMutex.simulates`).
A semaphore can be released by anyone, a robust mutex by its owner only.
-/

set_option autoImplicit false

namespace Cluon.Library

/-- A lock between processes: what a process makes of it by an operation that succeeds, and when an
operation may be refused. Who acquires it is told whether the owner before has died with it. Some
locks can be removed. -/
structure ProcessLock (π σ : Type) where
  initial : σ
  acquire : σ → π → Option (Bool × σ)
  refusesAcquire : σ → Prop
  release : σ → π → Option σ
  refusesRelease : σ → π → Prop
  exit : σ → π → σ
  remove : σ → Option σ
  outOfOrder : σ → Prop

namespace ProcessLock

variable {π σ : Type} [DecidableEq π]

/-- A lock behaves as an owner, as far as it is released by its owner only. Unless it is out of
order, it can be acquired when there is no owner. -/
structure Simulates (L : ProcessLock π σ) (owned : Option π → σ → Prop) : Prop where
  initial : owned none L.initial
  acquire : ∀ {owner : Option π} {s s' : σ} {p : π} {died : Bool}, owned owner s →
    L.acquire s p = some (died, s') → owner = none ∧ owned (some p) s'
  release : ∀ {s s' : σ} {p : π}, owned (some p) s → L.release s p = some s' → owned none s'
  exit : ∀ {owner : Option π} {s : σ}, owned owner s → ∀ p,
    owned (if owner = some p then none else owner) (L.exit s p)
  remove : ∀ {owner : Option π} {s s' : σ}, owned owner s → L.remove s = some s' → owned owner s'
  free : ∀ {s : σ}, owned none s → ¬ L.outOfOrder s → ∀ p, (L.acquire s p).isSome
  inOrder : ∀ {s : σ} {p : π}, L.outOfOrder (L.exit s p) → L.outOfOrder s

end ProcessLock

/-! ## Semaphores -/

/-- A semaphore that is used as a lock: its value, what is added to it when a process exits, and
whether it has been removed. -/
structure Semaphore (π : Type) where
  value : Nat
  undo : π → Int
  removed : Bool

namespace Semaphore

variable {π : Type} [DecidableEq π]

/-- The value is changed by an operation that is undone at exit. -/
def add (s : Semaphore π) (p : π) (v : Int) : Semaphore π :=
  { s with
    value := (s.value + v).toNat
    undo := Function.update s.undo p (s.undo p - v) }

/-- A semaphore as a lock. Any operation may be refused: waiting is interrupted by signals. -/
def lock : ProcessLock π (Semaphore π) where
  initial := ⟨1, fun _ => 0, false⟩
  acquire s p := if !s.removed && decide (0 < s.value) then some (false, s.add p (-1)) else none
  refusesAcquire _ := True
  release s p := if s.removed then none else some (s.add p 1)
  refusesRelease _ _ := True
  exit s p := s.add p (s.undo p)
  remove s := some { s with removed := true }
  outOfOrder s := s.removed = true

/-- The value of the semaphore is what the owner, if there is one, has left of 1. -/
structure Owned (owner : Option π) (s : Semaphore π) : Prop where
  value : s.value = if owner.isSome then 0 else 1
  undo : ∀ p, s.undo p = if owner = some p then 1 else 0

/-- **A semaphore behaves as an owner.** -/
theorem simulates : (lock : ProcessLock π (Semaphore π)).Simulates Owned where
  initial := ⟨rfl, fun _ => rfl⟩
  acquire := by
    intro owner s s' p died owned acquired
    simp only [lock, Option.ite_none_right_eq_some, Bool.and_eq_true, decide_eq_true_eq,
      Option.some.injEq, Prod.mk.injEq] at acquired
    obtain ⟨⟨_, positive⟩, _, rfl⟩ := acquired
    have value := owned.value
    cases owner with
    | some q =>
        rw [Option.isSome_some, if_pos rfl] at value
        omega
    | none =>
        rw [Option.isSome_none, if_neg Bool.false_ne_true] at value
        refine ⟨rfl, ?_, fun q => ?_⟩
        · simp [add, value]
        · by_cases here : q = p
          · subst here
            simp [add, owned.undo]
          · simp [add, Function.update_of_ne here, owned.undo, Ne.symm here]
  release := by
    intro s s' p owned released
    simp only [lock, Option.ite_none_left_eq_some, Option.some.injEq] at released
    obtain ⟨_, rfl⟩ := released
    refine ⟨?_, fun q => ?_⟩
    · simp [add, owned.value]
    · by_cases here : q = p
      · subst here
        simp [add, owned.undo]
      · simp [add, Function.update_of_ne here, owned.undo, Ne.symm here]
  exit := by
    intro owner s owned p
    have undo := owned.undo p
    by_cases own : owner = some p
    · subst own
      rw [if_pos rfl] at undo ⊢
      refine ⟨?_, fun q => ?_⟩
      · simp [lock, add, undo, owned.value]
      · by_cases here : q = p
        · subst here
          simp [lock, add]
        · simp [lock, add, Function.update_of_ne here, owned.undo, Ne.symm here]
    · rw [if_neg own] at undo ⊢
      have same : lock.exit s p = s := by
        have unchanged : Function.update s.undo p 0 = s.undo := undo ▸ Function.update_eq_self p _
        simp [lock, add, undo, unchanged]
      rw [same]
      exact owned
  remove := by
    intro owner s s' owned removed
    obtain rfl := Option.some.inj removed
    exact ⟨owned.value, owned.undo⟩
  free := by
    intro s owned inOrder p
    have value := owned.value
    rw [Option.isSome_none, if_neg Bool.false_ne_true] at value
    have there : s.removed = false := Bool.eq_false_iff.mpr inOrder
    simp [lock, there, value]
  inOrder := id

end Semaphore

/-! ## Robust mutexes -/

/-- A robust mutex: its owner, whether an owner has died with it and nobody has made it consistent
since, whether it has been given up, and whether it has been destroyed. -/
structure RobustMutex (π : Type) where
  owner : Option π
  inconsistent : Bool
  notRecoverable : Bool
  destroyed : Bool

namespace RobustMutex

variable {π : Type} [DecidableEq π]

/-- A robust mutex as a lock. It is given up when it is released while it is inconsistent. Every
operation on a mutex that has been destroyed is refused. -/
def lock : ProcessLock π (RobustMutex π) where
  initial := ⟨none, false, false, false⟩
  acquire m p :=
    if m.owner.isNone && !m.notRecoverable && !m.destroyed then
      some (m.inconsistent, { m with owner := some p })
    else none
  refusesAcquire m := m.notRecoverable = true ∨ m.destroyed = true
  release m p :=
    if m.owner = some p ∧ m.destroyed = false then
      some { m with owner := none, notRecoverable := m.notRecoverable || m.inconsistent }
    else none
  refusesRelease m p := m.owner ≠ some p ∨ m.destroyed = true
  exit m p := if m.owner = some p then { m with owner := none, inconsistent := true } else m
  remove m := some { m with destroyed := true }
  outOfOrder m := m.notRecoverable = true ∨ m.destroyed = true

/-- **A robust mutex behaves as an owner.** -/
theorem simulates :
    (lock : ProcessLock π (RobustMutex π)).Simulates fun owner m => m.owner = owner where
  initial := rfl
  acquire := by
    rintro owner m m' p died rfl acquired
    simp only [lock, Option.ite_none_right_eq_some, Bool.and_eq_true, Option.isNone_iff_eq_none,
      Option.some.injEq, Prod.mk.injEq] at acquired
    obtain ⟨⟨⟨free, _⟩, _⟩, _, rfl⟩ := acquired
    exact ⟨free, rfl⟩
  release := by
    intro m m' p owned released
    simp only [lock, Option.ite_none_right_eq_some, Option.some.injEq] at released
    obtain ⟨_, rfl⟩ := released
    rfl
  exit := by
    rintro owner m rfl p
    by_cases own : m.owner = some p
    · simp [lock, own]
    · simp [lock, own]
  remove := by
    intro owner m m' owned removed
    obtain rfl := Option.some.inj removed
    exact owned
  free := by
    intro m free inOrder p
    obtain ⟨recoverable, there⟩ := not_or.mp inOrder
    simp [lock, free, recoverable, there]
  inOrder := by
    intro m p outOfOrder
    by_cases own : m.owner = some p
    · simpa [lock, own] using outOfOrder
    · simpa [lock, own] using outOfOrder

end RobustMutex

end Cluon.Library
