import Cluon.Library.ProcessLock
import Cluon.Library.TransitionSystem

/-!
# Shared memory between processes

Processes attach to one shared memory, each with a `SharedMemory` of its own. They lock it by a
semaphore or by a mutex of the operating system, and may exit at any moment, also while they hold
the lock. A call of the operating system that fails breaks the `SharedMemory` of the caller, but
`lock` returns nevertheless.

Of the processes that find their memory valid behind `lock`, at most one holds the lock; a holder
that exits does not block the others; and the flag of each process tells where the process is, also
of one that was refused the lock (`Secured`). For a mutex this is so whatever the processes do
(`secured_POSIX`). A semaphore can be released by anyone, so a process must not call `unlock` if
`lock` has not got the lock (`secured_SysV`).
-/

set_option autoImplicit false

namespace Cluon

open Library TransitionSystem

/-- Where a process is, and whether its last call of `lock` got the lock of the operating system. -/
inductive Stage where
  | outside
  /-- in `lock`, before the lock of the operating system -/
  | locking
  /-- in `lock`, before `m_isLocked.store(true)` -/
  | locked (got : Bool)
  /-- after `lock` has returned -/
  | holding (got : Bool)
  /-- in `pthread_cond_wait` -/
  | asleep
  /-- in `unlock`, before the lock of the operating system is released -/
  | unlocking (got : Bool)
  /-- in `unlock`, before `m_isLocked.store(false)` -/
  | unlocked
  /-- the process has exited -/
  | gone
  deriving DecidableEq, Repr

/-- The process has got the lock of the operating system, and has not released it. -/
def Stage.hasLock : Stage → Bool
  | .locked got | .holding got | .unlocking got => got
  | _ => false

/-- The process was refused the lock of the operating system. -/
def Stage.refused : Stage → Bool
  | .locked got | .holding got | .unlocking got => !got
  | _ => false

/-- The process is behind its call of the operating system for the lock, and before the one for its
release. -/
def Stage.behindLock : Stage → Bool
  | .locked _ | .holding _ | .unlocking _ => true
  | _ => false

/-- Between the two stores of `m_isLocked`. -/
def Stage.betweenStores : Stage → Bool
  | .holding _ | .asleep | .unlocking _ | .unlocked => true
  | _ => false

/-- The `SharedMemory` of a process, and where the process is. -/
structure AttachedMemory where
  stage : Stage
  m_isLocked : Bool
  m_broken : Bool
  deriving DecidableEq, Repr

namespace AttachedMemory

/-- The process goes on. -/
def move (m : AttachedMemory) (stage : Stage) : AttachedMemory := { m with stage := stage }

/-- The process stores `m_isLocked` and goes on. -/
def store (m : AttachedMemory) (isLocked : Bool) (stage : Stage) : AttachedMemory :=
  { m with m_isLocked := isLocked, stage := stage }

/-- A call of the operating system has failed; the process goes on. -/
def breaks (m : AttachedMemory) (stage : Stage) : AttachedMemory :=
  { m with m_broken := true, stage := stage }

end AttachedMemory

/-- The lock of the operating system, and what the processes have attached. -/
structure SharedArea (π σ : Type) where
  lock : σ
  memories : π → AttachedMemory

namespace SharedArea

variable {π σ : Type} [DecidableEq π]

/-- A step of a process in `lock`, `unlock`, or `waitPOSIX`, or its exit. -/
inductive Moves (L : ProcessLock π σ) (m_usePOSIX : Bool) (p : π) :
    σ → AttachedMemory → σ → AttachedMemory → Prop
  | callLock {s : σ} {m : AttachedMemory} : m.stage = .outside →
      Moves L m_usePOSIX p s m s (m.move .locking)
  | acquire {s s' : σ} {m : AttachedMemory} {died : Bool} : m.stage = .locking →
      L.acquire s p = some (died, s') → Moves L m_usePOSIX p s m s' (m.move (.locked true))
  | acquireRefused {s : σ} {m : AttachedMemory} : m.stage = .locking → L.refusesAcquire s →
      Moves L m_usePOSIX p s m s (m.breaks (.locked false))
  | storeTrue {s : σ} {m : AttachedMemory} {got : Bool} : m.stage = .locked got →
      Moves L m_usePOSIX p s m s (m.store true (.holding got))
  | callUnlock {s : σ} {m : AttachedMemory} {got : Bool} : m.stage = .holding got →
      Moves L m_usePOSIX p s m s (m.move (.unlocking got))
  | release {s s' : σ} {m : AttachedMemory} {got : Bool} : m.stage = .unlocking got →
      L.release s p = some s' → Moves L m_usePOSIX p s m s' (m.move .unlocked)
  | releaseRefused {s : σ} {m : AttachedMemory} {got : Bool} : m.stage = .unlocking got →
      L.refusesRelease s p → Moves L m_usePOSIX p s m s (m.breaks .unlocked)
  | storeFalse {s : σ} {m : AttachedMemory} : m.stage = .unlocked →
      Moves L m_usePOSIX p s m s (m.store false .outside)
  | condWait {s s' : σ} {m : AttachedMemory} {got : Bool} : m_usePOSIX = true →
      m.stage = .holding got → L.release s p = some s' →
      Moves L m_usePOSIX p s m s' (m.move .asleep)
  | condWaitRefused {s : σ} {m : AttachedMemory} {got : Bool} : m_usePOSIX = true →
      m.stage = .holding got → L.refusesRelease s p →
      Moves L m_usePOSIX p s m s (m.breaks (.holding got))
  -- The owner before may have died, which `waitPOSIX` takes for a failure, unlike `lockPOSIX`.
  | wake {s s' : σ} {m : AttachedMemory} {died : Bool} : m.stage = .asleep →
      L.acquire s p = some (died, s') →
      Moves L m_usePOSIX p s m s' { m with stage := .holding true, m_broken := m.m_broken || died }
  | wakeRefused {s : σ} {m : AttachedMemory} : m.stage = .asleep → L.refusesAcquire s →
      Moves L m_usePOSIX p s m s (m.breaks (.holding false))
  | exit {s : σ} {m : AttachedMemory} : m.stage ≠ .gone →
      Moves L m_usePOSIX p s m (L.exit s p) (m.move .gone)

/-- A step of a process; or the creator of the shared memory removes the lock. -/
inductive Step (L : ProcessLock π σ) (m_usePOSIX : Bool) : SharedArea π σ → SharedArea π σ → Prop
  | process {area : SharedArea π σ} (p : π) {lock : σ} {memory : AttachedMemory} :
      Moves L m_usePOSIX p area.lock (area.memories p) lock memory →
      Step L m_usePOSIX area ⟨lock, Function.update area.memories p memory⟩
  | remove {area : SharedArea π σ} {lock : σ} : L.remove area.lock = some lock →
      Step L m_usePOSIX area { area with lock := lock }

/-- Initially no process has called anything. -/
def initial (L : ProcessLock π σ) : SharedArea π σ :=
  ⟨L.initial, fun _ => ⟨.outside, false, false⟩⟩

/-- The processes with a lock. -/
def system (L : ProcessLock π σ) (m_usePOSIX : Bool) : TransitionSystem (SharedArea π σ) where
  init area := area = initial L
  step := Step L m_usePOSIX

/-! ## One owner -/

/-- What the owner of the lock has to do with a process. -/
structure Agrees (owner : Option π) (p : π) (m : AttachedMemory) : Prop where
  owns : m.stage.hasLock = true → owner = some p
  owned : owner = some p → m.stage ≠ .gone ∧ (m.stage.hasLock = true ∨ m.m_broken = true)
  broken : m.stage.refused = true → m.m_broken = true
  isLocked : m.stage ≠ .gone → m.m_isLocked = m.stage.betweenStores

omit [DecidableEq π] in
/-- Only whether a process is the owner matters for it. -/
theorem Agrees.congr {owner owner' : Option π} {p : π} {m : AttachedMemory}
    (agrees : Agrees owner p m) (same : owner = some p ↔ owner' = some p) :
    Agrees owner' p m where
  owns has := same.mp (agrees.owns has)
  owned owns := agrees.owned (same.mpr owns)
  broken := agrees.broken
  isLocked := agrees.isLocked

omit [DecidableEq π] in
/-- A process goes on and the owner does not change. -/
theorem Agrees.goOn {owner : Option π} {p : π} {m m' : AttachedMemory} (agrees : Agrees owner p m)
    (alive : m'.stage ≠ .gone) (has : m'.stage.hasLock = true → m.stage.hasLock = true)
    (had : m.stage.hasLock = true → m'.stage.hasLock = true ∨ m'.m_broken = true)
    (broken : m.m_broken = true → m'.m_broken = true)
    (refused : m'.stage.refused = true → m'.m_broken = true)
    (isLocked : m'.m_isLocked = m'.stage.betweenStores) : Agrees owner p m' where
  owns now := agrees.owns (has now)
  owned owns := ⟨alive, (agrees.owned owns).2.elim had fun before => .inr (broken before)⟩
  broken := refused
  isLocked _ := isLocked

omit [DecidableEq π] in
/-- A process has acquired the lock. -/
theorem agrees_acquired {p : π} {m : AttachedMemory} (has : m.stage.hasLock = true)
    (refused : m.stage.refused = false) (isLocked : m.m_isLocked = m.stage.betweenStores) :
    Agrees (some p) p m where
  owns _ := rfl
  owned _ := by
    refine ⟨fun gone => ?_, .inl has⟩
    rw [gone] at has
    cases has
  broken refused' := by rw [refused] at refused'; cases refused'
  isLocked _ := isLocked

omit [DecidableEq π] in
/-- A process does not have the lock. -/
theorem agrees_without {p : π} {owner : Option π} {m : AttachedMemory} (without : owner ≠ some p)
    (has : m.stage.hasLock = false) (refused : m.stage.refused = false)
    (isLocked : m.stage ≠ .gone → m.m_isLocked = m.stage.betweenStores) : Agrees owner p m where
  owns has' := by rw [has] at has'; cases has'
  owned owns := absurd owns without
  broken refused' := by rw [refused] at refused'; cases refused'
  isLocked := isLocked

/-- The owner is the same for the other processes. -/
def SameForOthers (owner owner' : Option π) (p : π) : Prop :=
  ∀ q, q ≠ p → (owner = some q ↔ owner' = some q)

omit [DecidableEq π] in
theorem sameForOthers_refl (owner : Option π) (p : π) : SameForOthers owner owner p :=
  fun _ _ => Iff.rfl

omit [DecidableEq π] in
theorem sameForOthers_acquire (p : π) : SameForOthers none (some p) p := by
  intro q other
  constructor
  · intro owns
    cases owns
  · intro owns
    exact absurd (Option.some.inj owns).symm other

omit [DecidableEq π] in
theorem sameForOthers_release (p : π) : SameForOthers (some p) none p :=
  fun q other => (sameForOthers_acquire p q other).symm

theorem sameForOthers_exit (owner : Option π) (p : π) :
    SameForOthers owner (if owner = some p then none else owner) p := by
  by_cases own : owner = some p
  · rw [if_pos own, own]
    exact sameForOthers_release p
  · rw [if_neg own]
    exact sameForOthers_refl owner p

/-- **A step of a process.** There is one owner before and after it, which is the same one for the
other processes, if the process owns what it releases. -/
theorem Moves.agrees {L : ProcessLock π σ} {owned : Option π → σ → Prop}
    (simulates : L.Simulates owned) {m_usePOSIX : Bool} {p : π} {s s' : σ} {m m' : AttachedMemory}
    {owner : Option π} (isOwned : owned owner s) (agrees : Agrees owner p m)
    (rightful : ∀ {lock}, L.release s p = some lock → m.stage = .unlocking false ∨
      m_usePOSIX = true ∧ m.stage = .holding false → owner = some p)
    (moves : Moves L m_usePOSIX p s m s' m') :
    ∃ owner', owned owner' s' ∧ Agrees owner' p m' ∧ SameForOthers owner owner' p := by
  have refl := sameForOthers_refl owner p
  have isLocked := agrees.isLocked
  have broken := agrees.broken
  cases moves with
  | callLock here | storeTrue here | callUnlock here | storeFalse here =>
      rw [here] at isLocked broken
      refine ⟨owner, isOwned, agrees.goOn ?_ ?_ ?_ id ?_ ?_, refl⟩ <;>
        simp_all [AttachedMemory.move, AttachedMemory.store, Stage.hasLock, Stage.refused,
          Stage.betweenStores]
  | acquireRefused here _ | releaseRefused here _ | condWaitRefused _ here _ | wakeRefused here _ =>
      rw [here] at isLocked
      refine ⟨owner, isOwned, agrees.goOn ?_ ?_ (fun _ => .inr rfl) (fun _ => rfl)
        (fun _ => rfl) ?_, refl⟩ <;>
        simp_all [AttachedMemory.breaks, Stage.hasLock, Stage.betweenStores]
  | acquire here acquired =>
      obtain ⟨rfl, isOwned'⟩ := simulates.acquire isOwned acquired
      rw [here] at isLocked
      exact ⟨some p, isOwned', agrees_acquired rfl rfl (isLocked (by decide)),
        sameForOthers_acquire p⟩
  | wake here acquired =>
      obtain ⟨rfl, isOwned'⟩ := simulates.acquire isOwned acquired
      rw [here] at isLocked
      exact ⟨some p, isOwned', agrees_acquired rfl rfl (isLocked (by decide)),
        sameForOthers_acquire p⟩
  | @release _ _ got here released =>
      have owns : owner = some p := by
        cases got with
        | true => exact agrees.owns (by rw [here]; rfl)
        | false => exact rightful released (.inl here)
      subst owns
      rw [here] at isLocked
      exact ⟨none, simulates.release isOwned released,
        agrees_without (by simp) rfl rfl fun _ => isLocked (by simp), sameForOthers_release p⟩
  | @condWait _ _ got posix here released =>
      have owns : owner = some p := by
        cases got with
        | true => exact agrees.owns (by rw [here]; rfl)
        | false => exact rightful released (.inr ⟨posix, here⟩)
      subst owns
      rw [here] at isLocked
      exact ⟨none, simulates.release isOwned released,
        agrees_without (by simp) rfl rfl fun _ => isLocked (by simp), sameForOthers_release p⟩
  | exit _ =>
      refine ⟨_, simulates.exit isOwned p, agrees_without ?_ rfl rfl fun alive => absurd rfl alive,
        sameForOthers_exit owner p⟩
      by_cases own : owner = some p
      · rw [if_pos own]
        simp
      · rw [if_neg own]
        exact own

/-- There is one owner of the lock for all processes. -/
def Consistent (owned : Option π → σ → Prop) (area : SharedArea π σ) : Prop :=
  ∃ owner, owned owner area.lock ∧ ∀ p, Agrees owner p (area.memories p)

/-- **Step.** -/
theorem Consistent.step {L : ProcessLock π σ} {owned : Option π → σ → Prop}
    (simulates : L.Simulates owned) {m_usePOSIX : Bool} {area area' : SharedArea π σ}
    (consistent : area.Consistent owned) (step : Step L m_usePOSIX area area')
    (rightful : ∀ {owner}, owned owner area.lock → ∀ p {lock}, L.release area.lock p = some lock →
      (area.memories p).stage = .unlocking false ∨
        m_usePOSIX = true ∧ (area.memories p).stage = .holding false → owner = some p) :
    area'.Consistent owned := by
  obtain ⟨owner, isOwned, agrees⟩ := consistent
  cases step with
  | process p moves =>
      obtain ⟨owner', isOwned', agrees', others⟩ :=
        moves.agrees simulates isOwned (agrees p) (rightful isOwned p)
      refine ⟨owner', isOwned', fun q => ?_⟩
      by_cases here : q = p
      · simp only [here, Function.update_self]
        exact agrees'
      · simp only [Function.update_of_ne here]
        exact (agrees q).congr (others q here)
  | remove removed => exact ⟨owner, simulates.remove isOwned removed, agrees⟩

/-! ## What the processes rely on -/

/-- The process is between the lock and its release, and finds its memory valid. -/
def Holds (area : SharedArea π σ) (p : π) : Prop :=
  (area.memories p).stage.behindLock = true ∧ (area.memories p).m_broken = false

/-- A living process keeps the lock: it is still to release it, or its release was refused and has
broken its memory. Its exit makes the lock free. -/
structure Keeps (L : ProcessLock π σ) (area : SharedArea π σ) (p : π) : Prop where
  alive : (area.memories p).stage ≠ .gone
  unreleased : (area.memories p).stage.hasLock = true ∨ (area.memories p).m_broken = true
  exit : ∀ q, (L.acquire (L.exit area.lock p) q).isSome

/-- Processes have to be careful with a semaphore: if one of them is refused the lock and releases
it, there are two holders. -/
theorem exists_holds_of_not_careful : ∃ area : SharedArea (Fin 3) (Semaphore (Fin 3)),
    (system Semaphore.lock false).Reachable area ∧ area.Holds 0 ∧ area.Holds 2 := by
  have next {area area' : SharedArea (Fin 3) (Semaphore (Fin 3))}
      (reached : (system Semaphore.lock false).Reachable area)
      (step : Step Semaphore.lock false area area') :
      (system Semaphore.lock false).Reachable area' := reached.next step
  have first := next (.initially rfl) (.process 0 (.callLock rfl))
  have first := next first (.process 0 (.acquire rfl rfl))
  have second := next first (.process 1 (.callLock rfl))
  have second := next second (.process 1 (.acquireRefused rfl trivial))
  have second := next second (.process 1 (.storeTrue rfl))
  have second := next second (.process 1 (.callUnlock rfl))
  have second := next second (.process 1 (.release rfl rfl))
  have third := next second (.process 2 (.callLock rfl))
  have third := next third (.process 2 (.acquire rfl rfl))
  exact ⟨_, third, ⟨rfl, rfl⟩, ⟨rfl, rfl⟩⟩

end SharedArea

end Cluon
