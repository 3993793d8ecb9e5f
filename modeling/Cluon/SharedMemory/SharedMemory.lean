import Cluon.Library.TransitionSystem
import Cluon.Message.DataStructures
import Mathlib.Logic.Function.Basic

/-!
# Shared memory

The threads that share a `SharedMemory` lock and unlock it. The lock itself is one of the operating
system; `m_isLocked` says whether it is locked, and `setTimeStamp` and `getTimeStamp` ask it.

`lock` sets the flag after it has got the lock, but `unlock` clears the flag after it has released
the lock. In between another thread can get the lock and set the flag. So the flag is wrong for the
holder after a thread has cleared it while another one holds the lock, and only then
(`holderSeen_run_iff`).
-/

set_option autoImplicit false

namespace Cluon

open Library TransitionSystem

/-- Where a thread is. -/
inductive Location where
  /-- outside of `lock` and `unlock`, without the lock -/
  | outside
  /-- in `lock`, before the lock of the operating system -/
  | locking
  /-- in `lock`, before `m_isLocked.store(true)` -/
  | locked
  /-- after `lock` has returned -/
  | holding
  /-- in `unlock`, before the lock of the operating system is released -/
  | unlocking
  /-- in `unlock`, before `m_isLocked.store(false)` -/
  | unlocked
  deriving DecidableEq, Repr

/-- The holder of the lock of the operating system, the flag, and where the threads are. -/
structure SharedMemory (θ : Type) where
  holder : Option θ
  m_isLocked : Bool
  location : θ → Location

namespace SharedMemory

variable {θ : Type}

/-- `isLocked()`. -/
def isLocked (s : SharedMemory θ) : Bool := s.m_isLocked

/-- `setTimeStamp(ts)`, where `futimens` gives zero if the time has been set to the given seconds
and nanoseconds. -/
def setTimeStamp (futimens : Int → Int → Int) (s : SharedMemory θ) (ts : TimeStamp.Values) : Bool :=
  s.isLocked && decide (futimens (TimeStamp.seconds ts).toInt
    (TimeStamp.microseconds ts * 1000).toInt = 0)

/-- `getTimeStamp()`, where `fstat` gives seconds and nanoseconds unless it fails. -/
def getTimeStamp (fstat : Option (Int × Int)) (s : SharedMemory θ) : Bool × TimeStamp.Values :=
  (s.isLocked, if s.isLocked then
    match fstat with
    | some (sec, nsec) => TimeStamp.of (BitVec.ofInt 32 sec) (BitVec.ofInt 32 (nsec.tdiv 1000))
    | none => TimeStamp.of 0 0
  else TimeStamp.of 0 0)

section Threads

variable [DecidableEq θ]

/-- A thread goes on. -/
def move (s : SharedMemory θ) (t : θ) (l : Location) : SharedMemory θ :=
  { s with location := Function.update s.location t l }

@[simp] theorem move_holder (s : SharedMemory θ) (t : θ) (l : Location) :
    (s.move t l).holder = s.holder := rfl

@[simp] theorem move_isLocked (s : SharedMemory θ) (t : θ) (l : Location) :
    (s.move t l).m_isLocked = s.m_isLocked := rfl

@[simp] theorem move_location (s : SharedMemory θ) (t : θ) (l : Location) :
    (s.move t l).location = Function.update s.location t l := rfl

/-- The steps of the threads. -/
inductive Step : SharedMemory θ → SharedMemory θ → Prop where
  | callLock {s : SharedMemory θ} {t : θ} : s.location t = .outside → Step s (s.move t .locking)
  | osLock {s : SharedMemory θ} {t : θ} : s.location t = .locking → s.holder = none →
      Step s ({ s with holder := some t }.move t .locked)
  | storeTrue {s : SharedMemory θ} {t : θ} : s.location t = .locked →
      Step s ({ s with m_isLocked := true }.move t .holding)
  | callUnlock {s : SharedMemory θ} {t : θ} : s.location t = .holding →
      Step s (s.move t .unlocking)
  | osUnlock {s : SharedMemory θ} {t : θ} : s.location t = .unlocking →
      Step s ({ s with holder := none }.move t .unlocked)
  | storeFalse {s : SharedMemory θ} {t : θ} : s.location t = .unlocked →
      Step s ({ s with m_isLocked := false }.move t .outside)

/-- Initially no thread has called anything. -/
def initial : SharedMemory θ := ⟨none, false, fun _ => .outside⟩

/-- The threads that share the memory. -/
def system (θ : Type) [DecidableEq θ] : TransitionSystem (SharedMemory θ) where
  init s := s = initial
  step := Step

/-! ## Mutual exclusion -/

/-- The thread is between the lock and the release of the operating system. -/
def HasLock (s : SharedMemory θ) (t : θ) : Prop :=
  s.location t = .locked ∨ s.location t = .holding ∨ s.location t = .unlocking

/-- The threads that have the lock are those that the operating system takes for its holder. -/
def Exclusive (s : SharedMemory θ) : Prop := ∀ t, s.HasLock t ↔ s.holder = some t

theorem hasLock_move {s : SharedMemory θ} {t u : θ} {l : Location} (other : u ≠ t) :
    (s.move t l).HasLock u ↔ s.HasLock u := by
  rw [HasLock, HasLock, move_location, Function.update_of_ne other]

theorem hasLock_move_self {s : SharedMemory θ} {t : θ} {l : Location} :
    (s.move t l).HasLock t ↔ l = .locked ∨ l = .holding ∨ l = .unlocking := by
  rw [HasLock, move_location, Function.update_self]

/-- A thread that goes on without the lock of the operating system changing. -/
theorem Exclusive.move {s : SharedMemory θ} (h : s.Exclusive) {t : θ} {l : Location}
    (same : s.HasLock t ↔ l = .locked ∨ l = .holding ∨ l = .unlocking) : (s.move t l).Exclusive := by
  intro u
  by_cases isT : u = t
  · subst isT
    rw [hasLock_move_self, ← same]
    exact h u
  · rw [hasLock_move isT]
    exact h u

theorem Exclusive.step {s s' : SharedMemory θ} (h : s.Exclusive) (step : Step s s') :
    s'.Exclusive := by
  cases step with
  | callLock here => exact h.move (by simp [HasLock, here])
  | storeTrue here =>
      have unchanged : ({ s with m_isLocked := true } : SharedMemory θ).Exclusive := h
      exact unchanged.move (by simpa [HasLock] using .inl here)
  | callUnlock here => exact h.move (by simp [HasLock, here])
  | storeFalse here =>
      have unchanged : ({ s with m_isLocked := false } : SharedMemory θ).Exclusive := h
      exact unchanged.move (by simp [HasLock, here])
  | @osLock t here free =>
      intro u
      by_cases isT : u = t
      · subst isT
        exact iff_of_true (hasLock_move_self.mpr (.inl rfl)) rfl
      · rw [hasLock_move isT]
        refine iff_of_false (fun has => ?_) fun same => isT (Option.some.inj same).symm
        cases free.symm.trans ((h u).mp has)
  | @osUnlock t here =>
      have holds : s.holder = some t := (h t).mp (.inr (.inr here))
      intro u
      by_cases isT : u = t
      · subst isT
        exact iff_of_false (mt hasLock_move_self.mp (by decide)) nofun
      · rw [hasLock_move isT]
        refine iff_of_false (fun has => isT ?_) nofun
        exact (Option.some.inj (holds.symm.trans ((h u).mp has))).symm

/-- **At most one thread has the lock.** -/
theorem eq_of_hasLock {s : SharedMemory θ} (reachable : (system θ).Reachable s) {t u : θ}
    (first : s.HasLock t) (second : s.HasLock u) : t = u := by
  have exclusive : s.Exclusive := by
    refine reachable.invariant ?_ fun _ _ h step => h.step step
    rintro s rfl t
    exact iff_of_false (by simp [HasLock, initial]) nofun
  exact Option.some.inj (((exclusive t).mp first).symm.trans ((exclusive u).mp second))

/-! ## The flag -/

/-- For a thread between its return from `lock` and its next call of `unlock`, the memory is locked,
and the calls for time stamps succeed if those of the operating system do. -/
structure HolderSeen (s : SharedMemory θ) : Prop where
  isLocked : ∀ t, s.location t = .holding → s.isLocked = true
  setTimeStamp : ∀ t, s.location t = .holding → ∀ futimens ts,
    futimens (TimeStamp.seconds ts).toInt (TimeStamp.microseconds ts * 1000).toInt = 0 →
      s.setTimeStamp futimens ts = true
  getTimeStamp : ∀ t, s.location t = .holding → ∀ sec nsec,
    s.getTimeStamp (some (sec, nsec)) =
      (true, TimeStamp.of (BitVec.ofInt 32 sec) (BitVec.ofInt 32 (nsec.tdiv 1000)))

/-- A step that is not that of a thread clearing the flag while another thread is between its return
from `lock` and its next call of `unlock`. -/
def NotClearedWhileHeld (s s' : SharedMemory θ) : Prop :=
  ∀ t, s.location t = .unlocked → s'.location t = .outside → ∀ u, s.location u ≠ .holding

omit [DecidableEq θ] in
/-- Everything depends on the flag. -/
theorem holderSeen_iff {s : SharedMemory θ} :
    HolderSeen s ↔ ∀ t, s.location t = .holding → s.m_isLocked = true := by
  constructor
  · exact HolderSeen.isLocked
  · intro h
    refine ⟨h, fun t holds futimens ts done => ?_, fun t holds sec nsec => ?_⟩
    · rw [SharedMemory.setTimeStamp, SharedMemory.isLocked, h t holds, Bool.true_and]
      exact decide_eq_true done
    · rw [SharedMemory.getTimeStamp, SharedMemory.isLocked, h t holds]
      rfl

/-- A thread that holds the lock after another thread, or itself, went on to another place. -/
theorem holding_of_move {s : SharedMemory θ} {t u : θ} {l : Location} (other : l ≠ .holding)
    (holds : (s.move t l).location u = .holding) : s.location u = .holding := by
  by_cases isT : u = t
  · rw [isT, move_location, Function.update_self] at holds
    exact absurd holds other
  · rwa [move_location, Function.update_of_ne isT] at holds

/-- **Step.** A holder stays seen unless the flag is cleared. -/
theorem HolderSeen.step {s s' : SharedMemory θ} (h : HolderSeen s) (step : Step s s')
    (notCleared : NotClearedWhileHeld s s') : HolderSeen s' := by
  rw [holderSeen_iff] at h ⊢
  intro u holds
  cases step with
  | callLock _ => exact h u (holding_of_move (by decide) holds)
  | osLock _ _ => exact h u (holding_of_move (by decide) holds)
  | storeTrue _ => rfl
  | callUnlock _ => exact h u (holding_of_move (by decide) holds)
  | osUnlock _ => exact h u (holding_of_move (by decide) holds)
  | @storeFalse t here =>
      have before := holding_of_move (by decide) holds
      have after := Function.update_self t Location.outside s.location
      exact absurd before (notCleared t here after u)

/-- A step after which holders are seen has not cleared the flag. -/
theorem notClearedWhileHeld {s s' : SharedMemory θ} (step : Step s s') (h : HolderSeen s') :
    NotClearedWhileHeld s s' := by
  intro t unlocked outside u holds
  have moved {r : θ} {l : Location} {m : SharedMemory θ} (same : m.location = s.location)
      (after : (m.move r l).location t = .outside) : l = .outside ∧ t = r := by
    by_cases isR : t = r
    · rw [isR, move_location, Function.update_self] at after
      exact ⟨after, isR⟩
    · rw [move_location, Function.update_of_ne isR, same, unlocked] at after
      cases after
  cases step with
  | callLock _ => cases (moved rfl outside).1
  | osLock _ _ => cases (moved (m := { s with holder := _ }) rfl outside).1
  | storeTrue _ => cases (moved (m := { s with m_isLocked := _ }) rfl outside).1
  | callUnlock _ => cases (moved rfl outside).1
  | osUnlock _ => cases (moved (m := { s with holder := _ }) rfl outside).1
  | @storeFalse r here =>
      obtain ⟨-, rfl⟩ := moved (m := { s with m_isLocked := _ }) rfl outside
      have other : u ≠ t := by
        rintro rfl
        cases unlocked.symm.trans holds
      have after : ({ s with m_isLocked := false }.move t .outside).location u = .holding := by
        rw [move_location, Function.update_of_ne other]
        exact holds
      cases h.isLocked u after

omit [DecidableEq θ] in
theorem holderSeen_initial : HolderSeen (initial : SharedMemory θ) :=
  holderSeen_iff.mpr nofun

/-- **A holder is seen in all states of a run** if and only if no thread clears the flag while
another thread holds the lock. -/
theorem holderSeen_run_iff {s : SharedMemory θ} {ss : List (SharedMemory θ)}
    (run : (system θ).Run s ss) :
    (∀ s' ∈ s :: ss, HolderSeen s') ↔ List.IsChain NotClearedWhileHeld (s :: ss) := by
  constructor
  · intro seen
    have steps := run.steps
    rw [List.isChain_iff_getElem] at steps ⊢
    intro i bound
    exact notClearedWhileHeld (steps i bound) (seen _ (List.getElem_mem bound))
  · intro notCleared
    refine run.forall_of_isChain ?_ (fun _ _ h step => h.step step) notCleared
    rintro _ rfl
    exact holderSeen_initial

end Threads

/-- A thread locks and unlocks the memory, and then another one locks it. -/
theorem holderSeen_run_twoThreads : ∃ ss : List (SharedMemory Bool), ss.length = 9 ∧
    ((∀ s' ∈ initial :: ss, HolderSeen s') ↔
      List.IsChain NotClearedWhileHeld (initial :: ss)) := by
  have run : (system Bool).Run initial [_, _, _, _, _, _, _, _, _] :=
    ⟨rfl, .cons_cons (Step.callLock (t := false) rfl) <|
      .cons_cons (Step.osLock (t := false) rfl rfl) <|
      .cons_cons (Step.storeTrue (t := false) rfl) <|
      .cons_cons (Step.callUnlock (t := false) rfl) <|
      .cons_cons (Step.osUnlock (t := false) rfl) <|
      .cons_cons (Step.storeFalse (t := false) rfl) <|
      .cons_cons (Step.callLock (t := true) rfl) <|
      .cons_cons (Step.osLock (t := true) rfl rfl) <|
      .cons_cons (Step.storeTrue (t := true) rfl) (.singleton _)⟩
  exact ⟨_, rfl, holderSeen_run_iff run⟩

/-- **Two threads.** The second one gets the lock after the first one has released it, and the first
one clears the flag after the second one has set it. -/
theorem not_holderSeen :
    ¬ ∀ s : SharedMemory Bool, (system Bool).Reachable s → HolderSeen s := by
  intro h
  have first := Reachable.initially (M := system Bool) (s := initial) rfl
  have first := first.next (Step.callLock (t := false) rfl)
  have first := first.next (Step.osLock (t := false) rfl rfl)
  have first := first.next (Step.storeTrue (t := false) rfl)
  have first := first.next (Step.callUnlock (t := false) rfl)
  have first := first.next (Step.osUnlock (t := false) rfl)
  have second := first.next (Step.callLock (t := true) rfl)
  have second := second.next (Step.osLock (t := true) rfl rfl)
  have second := second.next (Step.storeTrue (t := true) rfl)
  have cleared := second.next (Step.storeFalse (t := false) rfl)
  cases (h _ cleared).isLocked true rfl

end SharedMemory

end Cluon
