import Cluon.Library.TransitionSystem
import Mathlib.Logic.Function.Basic

/-!
# Waiting for notifications

Without a condition variable between processes, `waitSysV` waits for a semaphore to become 0, and
`notifyAllSysV` sets it to 0, which wakes all processes that sleep, and to 1 again. A process that
is woken up returns from `wait` at any later time. Processes may exit anywhere, calls may be
interrupted, and the creator may remove the semaphore.

No process sleeps through a notification, however many processes notify at once. A process wakes up
only while another one is notifying, or after one has been cut off between the two values, and it
returns from `wait` with a valid memory only after a notification that was not over when it called
(`notified`).
-/

set_option autoImplicit false

namespace Cluon

open Library TransitionSystem

/-- Where a process is. A process in `wait` knows how many notifications were over when it
called. -/
inductive ConditionCall where
  | idle
  /-- in `wait`, before `semop` -/
  | waiting (finished : Nat)
  /-- in `semop`, since a number of notifications -/
  | asleep (finished since : Nat)
  /-- in `wait`, after `semop` has succeeded -/
  | woken (finished : Nat)
  /-- in `wait`, after `semop` has failed -/
  | failed (finished : Nat)
  /-- in `notifyAll`, before the semaphore is set to `WAKEUP_VALUE` -/
  | notifying
  /-- in `notifyAll`, before the semaphore is set to `SLEEPING_VALUE` -/
  | resetting
  /-- the process has exited -/
  | gone
  deriving DecidableEq, Repr

/-- The call in which a process is when the semaphore has become 0. -/
def ConditionCall.wakeUp : ConditionCall → ConditionCall
  | .asleep finished _ => .woken finished
  | call => call

/-- The call in which a process is when the semaphore has been removed. -/
def ConditionCall.fail : ConditionCall → ConditionCall
  | .asleep finished _ => .failed finished
  | call => call

/-- A process that sleeps. -/
def ConditionCall.sleeps : ConditionCall → Bool
  | .asleep _ _ => true
  | _ => false

/-- How many notifications were over when a process called `wait`, if it is in it. -/
def ConditionCall.calledAt : ConditionCall → Option Nat
  | .waiting k | .asleep k _ | .woken k | .failed k => some k
  | _ => none

/-- A process has called `wait` when no more notifications were over than are now; one that has been
woken up, when fewer were over than have been made. -/
def ConditionCall.Heard (finished notifications : Nat) : ConditionCall → Prop
  | .waiting k | .asleep k _ => k ≤ finished
  | .woken k => k < notifications
  | _ => True

/-- The semaphore unless it has been removed, where the processes are, and whether a call has broken
their memory; how often the semaphore has been set to 0; and whether a process was cut off before it
set the semaphore to 1, and no other one has done so since. -/
structure Condition (π : Type) where
  value : Option Nat
  call : π → ConditionCall
  m_broken : π → Bool
  notifications : Nat
  cutOff : Bool

namespace Condition

/-- The value with which processes sleep. -/
def SLEEPING_VALUE : Nat := 1

/-- The value with which they wake up. -/
def WAKEUP_VALUE : Nat := 0

variable {π : Type} [DecidableEq π]

/-- The notifications that are over: the last one is not while the semaphore is 0. -/
def finished (s : Condition π) : Nat :=
  if s.value = some WAKEUP_VALUE then s.notifications - 1 else s.notifications

/-- A process goes on. -/
def move (s : Condition π) (p : π) (call : ConditionCall) : Condition π :=
  { s with call := Function.update s.call p call }

/-- A call of the operating system has failed; the process goes on. -/
def breaks (s : Condition π) (p : π) (call : ConditionCall) : Condition π :=
  { s.move p call with m_broken := Function.update s.m_broken p true }

/-- The semaphore is set to 0. -/
def wakeAll (s : Condition π) : Condition π :=
  { s with
    value := some WAKEUP_VALUE
    call := fun p => (s.call p).wakeUp
    notifications := s.notifications + 1 }

/-- The semaphore is set to 1. -/
def reset (s : Condition π) : Condition π :=
  { s with value := some SLEEPING_VALUE, cutOff := false }

/-- The semaphore is removed, with which the `semop` of the processes that sleep fails. -/
def removed (s : Condition π) : Condition π :=
  { s with value := none, call := fun p => (s.call p).fail }

/-- The steps of the processes and of the creator. -/
inductive Step : Condition π → Condition π → Prop
  | callWait {s : Condition π} {p : π} : s.call p = .idle → Step s (s.move p (.waiting s.finished))
  | semopReturns {s : Condition π} {p : π} {k : Nat} : s.call p = .waiting k →
      s.value = some 0 → Step s (s.move p (.woken k))
  | semopSleeps {s : Condition π} {p : π} {k v : Nat} : s.call p = .waiting k →
      s.value = some v → v ≠ 0 → Step s (s.move p (.asleep k s.notifications))
  | semopFails {s : Condition π} {p : π} {k : Nat} : s.call p = .waiting k →
      Step s (s.move p (.failed k))
  | interrupted {s : Condition π} {p : π} {k n : Nat} : s.call p = .asleep k n →
      Step s (s.move p (.failed k))
  | waitReturns {s : Condition π} {p : π} {k : Nat} : s.call p = .woken k → Step s (s.move p .idle)
  | waitBreaks {s : Condition π} {p : π} {k : Nat} : s.call p = .failed k →
      Step s (s.breaks p .idle)
  | callNotifyAll {s : Condition π} {p : π} : s.call p = .idle → Step s (s.move p .notifying)
  | setWakeup {s : Condition π} {p : π} {v : Nat} : s.call p = .notifying → s.value = some v →
      Step s (s.wakeAll.move p .resetting)
  | setWakeupFails {s : Condition π} {p : π} : s.call p = .notifying →
      Step s (s.breaks p .resetting)
  | setSleeping {s : Condition π} {p : π} {v : Nat} : s.call p = .resetting → s.value = some v →
      Step s (s.reset.move p .idle)
  | setSleepingFails {s : Condition π} {p : π} : s.call p = .resetting →
      Step s ({ s with cutOff := true }.breaks p .idle)
  | exit {s : Condition π} {p : π} : s.call p ≠ .gone → s.call p ≠ .resetting →
      Step s (s.move p .gone)
  | exitResetting {s : Condition π} {p : π} : s.call p = .resetting →
      Step s ({ s with cutOff := true }.move p .gone)
  | remove {s : Condition π} {v : Nat} : s.value = some v → Step s s.removed

/-- Initially no process has called anything. -/
def initial : Condition π := ⟨some SLEEPING_VALUE, fun _ => .idle, fun _ => false, 0, false⟩

/-- The processes that use the condition. -/
def system (π : Type) [DecidableEq π] : TransitionSystem (Condition π) where
  init s := s = initial
  step := Step

/-! ## Sleepers and notifiers -/

/-- Who sleeps, sleeps since the last notification, while the semaphore is 1. If it is 0, some
process is to reset it, unless one has been cut off. -/
structure Attended (s : Condition π) : Prop where
  asleep : ∀ p k n, s.call p = .asleep k n → n = s.notifications ∧ s.value = some 1
  value : ∀ v, s.value = some v → v = 0 ∨ v = 1
  resetting : s.value = some 0 → s.cutOff = true ∨ ∃ p, s.call p = .resetting

omit [DecidableEq π] in
theorem attended_initial : (initial : Condition π).Attended where
  asleep p k n asleep := by cases asleep
  value v same := .inr (Option.some.inj same).symm
  resetting zero := by cases zero

/-- Nobody sleeps after all have been woken up. -/
theorem ne_asleep_wakeUp (call : ConditionCall) (k n : Nat) : call.wakeUp ≠ .asleep k n := by
  cases call <;> simp [ConditionCall.wakeUp]

/-- Nobody sleeps at a semaphore that has been removed. -/
theorem ne_asleep_fail (call : ConditionCall) (k n : Nat) : call.fail ≠ .asleep k n := by
  cases call <;> simp [ConditionCall.fail]

/-- Another process goes on, or the process itself to a place where it does not sleep. -/
theorem call_move_asleep {s : Condition π} {p q : π} {call : ConditionCall} {k n : Nat}
    (awake : call ≠ .asleep k n) (asleep : (s.move p call).call q = .asleep k n) :
    s.call q = .asleep k n := by
  by_cases here : q = p
  · subst here
    simp only [move, Function.update_self] at asleep
    exact absurd asleep awake
  · simpa only [move, Function.update_of_ne here] using asleep

/-- A process goes on, without a change of the semaphore. -/
theorem Attended.move {s : Condition π} (inv : s.Attended) {p : π} {call : ConditionCall}
    (awake : call.sleeps = false) (kept : s.call p = .resetting → call = .resetting) :
    (s.move p call).Attended where
  asleep q k n asleep := by
    refine inv.asleep q k n (call_move_asleep ?_ asleep)
    rintro rfl
    cases awake
  value := inv.value
  resetting zero := by
    refine (inv.resetting zero).imp id fun ⟨q, resets⟩ => ⟨q, ?_⟩
    by_cases here : q = p
    · subst here
      simp only [Condition.move, Function.update_self]
      exact kept resets
    · simpa only [Condition.move, Function.update_of_ne here] using resets

/-- What is broken does not matter. -/
theorem Attended.breaks {s : Condition π} (inv : s.Attended) {p : π} {call : ConditionCall}
    (awake : call.sleeps = false) (kept : s.call p = .resetting → call = .resetting) :
    (s.breaks p call).Attended :=
  { inv.move awake kept with }

/-- A process is cut off before it resets the semaphore. -/
theorem Attended.cutOff {s : Condition π} (inv : s.Attended) {p : π} {call : ConditionCall}
    (awake : call.sleeps = false) : ({ s with cutOff := true }.move p call).Attended where
  asleep q k n asleep := by
    refine inv.asleep q k n (call_move_asleep ?_ asleep)
    rintro rfl
    cases awake
  value := inv.value
  resetting _ := .inl rfl

/-- **Step.** -/
theorem Attended.step {s s' : Condition π} (inv : s.Attended) (step : Step s s') :
    s'.Attended := by
  cases step with
  | callWait here | semopReturns here _ | semopFails here | interrupted here | waitReturns here
  | callNotifyAll here =>
      refine inv.move rfl fun resets => ?_
      rw [here] at resets
      cases resets
  | waitBreaks here =>
      refine inv.breaks rfl fun resets => ?_
      rw [here] at resets
      cases resets
  | setWakeupFails _ => exact inv.breaks rfl fun _ => rfl
  | exit _ other => exact inv.move rfl fun resets => absurd resets other
  | setSleepingFails _ => exact { inv.cutOff rfl with }
  | exitResetting _ => exact inv.cutOff rfl
  | @semopSleeps p _ v here same nonzero =>
      have one : v = 1 := (inv.value v same).resolve_left nonzero
      refine ⟨fun q k n asleep => ?_, inv.value, fun zero => ?_⟩
      · by_cases isP : q = p
        · subst isP
          simp only [Condition.move, Function.update_self, ConditionCall.asleep.injEq] at asleep
          exact ⟨asleep.2.symm, one ▸ same⟩
        · simp only [Condition.move, Function.update_of_ne isP] at asleep
          exact inv.asleep q k n asleep
      · exact absurd (Option.some.inj (same.symm.trans zero)) nonzero
  | @setWakeup p _ here _ =>
      refine ⟨fun q k n asleep => ?_, fun v same => .inl (Option.some.inj same).symm, fun _ =>
        .inr ⟨p, by simp only [Condition.move, Function.update_self]⟩⟩
      have before : s.wakeAll.call q = .asleep k n := call_move_asleep (by simp) asleep
      exact absurd before (ne_asleep_wakeUp _ k n)
  | setSleeping here _ =>
      refine ⟨fun q k n asleep => ?_, fun v same => .inr (Option.some.inj same).symm,
        fun zero => ?_⟩
      · have before : s.reset.call q = .asleep k n := call_move_asleep (by simp) asleep
        exact ⟨(inv.asleep q k n before).1, rfl⟩
      · cases zero
  | remove _ =>
      refine ⟨fun q k n asleep => absurd asleep (ne_asleep_fail _ k n), fun v same => ?_,
        fun zero => ?_⟩
      · cases same
      · cases zero

/-! ## What a process in `wait` has heard -/

/-- All processes have, and the semaphore has been set to 0 if it is. -/
structure Heard (s : Condition π) : Prop where
  zero : s.value = some WAKEUP_VALUE → 0 < s.notifications
  call : ∀ p, (s.call p).Heard s.finished s.notifications

omit [DecidableEq π] in
theorem heard_initial : (initial : Condition π).Heard where
  zero zero := by cases zero
  call _ := trivial

theorem heard_mono {call : ConditionCall} {k k' n n' : Nat} (heard : call.Heard k n)
    (more : k ≤ k') (made : n ≤ n') : call.Heard k' n' := by
  cases call with
  | waiting _ => exact Nat.le_trans heard more
  | asleep _ _ => exact Nat.le_trans heard more
  | woken _ => exact Nat.lt_of_lt_of_le heard made
  | _ => trivial

/-- Who is woken up hears of the notification. -/
theorem heard_wakeUp {call : ConditionCall} {k n : Nat} (heard : call.Heard k n) (le : k ≤ n) :
    call.wakeUp.Heard n (n + 1) := by
  cases call with
  | waiting _ => exact Nat.le_trans heard le
  | asleep _ _ => exact Nat.lt_succ_of_le (Nat.le_trans heard le)
  | woken _ => exact Nat.lt_succ_of_lt heard
  | _ => trivial

theorem heard_fail {call : ConditionCall} {k n : Nat} (heard : call.Heard k n) :
    call.fail.Heard k n := by
  cases call with
  | waiting _ => exact heard
  | woken _ => exact heard
  | _ => trivial

omit [DecidableEq π] in
theorem finished_le (s : Condition π) : s.finished ≤ s.notifications := by
  unfold finished
  split
  · exact Nat.sub_le _ _
  · exact le_rfl

omit [DecidableEq π] in
/-- While the semaphore is 0, the last notification is not over. -/
theorem Heard.finished_lt {s : Condition π} (inv : s.Heard) (zero : s.value = some 0) :
    s.finished < s.notifications := by
  have pending : s.finished = s.notifications - 1 := if_pos zero
  rw [pending]
  exact Nat.sub_lt (inv.zero zero) Nat.one_pos

/-- A process goes on, without a change of the semaphore. -/
theorem Heard.move {s : Condition π} (inv : s.Heard) {p : π} {call : ConditionCall}
    (heard : call.Heard s.finished s.notifications) : (s.move p call).Heard where
  zero := inv.zero
  call q := by
    change (Function.update s.call p call q).Heard s.finished s.notifications
    by_cases here : q = p
    · subst here
      rw [Function.update_self]
      exact heard
    · rw [Function.update_of_ne here]
      exact inv.call q

/-- What is broken does not matter. -/
theorem Heard.breaks {s : Condition π} (inv : s.Heard) {p : π} {call : ConditionCall}
    (heard : call.Heard s.finished s.notifications) : (s.breaks p call).Heard :=
  { inv.move heard with }

omit [DecidableEq π] in
theorem Heard.wakeAll {s : Condition π} (inv : s.Heard) : s.wakeAll.Heard where
  zero _ := Nat.succ_pos _
  call p := heard_wakeUp (inv.call p) s.finished_le

omit [DecidableEq π] in
theorem Heard.reset {s : Condition π} (inv : s.Heard) : s.reset.Heard where
  zero zero := by cases zero
  call p := heard_mono (inv.call p) s.finished_le le_rfl

omit [DecidableEq π] in
theorem Heard.removed {s : Condition π} (inv : s.Heard) : s.removed.Heard where
  zero zero := by cases zero
  call p := heard_fail (heard_mono (inv.call p) s.finished_le le_rfl)

/-- **Step.** -/
theorem Heard.step {s s' : Condition π} (inv : s.Heard) (step : Step s s') : s'.Heard := by
  have cut : Heard { s with cutOff := true } := { inv with }
  cases step with
  | callWait _ => exact inv.move (Nat.le_refl s.finished)
  | @semopReturns p k here zero =>
      have heard := inv.call p
      rw [here] at heard
      exact inv.move (Nat.lt_of_le_of_lt heard (inv.finished_lt zero))
  | @semopSleeps p k _ here _ _ =>
      have heard := inv.call p
      rw [here] at heard
      exact inv.move heard
  | semopFails _ | interrupted _ | waitReturns _ | callNotifyAll _ | exit _ _ =>
      exact inv.move trivial
  | waitBreaks _ | setWakeupFails _ => exact inv.breaks trivial
  | setWakeup _ _ => exact inv.wakeAll.move trivial
  | setSleeping _ _ => exact inv.reset.move trivial
  | setSleepingFails _ => exact cut.breaks trivial
  | exitResetting _ => exact cut.move trivial
  | remove _ => exact inv.removed

/-! ## The result -/

/-- A process wakes up in `wait`. -/
structure Wakes (s s' : Condition π) (p : π) (k : Nat) : Prop where
  before : s.call p ≠ .woken k
  woken : s'.call p = .woken k

/-- A call of `wait` returns that was made when `k` notifications were over, and the memory of the
process is not broken. -/
structure Returns (s s' : Condition π) (p : π) (k : Nat) : Prop where
  called : (s.call p).calledAt = some k
  returned : s'.call p = .idle
  valid : s'.m_broken p = false

omit [DecidableEq π] in
theorem Returns.ne_idle {s s' : Condition π} {p : π} {k : Nat} (returns : s.Returns s' p k) :
    s.call p ≠ .idle := by
  intro idle
  have called := returns.called
  rw [idle] at called
  cases called

/-- Who comes to another call, has gone on. -/
theorem eq_of_call_move {s : Condition π} {p q : π} {call there : ConditionCall}
    (before : s.call q ≠ there) (after : (s.move p call).call q = there) :
    q = p ∧ call = there := by
  by_cases here : q = p
  · subst here
    simp only [move, Function.update_self] at after
    exact ⟨rfl, after⟩
  · simp only [move, Function.update_of_ne here] at after
    exact absurd after before

theorem eq_idle_of_wakeUp {call : ConditionCall} (idle : call.wakeUp = .idle) : call = .idle := by
  cases call <;> simp_all [ConditionCall.wakeUp]

theorem eq_idle_of_fail {call : ConditionCall} (idle : call.fail = .idle) : call = .idle := by
  cases call <;> simp_all [ConditionCall.fail]

theorem eq_woken_of_fail {call : ConditionCall} {k : Nat} (woken : call.fail = .woken k) :
    call = .woken k := by
  cases call <;> simp_all [ConditionCall.fail]

/-- **Who wakes up is being notified.** -/
theorem exists_notifier {s s' : Condition π} (inv : s.Attended) (step : Step s s') {p : π} {k : Nat}
    (wakes : s.Wakes s' p k) :
    (∃ q, s.call q = .notifying ∨ s.call q = .resetting) ∨ s.cutOff = true := by
  have before := wakes.before
  have woken := wakes.woken
  cases step with
  | setWakeup here _ | setWakeupFails here => exact .inl ⟨_, .inl here⟩
  | setSleeping here _ | setSleepingFails here | exitResetting here => exact .inl ⟨_, .inr here⟩
  | semopReturns _ zero =>
      rcases inv.resetting zero with cut | ⟨q, resets⟩
      · exact .inr cut
      · exact .inl ⟨q, .inr resets⟩
  | callWait _ | semopSleeps _ _ _ | semopFails _ | interrupted _ | waitReturns _ | waitBreaks _
  | callNotifyAll _ | exit _ _ => cases (eq_of_call_move before woken).2
  | remove _ => exact absurd (eq_woken_of_fail woken) before

/-- **Who returns from `wait` has been notified.** -/
theorem notified_of_returns {s s' : Condition π} (inv : s.Heard) (step : Step s s') {p : π}
    {k : Nat} (returns : s.Returns s' p k) : k < s.notifications := by
  have before := returns.ne_idle
  have idle := returns.returned
  have called := returns.called
  have valid := returns.valid
  cases step with
  | waitReturns here =>
      obtain ⟨rfl, -⟩ := eq_of_call_move before idle
      have heard := inv.call p
      rw [here] at heard called
      cases called
      exact heard
  | waitBreaks _ =>
      obtain ⟨rfl, -⟩ := eq_of_call_move before idle
      simp only [breaks, Function.update_self, Bool.true_eq_false] at valid
  | setSleeping here _ =>
      obtain ⟨rfl, -⟩ := eq_of_call_move (s := s.reset) before idle
      rw [here] at called
      cases called
  | setSleepingFails here =>
      obtain ⟨rfl, -⟩ := eq_of_call_move before idle
      rw [here] at called
      cases called
  | setWakeup _ _ =>
      have awake : s.wakeAll.call p ≠ .idle := fun idle => before (eq_idle_of_wakeUp idle)
      cases (eq_of_call_move awake idle).2
  | remove _ => exact absurd (eq_idle_of_fail idle) before
  | callWait _ | semopReturns _ _ | semopSleeps _ _ _ | semopFails _ | interrupted _
  | callNotifyAll _ | setWakeupFails _ | exit _ _ | exitResetting _ =>
      cases (eq_of_call_move before idle).2

/-- **Notifications are neither missed nor made up.** In every reachable state a process that sleeps
has not slept through any notification. When a process wakes up, some process is in `notifyAll`, or
one has been cut off in it before it has reset the semaphore. When a call of `wait` returns with a
valid memory, there has been a notification that was not over when it was made. -/
theorem notified {s : Condition π} (h : (system π).Reachable s) :
    (∀ p k n, s.call p = .asleep k n → n = s.notifications ∧ s.value = some SLEEPING_VALUE) ∧
      (∀ s' p k, Step s s' → s.Wakes s' p k →
        (∃ q, s.call q = .notifying ∨ s.call q = .resetting) ∨ s.cutOff = true) ∧
      ∀ s' p k, Step s s' → s.Returns s' p k → k < s.notifications := by
  have inv : s.Attended ∧ s.Heard := by
    refine Reachable.invariant (M := system π) (I := fun s => s.Attended ∧ s.Heard) ?_
      (fun _ _ inv step => ⟨inv.1.step step, inv.2.step step⟩) h
    rintro _ rfl
    exact ⟨attended_initial, heard_initial⟩
  exact ⟨inv.1.asleep, fun s' p k step wakes => exists_notifier inv.1 step wakes,
    fun s' p k step returns => notified_of_returns inv.2 step returns⟩

/-- The first process has notified the second one, which has not returned yet, and is about to wake
the third one, which sleeps. -/
theorem notified_sleeper : ∃ s : Condition (Fin 3), s.call 0 = .notifying ∧ s.call 1 = .woken 0 ∧
    s.call 2 = .asleep 1 1 ∧
    (∀ p k n, s.call p = .asleep k n → n = s.notifications ∧ s.value = some SLEEPING_VALUE) ∧
    (∀ s' p k, Step s s' → s.Wakes s' p k →
      (∃ q, s.call q = .notifying ∨ s.call q = .resetting) ∨ s.cutOff = true) ∧
    ∀ s' p k, Step s s' → s.Returns s' p k → k < s.notifications := by
  have called := (Reachable.initially (M := system (Fin 3)) (s := initial) rfl).next
    (.callWait (p := 1) rfl)
  have asleep := called.next (.semopSleeps (p := 1) rfl rfl (by decide))
  have notifies := asleep.next (.callNotifyAll (p := 0) rfl)
  have woken := notifies.next (.setWakeup (p := 0) rfl rfl)
  have finished := woken.next (.setSleeping (p := 0) rfl rfl)
  have calledToo := finished.next (.callWait (p := 2) rfl)
  have asleepToo := calledToo.next (.semopSleeps (p := 2) rfl rfl (by decide))
  have notifiesAgain := asleepToo.next (.callNotifyAll (p := 0) rfl)
  exact ⟨_, rfl, rfl, rfl, notified notifiesAgain⟩

end Condition

end Cluon
