import Cluon.Session.Time
import Mathlib.Data.List.Chain
import Mathlib.Tactic.Ring

/-!
# The time trigger

`timeTrigger` calls a delegate again and again, and sleeps after each call for what is left of the
time slice. It stops after a call that returned false or threw an exception, or when the program
is asked to terminate.

The delegate is never called more often than the frequency says, however long its calls take, and
also when the seconds of the time stamps exceed 32 bits in between (`spacing`). The time point of
a call is known up to a microsecond, as time stamps have no smaller unit.
-/

set_option autoImplicit false

namespace Cluon

namespace OD4Session

/-- One round of the loop: the time points, in nanoseconds, at which the clock is read before and
after the delegate is called, what the delegate returns unless it throws, and whether the program
has been asked to terminate. -/
structure Round where
  before : Int
  after : Int
  returns : Option Bool
  isTerminated : Bool

namespace Round

/-- `timeSpent`, in milliseconds. -/
def timeSpent (r : Round) : Int :=
  let beforeInMicroseconds := toMicroseconds (time.convert r.before)
  let afterInMicroseconds := toMicroseconds (time.convert r.after)
  if afterInMicroseconds > beforeInMicroseconds then
    (afterInMicroseconds - beforeInMicroseconds).tdiv 1000
  else 0

/-- `timeToSleepInMilliseconds`, if the thread sleeps. -/
def timeToSleep (slice : BitVec 32) (r : Round) : Option Int :=
  let timeToSleepInMilliseconds := slice.toNat - r.timeSpent
  if timeToSleepInMilliseconds > 0 ∧ timeToSleepInMilliseconds ≤ slice.toNat then
    some timeToSleepInMilliseconds
  else none

/-- The condition at the end of the loop. -/
def continues (r : Round) : Bool := r.returns.getD false && !r.isTerminated

/-- The next round begins after the thread has slept, at least as long as it was asked to. -/
def IsFollowedBy (slice : BitVec 32) (r r' : Round) : Prop :=
  r.continues ∧ r.after + (r.timeToSleep slice).getD 0 * 1000000 ≤ r'.before

/-- The clock is read after 1970, and does not go backwards during the call. -/
def OnClock (r : Round) : Prop := 0 ≤ r.before ∧ r.before ≤ r.after

end Round

/-- The rounds of `timeTrigger` so far. -/
structure TimeTrigger (slice : BitVec 32) (rounds : List Round) : Prop where
  nonempty : rounds ≠ []
  follows : List.IsChain (Round.IsFollowedBy slice) rounds
  onClock : ∀ r ∈ rounds, r.OnClock

/-! ## One round -/

/-- The seconds of a time stamp, up to a multiple of 2^32. -/
theorem toInt_ofInt_seconds (q : Int) :
    (BitVec.ofInt 32 q).toInt = (q + 2147483648) % 4294967296 - 2147483648 := by
  rw [BitVec.toInt_ofInt, Int.bmod]
  norm_num
  split <;> omega

/-- **The time that is measured is never longer than the time that has passed**, as the seconds of
a later time point have lost at least as many multiples of 2^32. -/
theorem measured_le {before after : Int} (since : 0 ≤ before) (later : before ≤ after) :
    toMicroseconds (time.convert after) - toMicroseconds (time.convert before) ≤
      after / 1000 - before / 1000 := by
  have since' : 0 ≤ after := since.trans later
  have whole : ∀ {x : Int}, 0 ≤ x → toMicroseconds (time.convert x) =
      ((x / 1000 / 1000000 + 2147483648) % 4294967296 - 2147483648) * 1000000 +
        x / 1000 % 1000000 := by
    intro x nonneg
    have quotient : 0 ≤ x / 1000 := by omega
    rw [time.convert_eq, time.toMicroseconds_fromMicroseconds, toInt_ofInt_seconds,
      Int.tdiv_eq_ediv_of_nonneg nonneg, Int.tdiv_eq_ediv_of_nonneg quotient,
      Int.tmod_eq_emod_of_nonneg quotient]
  rw [whole since, whole since']
  omega

/-- A round takes at least as long as the time slice. -/
theorem spacing_next {slice : BitVec 32} {r r' : Round} (onClock : r.OnClock)
    (follows : r.IsFollowedBy slice r') :
    r.before / 1000 + slice.toNat * 1000 ≤ r'.before / 1000 := by
  obtain ⟨since, later⟩ := onClock
  have measured := measured_le since later
  have spent : 0 ≤ r.timeSpent ∧ r.timeSpent * 1000 ≤ r.after / 1000 - r.before / 1000 := by
    simp only [Round.timeSpent]
    split
    case isTrue longer =>
      rw [Int.tdiv_eq_ediv_of_nonneg (by omega)]
      omega
    case isFalse => omega
  have sleeps := follows.2
  simp only [Round.timeToSleep] at sleeps
  split at sleeps
  case isTrue => rw [Option.getD_some] at sleeps; omega
  case isFalse short => rw [Option.getD_none] at sleeps; omega

/-! ## All rounds -/

/-- **The delegate is not called more often than the frequency says.** Between the beginnings of
two calls there is at least the time slice for each round in between. All calls but the last one
have returned true without a request to terminate, and the thread never sleeps longer than the
time slice. -/
theorem spacing {slice : BitVec 32} {rounds : List Round} (run : TimeTrigger slice rounds) :
    (∀ (i j : Nat) (before : i ≤ j) (h : j < rounds.length),
      rounds[i].before / 1000 + (j - i) * (slice.toNat * 1000) ≤ rounds[j].before / 1000) ∧
      (∀ r ∈ rounds.dropLast, r.returns = some true ∧ r.isTerminated = false) ∧
      ∀ r ∈ rounds, (r.timeToSleep slice).getD 0 ≤ slice.toNat := by
  refine ⟨fun i j before h => ?_, fun r mem => ?_, fun r mem => ?_⟩
  · induction j, before using Nat.le_induction with
    | base => omega
    | succ j le ih =>
        have earlier : j < rounds.length := by omega
        have follows := List.isChain_iff_getElem.mp run.follows j (by omega)
        have next := spacing_next (run.onClock _ (List.getElem_mem earlier)) follows
        have before := ih earlier
        have more : ((j + 1 : Nat) - i : Int) * (slice.toNat * 1000) =
            (j - i) * (slice.toNat * 1000) + slice.toNat * 1000 := by
          push_cast
          ring
        rw [more]
        omega
  · obtain ⟨i, h, rfl⟩ := List.getElem_of_mem mem
    rw [List.length_dropLast] at h
    have inside : i < rounds.length := by omega
    have follows := List.isChain_iff_getElem.mp run.follows i (by omega)
    rw [List.getElem_dropLast]
    have continues := follows.1
    rw [Round.continues, Bool.and_eq_true, Bool.not_eq_true'] at continues
    refine ⟨?_, continues.2⟩
    cases returns : rounds[i].returns with
    | none => rw [returns] at continues; exact absurd continues.1 (by decide)
    | some b => rw [returns] at continues; rw [← continues.1]; rfl
  · rw [Round.timeToSleep]
    split
    case isTrue h => exact h.2
    case isFalse => exact Int.natCast_nonneg _

/-- Two calls at 10 Hz: the first one takes 30 ms, the second one throws. -/
def exampleRounds : List Round :=
  [⟨0, 30000000, some true, false⟩, ⟨100000000, 100000001, none, false⟩]

theorem timeTrigger_exampleRounds : TimeTrigger 100 exampleRounds where
  nonempty := nofun
  follows := List.isChain_pair.mpr ⟨rfl, by decide +kernel⟩
  onClock := by
    intro r mem
    rcases List.mem_cons.mp mem with rfl | mem
    · exact ⟨by norm_num, by norm_num⟩
    · rw [List.mem_singleton.mp mem]
      exact ⟨by norm_num, by norm_num⟩

theorem spacing_exampleRounds :
    (∀ (i j : Nat) (before : i ≤ j) (h : j < exampleRounds.length),
      exampleRounds[i].before / 1000 + (j - i) * ((100 : BitVec 32).toNat * 1000) ≤
        exampleRounds[j].before / 1000) ∧
      (∀ r ∈ exampleRounds.dropLast, r.returns = some true ∧ r.isTerminated = false) ∧
      ∀ r ∈ exampleRounds, (r.timeToSleep 100).getD 0 ≤ (100 : BitVec 32).toNat :=
  spacing timeTrigger_exampleRounds

end OD4Session

end Cluon
