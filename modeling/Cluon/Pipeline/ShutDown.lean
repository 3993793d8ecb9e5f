import Cluon.Pipeline.NotifyingPipeline

/-!
# Shutting down a pipeline

The destructor resets the flag, notifies the thread, and joins it. A notification only reaches
a thread that is asleep. If the thread has evaluated the predicate of `wait` before the flag is
reset, and goes to sleep after it has been notified, it is stranded, and the destructor waits
for it. The destructor does neither of its steps under the mutex, so nothing excludes this.

`shutDown` says that this is the only way: unless the destructor notifies the thread between the
predicate and sleep, no reachable state is stranded.
-/

set_option autoImplicit false

namespace Cluon

open Library TransitionSystem

/-- The destructor has reset the flag. -/
def Owner.destroying : Owner → Prop
  | .stopped | .joining | .joined => True
  | _ => False

/-- The destructor has notified the thread. -/
def Owner.notified : Owner → Prop
  | .joining | .joined => True
  | _ => False

/-- Who has been notified has been stopped. -/
theorem Owner.notified.destroying {owner : Owner} (notified : owner.notified) :
    owner.destroying := by
  cases owner with
  | joining | joined => trivial
  | constructing | constructed | stopped => exact notified.elim

/-- The thread has found the predicate false: it sleeps, or it is about to. -/
def Consumer.rests {α : Type} : Consumer α → Prop
  | .goToSleep | .asleep => True
  | _ => False

namespace NotifyingPipeline

variable {α : Type} {hasDelegate : Bool}

/-- The destructor has reset the flag and notified the thread, which is asleep all the same. A
thread that has been notified is not asleep. -/
def Stranded (s : NotifyingPipeline α) : Prop := s.owner = .joining ∧ s.consumer = .asleep

/-- **Neither the thread nor the destructor can make a step** in a stranded state. -/
theorem Stranded.stuck {s : NotifyingPipeline α} (stranded : s.Stranded) :
    s.processPipeline hasDelegate = none ∧ s.consumer ≠ .exited ∧ s.owner ≠ .stopped := by
  obtain ⟨joining, asleep⟩ := stranded
  refine ⟨?_, ?_, ?_⟩
  · rw [processPipeline, asleep]
  · rw [asleep]
    exact nofun
  · rw [joining]
    exact nofun

/-- The destructor does not notify a thread that has evaluated the predicate and does not sleep
yet. -/
def NotifiesInTime (s s' : NotifyingPipeline α) : Prop :=
  s.owner = .stopped → s'.owner = .joining → s.consumer ≠ .goToSleep

/-! ## The invariant -/

/-- The flag is set by the thread and reset by the destructor, in this order, and a thread that
has been notified neither sleeps nor is about to. -/
structure WakesUp (s : NotifyingPipeline α) : Prop where
  started : s.running → s.consumer ≠ .starting
  constructed : s.owner ≠ .constructing → s.consumer ≠ .starting
  stopped : s.owner.destroying → s.running = false
  awake : s.owner.notified → ¬ s.consumer.rests

theorem wakesUp_initial : (initial : NotifyingPipeline α).WakesUp where
  started h := nomatch h
  constructed h := absurd rfl h
  stopped h := h.elim
  awake h := h.elim

/-- The thread moves on. -/
theorem WakesUp.move {s : NotifyingPipeline α} (inv : s.WakesUp) {consumer : Consumer α}
    {locked : Bool} {pipeline popped delivered : List α} (started : consumer ≠ .starting)
    (awake : s.owner.notified → ¬ consumer.rests) :
    WakesUp { s with
      locked := locked, pipeline := pipeline, consumer := consumer, popped := popped,
      delivered := delivered } where
  started _ := started
  constructed _ := started
  stopped := inv.stopped
  awake := awake

theorem notifyAll_of_asleep {s : NotifyingPipeline α} (asleep : s.consumer = .asleep) :
    s.notifyAll = { s with consumer := .lock } := by
  rw [NotifyingPipeline.notifyAll, asleep]
  rfl

/-- A notification does not reach a thread that is awake. -/
theorem notifyAll_of_awake {s : NotifyingPipeline α} (awake : s.consumer ≠ .asleep) :
    s.notifyAll = s := by
  rw [NotifyingPipeline.notifyAll]
  cases hc : s.consumer with
  | asleep => exact absurd hc awake
  | _ => rfl

theorem WakesUp.notifyAll {s : NotifyingPipeline α} (inv : s.WakesUp) : s.notifyAll.WakesUp := by
  by_cases asleep : s.consumer = .asleep
  · rw [notifyAll_of_asleep asleep]
    exact inv.move nofun fun _ => not_false
  · rw [notifyAll_of_awake asleep]
    exact inv

/-- Only a thread that is about to sleep sleeps after a notification. -/
theorem notifyAll_awake {s : NotifyingPipeline α} (inTime : s.consumer ≠ .goToSleep) :
    ¬ s.notifyAll.consumer.rests := by
  by_cases asleep : s.consumer = .asleep
  · rw [notifyAll_of_asleep asleep]
    exact not_false
  · rw [notifyAll_of_awake asleep]
    intro rests
    cases hc : s.consumer with
    | goToSleep => exact inTime hc
    | asleep => exact asleep hc
    | _ => rw [hc] at rests; exact rests

/-- **The steps of `processPipeline`.** Once the flag is reset, the predicate is true. -/
theorem WakesUp.processPipeline {s s' : NotifyingPipeline α} (inv : s.WakesUp)
    (h : s.processPipeline hasDelegate = some s') : s'.WakesUp := by
  cases hc : s.consumer with
  | starting =>
      simp only [NotifyingPipeline.processPipeline, hc, Option.some.injEq] at h
      subst h
      -- The constructor still waits for the flag.
      have constructing : s.owner = .constructing := by
        by_contra constructed
        exact inv.constructed constructed hc
      refine ⟨fun _ => nofun, fun _ => nofun, fun destroying => ?_,
        fun _ => not_false⟩
      simp only [constructing] at destroying
      exact destroying.elim
  | checkRunning =>
      simp only [NotifyingPipeline.processPipeline, hc, Option.some.injEq] at h
      subst h
      split <;> exact inv.move nofun fun _ => not_false
  | evaluate =>
      simp only [NotifyingPipeline.processPipeline, hc, Option.some.injEq] at h
      subst h
      by_cases done : s.waitPredicate
      · rw [if_pos done]
        exact inv.move nofun fun _ => not_false
      · rw [if_neg done]
        refine inv.move nofun fun notified => absurd ?_ done
        rw [waitPredicate, inv.stopped notified.destroying]
        rfl
  | goToSleep =>
      simp only [NotifyingPipeline.processPipeline, hc, Option.some.injEq] at h
      subst h
      refine inv.move nofun fun notified => absurd ?_ (inv.awake notified)
      rw [hc]
      trivial
  | waited =>
      simp only [NotifyingPipeline.processPipeline, hc, Option.some.injEq] at h
      subst h
      exact inv.move nofun fun _ => not_false
  | lock | countEntries =>
      simp only [NotifyingPipeline.processPipeline, hc, Option.ite_none_left_eq_some,
        Option.some.injEq] at h
      obtain ⟨_, rfl⟩ := h
      exact inv.move nofun fun _ => not_false
  | nextEntry i entries =>
      simp only [NotifyingPipeline.processPipeline, hc, Option.some.injEq] at h
      subst h
      split <;>
        exact inv.move nofun fun _ => not_false
  | front i entries | popFront entry i entries =>
      simp only [NotifyingPipeline.processPipeline, hc, Option.ite_none_left_eq_some] at h
      obtain ⟨_, h⟩ := h
      split at h <;> cases h <;>
        exact inv.move nofun fun _ => not_false
  | deliver entry i entries =>
      simp only [NotifyingPipeline.processPipeline, hc, Option.some.injEq] at h
      subst h
      rw [deliver]
      split <;>
        exact inv.move nofun fun _ => not_false
  | asleep | exited | undefined => simp [NotifyingPipeline.processPipeline, hc] at h

/-- **Every step** that notifies the thread in time keeps it from sleeping on. -/
theorem wakesUp_step {s s' : NotifyingPipeline α} (inv : s.WakesUp) (step : Step hasDelegate s s')
    (inTime : NotifiesInTime s s') : s'.WakesUp := by
  cases step with
  | add entry _ => exact { inv with }
  | notifyAll => exact inv.notifyAll
  | spuriousWakeUp _ =>
      exact inv.move nofun fun _ => not_false
  | processPipeline h => exact inv.processPipeline h
  | constructed _ running =>
      exact ⟨inv.started, fun _ => inv.started running, False.elim, False.elim⟩
  | stop owner =>
      have constructed : s.owner ≠ .constructing := by
        rw [owner]
        exact nofun
      exact ⟨nofun, fun _ => inv.constructed constructed, fun _ => rfl, False.elim⟩
  | notify owner =>
      have notified := inv.notifyAll
      have reset : s.running = false := inv.stopped (by rw [owner]; trivial)
      have same : s.notifyAll.running = s.running ∧ s.notifyAll.owner = s.owner := by
        by_cases asleep : s.consumer = .asleep
        · rw [notifyAll_of_asleep asleep]
          exact ⟨rfl, rfl⟩
        · rw [notifyAll_of_awake asleep]
          exact ⟨rfl, rfl⟩
      refine ⟨notified.started, fun _ => notified.constructed ?_, fun _ => same.1.trans reset,
        fun _ => notifyAll_awake (inTime owner rfl)⟩
      rw [same.2, owner]
      exact nofun
  | join owner exited =>
      refine ⟨inv.started, fun _ => inv.constructed ?_, fun _ => inv.stopped ?_,
        fun _ => inv.awake ?_⟩
      · rw [owner]
        exact nofun
      · rw [owner]
        trivial
      · rw [owner]
        trivial

/-! ## Stranded threads -/

/-- **No thread is stranded in a run** whose destructor notifies it in time. Where it does not,
the next step of the thread strands it, without any step of a producer. -/
theorem shutDown (α : Type) (hasDelegate : Bool) :
    (∀ s, ((system α hasDelegate).restrict NotifiesInTime).Reachable s → ¬ s.Stranded) ∧
      ∀ s s' : NotifyingPipeline α, Step hasDelegate s s' → ¬ NotifiesInTime s s' →
        ∃ s'', s'.processPipeline hasDelegate = some s'' ∧ s''.Stranded := by
  constructor
  · intro s reachable stranded
    have inv : s.WakesUp := Reachable.invariant
      (M := (system α hasDelegate).restrict NotifiesInTime) (I := WakesUp)
      (fun s init => by cases init; exact wakesUp_initial)
      (fun _ _ inv step => wakesUp_step inv step.1 step.2) reachable
    obtain ⟨joining, asleep⟩ := stranded
    have awake := inv.awake (by rw [joining]; trivial)
    rw [asleep] at awake
    exact awake trivial
  · intro s s' step late
    simp only [NotifiesInTime, not_forall, not_not] at late
    obtain ⟨stopped, joining, goToSleep⟩ := late
    have awake : s.consumer ≠ .asleep := by
      rw [goToSleep]
      exact nofun
    cases step with
    | notify _ =>
        rw [notifyAll_of_awake awake]
        refine ⟨{ s with locked := false, consumer := .asleep, owner := .joining }, ?_, rfl, rfl⟩
        rw [processPipeline, goToSleep]
    | add entry _ => exact absurd (stopped.symm.trans joining) nofun
    | notifyAll =>
        rw [notifyAll_of_awake awake] at joining
        exact absurd (stopped.symm.trans joining) nofun
    | spuriousWakeUp _ => exact absurd (stopped.symm.trans joining) nofun
    | processPipeline h =>
        simp only [NotifyingPipeline.processPipeline, goToSleep, Option.some.injEq] at h
        subst h
        exact absurd (stopped.symm.trans joining) nofun
    | constructed owner _ => exact absurd (stopped.symm.trans owner) nofun
    | stop owner => exact absurd (stopped.symm.trans owner) nofun
    | join owner _ => exact absurd (stopped.symm.trans owner) nofun

/-- **A thread can be stranded**: it has found the pipeline empty and the flag set, then the
destructor resets the flag and notifies, and then the thread goes to sleep. Nobody has ever added
an entry. -/
theorem exists_stranded : ∃ s, (system Nat true).Reachable s ∧ s.Stranded ∧ s.added = [] := by
  have step : ∀ {s s' : NotifyingPipeline Nat}, (system Nat true).Reachable s →
      s.processPipeline true = some s' → (system Nat true).Reachable s' :=
    fun reached h => reached.next (.processPipeline h)
  have started := step (Reachable.initially (M := system Nat true) rfl) rfl
  have constructed := started.next (Step.constructed rfl rfl)
  have evaluated := step (step (step constructed rfl) rfl) rfl
  have stopped := evaluated.next (Step.stop rfl)
  have notified := stopped.next (Step.notify rfl)
  exact ⟨_, step notified rfl, ⟨rfl, rfl⟩, rfl⟩

end NotifyingPipeline

end Cluon
