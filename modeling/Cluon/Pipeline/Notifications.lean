import Cluon.Pipeline.Delivery

/-!
# Notifications

Producers add an entry and notify the thread afterwards. A thread that is asleep although there
are entries is unattended (`Unattended`). A thread goes to sleep only if there are no entries,
as it holds the mutex from the predicate until it sleeps (`Attentive`). Hence only an entry that
is added while the thread sleeps leaves it unattended (`Attentive.not_unattended`), and a
notification ends that (`not_unattended_notifyAll`).
-/

set_option autoImplicit false

namespace Cluon

/-- The thread holds the mutex between two of its steps. -/
def Consumer.holdsMutex {α : Type} : Consumer α → Prop
  | .evaluate | .goToSleep | .waited => True
  | _ => False

namespace NotifyingPipeline

variable {α : Type} {hasDelegate : Bool}

/-- The thread is asleep although there are entries. -/
def Unattended (s : NotifyingPipeline α) : Prop := s.consumer = .asleep ∧ s.pipeline ≠ []

/-- The mutex is locked while the thread holds it, and there are no entries when the thread is
about to sleep. -/
structure Attentive (s : NotifyingPipeline α) : Prop where
  locked : s.consumer.holdsMutex → s.locked
  empty : s.consumer = .goToSleep → s.pipeline = []

theorem attentive_initial : (initial : NotifyingPipeline α).Attentive where
  locked h := h.elim
  empty h := nomatch h

/-- A thread that does not hold the mutex. -/
theorem Attentive.of_not_holdsMutex {s : NotifyingPipeline α} (free : ¬ s.consumer.holdsMutex) :
    s.Attentive where
  locked h := absurd h free
  empty h := absurd (by rw [h]; trivial) free

/-- Producers wait for the mutex. -/
theorem Attentive.not_holdsMutex {s : NotifyingPipeline α} (inv : s.Attentive)
    (unlocked : s.locked = false) : ¬ s.consumer.holdsMutex := fun holds =>
  absurd (inv.locked holds) (by rw [unlocked]; exact Bool.false_ne_true)

theorem Attentive.add {s : NotifyingPipeline α} (inv : s.Attentive) (unlocked : s.locked = false)
    (entry : α) : (s.add entry).Attentive :=
  .of_not_holdsMutex (inv.not_holdsMutex unlocked)

theorem Attentive.notifyAll {s : NotifyingPipeline α} (inv : s.Attentive) :
    s.notifyAll.Attentive := by
  rw [NotifyingPipeline.notifyAll]
  cases s.consumer with
  | asleep => exact .of_not_holdsMutex not_false
  | _ => exact inv

/-- A notified thread is not asleep. -/
theorem not_unattended_notifyAll (s : NotifyingPipeline α) : ¬ s.notifyAll.Unattended := by
  rintro ⟨asleep, _⟩
  rw [NotifyingPipeline.notifyAll] at asleep
  cases hc : s.consumer with
  | asleep => simp only [hc, if_true] at asleep; cases asleep
  | _ => simp only [hc, Bool.false_eq_true, if_false] at asleep; cases asleep

/-- **The steps of `processPipeline`**: none of them leaves the thread unattended. -/
theorem Attentive.processPipeline {s s' : NotifyingPipeline α} (inv : s.Attentive)
    (h : s.processPipeline hasDelegate = some s') : s'.Attentive ∧ ¬ s'.Unattended := by
  cases hc : s.consumer with
  | lock =>
      simp only [NotifyingPipeline.processPipeline, hc, Option.ite_none_left_eq_some,
        Option.some.injEq] at h
      obtain ⟨_, rfl⟩ := h
      exact ⟨⟨fun _ => rfl, fun sleeps => by cases sleeps⟩, fun unattended => by cases unattended.1⟩
  | evaluate =>
      simp only [NotifyingPipeline.processPipeline, hc, Option.some.injEq] at h
      have locked : s.locked := inv.locked (by rw [hc]; trivial)
      subst h
      by_cases done : s.waitPredicate
      · rw [if_pos done]
        exact ⟨⟨fun _ => locked, fun sleeps => by cases sleeps⟩,
          fun unattended => by cases unattended.1⟩
      · rw [if_neg done]
        have empty : s.pipeline = [] := by
          rw [waitPredicate, Bool.or_eq_true, not_or] at done
          simpa using done.2
        exact ⟨⟨fun _ => locked, fun _ => empty⟩, fun unattended => by cases unattended.1⟩
  | goToSleep =>
      have empty := inv.empty hc
      simp only [NotifyingPipeline.processPipeline, hc, Option.some.injEq] at h
      subst h
      exact ⟨.of_not_holdsMutex not_false, fun unattended => unattended.2 empty⟩
  | starting | waited =>
      simp only [NotifyingPipeline.processPipeline, hc, Option.some.injEq] at h
      subst h
      exact ⟨.of_not_holdsMutex not_false, fun unattended => by cases unattended.1⟩
  | checkRunning | nextEntry i entries =>
      simp only [NotifyingPipeline.processPipeline, hc, Option.some.injEq] at h
      subst h
      split <;> exact ⟨.of_not_holdsMutex not_false, fun unattended => by cases unattended.1⟩
  | countEntries =>
      simp only [NotifyingPipeline.processPipeline, hc, Option.ite_none_left_eq_some,
        Option.some.injEq] at h
      obtain ⟨_, rfl⟩ := h
      exact ⟨.of_not_holdsMutex not_false, fun unattended => by cases unattended.1⟩
  | front i entries | popFront entry i entries =>
      simp only [NotifyingPipeline.processPipeline, hc, Option.ite_none_left_eq_some] at h
      obtain ⟨_, h⟩ := h
      split at h <;> cases h <;>
        exact ⟨.of_not_holdsMutex not_false, fun unattended => by cases unattended.1⟩
  | deliver entry i entries =>
      simp only [NotifyingPipeline.processPipeline, hc, Option.some.injEq] at h
      subst h
      exact ⟨.of_not_holdsMutex not_false, fun unattended => by cases unattended.1⟩
  | asleep | exited | undefined => simp [NotifyingPipeline.processPipeline, hc] at h

/-- What a thread hands over, it adds to what it has handed over. -/
theorem delivered_processPipeline {s s' : NotifyingPipeline α}
    (h : s.processPipeline hasDelegate = some s') : s.delivered <+: s'.delivered := by
  cases hc : s.consumer with
  | deliver entry i entries =>
      simp only [NotifyingPipeline.processPipeline, hc, Option.some.injEq] at h
      subst h
      rw [deliver]
      split
      · exact List.prefix_append _ _
      · exact List.prefix_rfl
  | lock | countEntries =>
      simp only [NotifyingPipeline.processPipeline, hc, Option.ite_none_left_eq_some,
        Option.some.injEq] at h
      obtain ⟨_, rfl⟩ := h
      exact List.prefix_rfl
  | front i entries | popFront entry i entries =>
      simp only [NotifyingPipeline.processPipeline, hc, Option.ite_none_left_eq_some] at h
      obtain ⟨_, h⟩ := h
      split at h <;> cases h <;> exact List.prefix_rfl
  | starting | checkRunning | evaluate | goToSleep | waited | nextEntry i entries =>
      simp only [NotifyingPipeline.processPipeline, hc, Option.some.injEq] at h
      subst h
      exact List.prefix_rfl
  | asleep | exited | undefined => simp [NotifyingPipeline.processPipeline, hc] at h

/-- Only producers add entries. -/
theorem added_processPipeline {s s' : NotifyingPipeline α}
    (h : s.processPipeline hasDelegate = some s') : s'.added = s.added := by
  cases hc : s.consumer with
  | deliver entry i entries =>
      simp only [NotifyingPipeline.processPipeline, hc, Option.some.injEq] at h
      subst h
      rw [deliver]
      split <;> rfl
  | lock | countEntries =>
      simp only [NotifyingPipeline.processPipeline, hc, Option.ite_none_left_eq_some,
        Option.some.injEq] at h
      obtain ⟨_, rfl⟩ := h
      rfl
  | front i entries | popFront entry i entries =>
      simp only [NotifyingPipeline.processPipeline, hc, Option.ite_none_left_eq_some] at h
      obtain ⟨_, h⟩ := h
      split at h <;> cases h <;> rfl
  | starting | checkRunning | evaluate | goToSleep | waited | nextEntry i entries =>
      simp only [NotifyingPipeline.processPipeline, hc, Option.some.injEq] at h
      subst h
      rfl
  | asleep | exited | undefined => simp [NotifyingPipeline.processPipeline, hc] at h

theorem added_notifyAll (s : NotifyingPipeline α) : s.notifyAll.added = s.added := by
  rw [notifyAll]
  split <;> rfl

end NotifyingPipeline

end Cluon
