import Cluon.Pipeline.NotifyingPipeline

/-!
# Delivery of a pipeline's entries

The entries that were counted and not yet removed are still in the deque, because producers
only append to it and nobody but the counting thread removes entries (`Counted`). The entry
in delivery is the front of the deque for the same reason. Hence entries are delivered in
the order in which they were added, each of them once (`delivered_prefix`).
-/

set_option autoImplicit false

namespace Cluon

open Library TransitionSystem

namespace NotifyingPipeline

variable {α : Type} {hasDelegate : Bool}

/-- As many entries as the thread has counted and not removed are in the deque, and the entry
in delivery is the first of them. -/
def Counted : Consumer α → List α → Prop
  | .nextEntry i entries, pipeline =>
      i.toNat ≤ entries.toNat ∧ entries.toNat - i.toNat ≤ pipeline.length
  | .front i entries, pipeline =>
      i.toNat < entries.toNat ∧ entries.toNat - i.toNat ≤ pipeline.length
  | .deliver entry i entries, pipeline =>
      (i.toNat < entries.toNat ∧ entries.toNat - i.toNat ≤ pipeline.length) ∧
        pipeline.head? = some entry
  | .popFront entry i entries, pipeline =>
      (i.toNat < entries.toNat ∧ entries.toNat - i.toNat ≤ pipeline.length) ∧
        pipeline.head? = some entry
  | .undefined, _ => False
  | _, _ => True

/-- The entry that was handed over and is still in the deque. -/
def handedOver : Consumer α → List α
  | .popFront entry _ _ => [entry]
  | _ => []

/-- What holds in every reachable state of a pipeline. -/
structure Invariant (hasDelegate : Bool) (s : NotifyingPipeline α) : Prop where
  added_eq : s.added = s.popped ++ s.pipeline
  delivered_eq : s.delivered = if hasDelegate then s.popped ++ handedOver s.consumer else []
  counted : Counted s.consumer s.pipeline

theorem invariant_initial : (initial : NotifyingPipeline α).Invariant hasDelegate where
  added_eq := rfl
  delivered_eq := by cases hasDelegate <;> rfl
  counted := trivial

/-- Producers only append, which leaves counted entries in their place. -/
theorem Counted.append {consumer : Consumer α} {pipeline : List α}
    (counted : Counted consumer pipeline) (entry : α) :
    Counted consumer (pipeline ++ [entry]) := by
  have head : ∀ {e : α}, pipeline.head? = some e → (pipeline ++ [entry]).head? = some e := by
    intro e h
    rw [List.head?_append, h]
    rfl
  have longer : ∀ {n : Nat}, n ≤ pipeline.length → n ≤ (pipeline ++ [entry]).length := by
    intro n h
    rw [List.length_append]
    exact Nat.le_add_right_of_le h
  cases consumer with
  | nextEntry i entries => exact ⟨counted.1, longer counted.2⟩
  | front i entries => exact ⟨counted.1, longer counted.2⟩
  | deliver e i entries => exact ⟨⟨counted.1.1, longer counted.1.2⟩, head counted.2⟩
  | popFront e i entries => exact ⟨⟨counted.1.1, longer counted.1.2⟩, head counted.2⟩
  | undefined => exact counted
  | _ => trivial

/-- `front()` is called on a deque that is not empty. -/
theorem Counted.exists_front {i entries : BitVec 32} {pipeline : List α}
    (counted : Counted (.front i entries) pipeline) :
    ∃ entry rest, pipeline = entry :: rest := by
  obtain ⟨inside, enough⟩ := counted
  cases pipeline with
  | nil =>
      rw [List.length_nil] at enough
      omega
  | cons entry rest => exact ⟨entry, rest, rfl⟩

/-- `pop_front()` removes the entry that has been delivered, and one less is to be delivered. -/
theorem Counted.exists_rest {entry : α} {i entries : BitVec 32} {pipeline : List α}
    (counted : Counted (.popFront entry i entries) pipeline) :
    ∃ rest, pipeline = entry :: rest ∧ Counted (.nextEntry (i + 1) entries) rest := by
  obtain ⟨⟨inside, enough⟩, head⟩ := counted
  obtain ⟨rest, rfl⟩ := List.head?_eq_some_iff.mp head
  rw [List.length_cons] at enough
  have next : (i + 1).toNat = i.toNat + 1 := by
    have bound := entries.isLt
    have one : (1 : BitVec 32).toNat = 1 := rfl
    rw [BitVec.toNat_add, one]
    omega
  refine ⟨rest, rfl, ?_⟩
  rw [Counted, next]
  omega

theorem Invariant.add {s : NotifyingPipeline α} (inv : s.Invariant hasDelegate) (entry : α) :
    (s.add entry).Invariant hasDelegate where
  added_eq := by simp only [NotifyingPipeline.add, inv.added_eq, List.append_assoc]
  delivered_eq := inv.delivered_eq
  counted := inv.counted.append entry

/-- A thread that is not between taking and removing an entry. -/
theorem Invariant.move {s : NotifyingPipeline α} (inv : s.Invariant hasDelegate)
    (before : handedOver s.consumer = []) {running locked : Bool} {owner : Owner}
    {consumer : Consumer α} (after : handedOver consumer = [])
    (counted : Counted consumer s.pipeline) :
    Invariant hasDelegate { s with
      running := running, locked := locked, owner := owner, consumer := consumer } where
  added_eq := inv.added_eq
  delivered_eq := by
    rw [inv.delivered_eq, before, after]
  counted := counted

theorem Invariant.notifyAll {s : NotifyingPipeline α} (inv : s.Invariant hasDelegate) :
    s.notifyAll.Invariant hasDelegate := by
  rw [NotifyingPipeline.notifyAll]
  cases hc : s.consumer with
  | asleep => exact inv.move (by rw [hc]; rfl) rfl trivial
  | _ => exact inv

/-- **The steps of `processPipeline`.** -/
theorem Invariant.processPipeline {s s' : NotifyingPipeline α} (inv : s.Invariant hasDelegate)
    (h : s.processPipeline hasDelegate = some s') : s'.Invariant hasDelegate := by
  have counted := inv.counted
  cases hc : s.consumer with
  | starting =>
      simp only [NotifyingPipeline.processPipeline, hc, Option.some.injEq] at h
      subst h
      exact inv.move (by rw [hc]; rfl) rfl trivial
  | checkRunning =>
      simp only [NotifyingPipeline.processPipeline, hc, Option.some.injEq] at h
      subst h
      cases s.running <;> exact inv.move (by rw [hc]; rfl) rfl trivial
  | lock =>
      simp only [NotifyingPipeline.processPipeline, hc, Option.ite_none_left_eq_some,
        Option.some.injEq] at h
      obtain ⟨_, rfl⟩ := h
      exact inv.move (by rw [hc]; rfl) rfl trivial
  | evaluate =>
      simp only [NotifyingPipeline.processPipeline, hc, Option.some.injEq] at h
      subst h
      cases s.waitPredicate <;> exact inv.move (by rw [hc]; rfl) rfl trivial
  | goToSleep =>
      simp only [NotifyingPipeline.processPipeline, hc, Option.some.injEq] at h
      subst h
      exact inv.move (by rw [hc]; rfl) rfl trivial
  | waited =>
      simp only [NotifyingPipeline.processPipeline, hc, Option.some.injEq] at h
      subst h
      exact inv.move (by rw [hc]; rfl) rfl trivial
  | countEntries =>
      simp only [NotifyingPipeline.processPipeline, hc, Option.ite_none_left_eq_some,
        Option.some.injEq] at h
      obtain ⟨_, rfl⟩ := h
      -- The number of entries is reduced to 32 bits, so it can only be too small.
      have reduced : (BitVec.ofNat 32 s.pipeline.length).toNat ≤ s.pipeline.length := by
        rw [BitVec.toNat_ofNat]
        exact Nat.mod_le _ _
      exact inv.move (by rw [hc]; rfl) rfl ⟨Nat.zero_le _, Nat.le_trans (Nat.sub_le _ _) reduced⟩
  | nextEntry i entries =>
      rw [hc] at counted
      simp only [NotifyingPipeline.processPipeline, hc, Option.some.injEq] at h
      subst h
      by_cases more : i < entries
      · rw [if_pos more]
        exact inv.move (by rw [hc]; rfl) rfl ⟨BitVec.lt_def.mp more, counted.2⟩
      · rw [if_neg more]
        exact inv.move (by rw [hc]; rfl) rfl trivial
  | front i entries =>
      rw [hc] at counted
      simp only [NotifyingPipeline.processPipeline, hc, Option.ite_none_left_eq_some] at h
      obtain ⟨_, h⟩ := h
      obtain ⟨entry, rest, hp⟩ := counted.exists_front
      have front : Counted (.deliver entry i entries) s.pipeline := ⟨counted, by rw [hp]; rfl⟩
      split at h
      case h_1 first others hp' =>
          cases h
          rw [hp, List.cons.injEq] at hp'
          exact inv.move (by rw [hc]; rfl) rfl (hp'.1 ▸ front)
      case h_2 empty =>
          rw [hp] at empty
          cases empty
  | deliver entry i entries =>
      rw [hc] at counted
      simp only [NotifyingPipeline.processPipeline, hc, Option.some.injEq] at h
      subst h
      have delivered := inv.delivered_eq
      rw [hc] at delivered
      cases hasDelegate with
      | false => exact ⟨inv.added_eq, delivered, counted⟩
      | true =>
          refine ⟨inv.added_eq, ?_, counted⟩
          simp only [deliver, if_true, delivered, handedOver, List.append_nil]
  | popFront entry i entries =>
      rw [hc] at counted
      simp only [NotifyingPipeline.processPipeline, hc, Option.ite_none_left_eq_some] at h
      obtain ⟨_, h⟩ := h
      obtain ⟨rest, hp, later⟩ := counted.exists_rest
      split at h
      case h_1 first others hp' =>
          cases h
          rw [hp, List.cons.injEq] at hp'
          obtain ⟨rfl, rfl⟩ := hp'
          have delivered := inv.delivered_eq
          rw [hc] at delivered
          refine ⟨?_, ?_, later⟩
          · rw [inv.added_eq, hp, List.append_assoc]
            rfl
          · cases hasDelegate with
            | false => exact delivered
            | true => simpa only [handedOver, List.append_nil] using delivered
      case h_2 empty =>
          rw [hp] at empty
          cases empty
  | asleep => simp [NotifyingPipeline.processPipeline, hc] at h
  | exited => simp [NotifyingPipeline.processPipeline, hc] at h
  | undefined => simp [NotifyingPipeline.processPipeline, hc] at h

theorem invariant_step {s s' : NotifyingPipeline α} (inv : s.Invariant hasDelegate)
    (step : Step hasDelegate s s') : s'.Invariant hasDelegate := by
  cases step with
  | add entry _ => exact inv.add entry
  | notifyAll => exact inv.notifyAll
  | spuriousWakeUp asleep => exact inv.move (by rw [asleep]; rfl) rfl trivial
  | processPipeline h => exact inv.processPipeline h
  | constructed _ _ => exact { inv with }
  | stop _ => exact { inv with }
  | notify _ => exact { inv.notifyAll with }
  | join _ _ => exact { inv with }

/-- The invariant in every reachable state. -/
theorem reachable_invariant {s : NotifyingPipeline α} (h : (system α hasDelegate).Reachable s) :
    s.Invariant hasDelegate :=
  Reachable.invariant (M := system α hasDelegate) (I := Invariant hasDelegate)
    (fun s init => by cases init; exact invariant_initial) (fun _ _ => invariant_step) h

/-- The entry that is being delivered. -/
def inDelivery : Consumer α → Option α
  | .deliver entry _ _ | .popFront entry _ _ => some entry
  | _ => none

/-- **First in, first out, exactly once.** In every reachable state the entries handed over to
the delegate are a prefix of the added ones, the deque holds the entries that were added and
not popped, the entry in delivery is its front, and `front()` and `pop_front()` are not called
on an empty deque. With a delegate, the popped entries and the one in delivery have been handed
over. -/
theorem delivered_prefix (hasDelegate : Bool) {s : NotifyingPipeline α}
    (h : (system α hasDelegate).Reachable s) :
    s.delivered <+: s.added ∧
      (hasDelegate → s.delivered = s.popped ++ handedOver s.consumer) ∧
      s.added = s.popped ++ s.pipeline ∧
      (∀ entry, inDelivery s.consumer = some entry → s.pipeline.head? = some entry) ∧
      (∀ i entries, s.consumer = .front i entries → s.pipeline ≠ []) ∧
      (∀ entry i entries, s.consumer = .popFront entry i entries → s.pipeline ≠ []) ∧
      s.consumer ≠ .undefined := by
  obtain ⟨added, delivered, counted⟩ := reachable_invariant h
  refine ⟨?_, fun given => ?_, added, fun entry inHand => ?_, fun i entries atFront => ?_,
    fun entry i entries atPop => ?_, fun undefined => ?_⟩
  · cases hasDelegate with
    | false => rw [delivered]; exact List.nil_prefix
    | true =>
        rw [delivered, added]
        refine (List.prefix_append_right_inj _).mpr ?_
        cases hc : s.consumer with
        | popFront entry i entries =>
            rw [hc] at counted
            obtain ⟨rest, hp⟩ := List.head?_eq_some_iff.mp counted.2
            exact ⟨rest, hp.symm⟩
        | _ => exact List.nil_prefix
  · rwa [if_pos given] at delivered
  · cases hc : s.consumer with
    | deliver e i entries =>
        rw [hc] at counted inHand
        cases inHand
        exact counted.2
    | popFront e i entries =>
        rw [hc] at counted inHand
        cases inHand
        exact counted.2
    | _ => rw [hc] at inHand; cases inHand
  · rw [atFront] at counted
    obtain ⟨entry, rest, hp⟩ := counted.exists_front
    rw [hp]
    exact List.cons_ne_nil entry rest
  · rw [atPop] at counted
    obtain ⟨rest, hp, _⟩ := counted.exists_rest
    rw [hp]
    exact List.cons_ne_nil entry rest
  · rw [undefined] at counted
    exact counted

/-- A pipeline that has handed over the second of two entries. -/
theorem reachable_popFront : (system Nat true).Reachable
    { running := true, locked := false, pipeline := [6], consumer := .popFront 6 1 2,
      owner := .constructing, added := [5, 6], popped := [5], delivered := [5, 6] } := by
  have step : ∀ {s s' : NotifyingPipeline Nat}, (system Nat true).Reachable s →
      s.processPipeline true = some s' → (system Nat true).Reachable s' :=
    fun reached h => reached.next (.processPipeline h)
  have started := step (Reachable.initially (M := system Nat true) rfl) rfl
  have added := (started.next (Step.add 5 rfl)).next (Step.add 6 rfl)
  have counted := step (step (step (step (step added rfl) rfl) rfl) rfl) rfl
  have first := step (step (step counted rfl) rfl) rfl
  exact step (step (step (step first rfl) rfl) rfl) rfl

theorem delivered_prefix_popFront :
    [5, 6] <+: [5, 6] ∧ (true → [5, 6] = [5] ++ handedOver (.popFront 6 1 2)) ∧
      [5, 6] = [5] ++ [6] ∧
      (∀ entry, inDelivery (.popFront 6 1 2) = some entry → [6].head? = some entry) ∧
      (∀ i entries, (.popFront 6 1 2 : Consumer Nat) = .front i entries → [6] ≠ []) ∧
      (∀ entry i entries, (.popFront 6 1 2 : Consumer Nat) = .popFront entry i entries → [6] ≠ []) ∧
      (.popFront 6 1 2 : Consumer Nat) ≠ .undefined :=
  delivered_prefix true reachable_popFront

end NotifyingPipeline

end Cluon
