import Cluon.Network.UDPReceiver

/-!
# What a receiver hands over

The datagrams that a receiver reads, without those of its owner and without empty ones, are the
entries that its delegate gets, in the order of arrival and each of them once
(`received_eq`). Entries that were read before the constructor had created the pipeline are
missed; none is missed once the constructor has returned.

An entry does not wait for ever: as long as the thread of the pipeline is asleep although there
are entries, the reading thread is about to notify it (`announces_of_unattended`), unless it has
read 2^31 bytes or more without a pause, because their number is cast to 32 bits.
-/

set_option autoImplicit false

namespace Cluon

open Library TransitionSystem

namespace UDPReceiver

/-- The entry that a datagram becomes, unless it is empty, comes from the owner of the receiver, or
there is no delegate. -/
def Setup.entry (setup : Setup) (d : Datagram) : Option PipelineEntry :=
  if (PipelineEntry.of d).data ≠ [] ∧ setup.hasDelegate ∧ setup.sentFromUs d.remote = false then
    some (PipelineEntry.of d)
  else none

/-- The entry that the reading thread is about to store. -/
def Reader.pending : Reader → List PipelineEntry
  | .store entry _ => [entry]
  | _ => []

/-- The reading thread has read bytes that it has not announced to the pipeline yet. -/
def Reader.announces : Reader → Prop
  | .receive totalBytesRead | .store _ totalBytesRead | .notify totalBytesRead =>
      0 < totalBytesRead
  | _ => False

/-! ## The order of the entries -/

/-- What holds in every reachable state of a receiver. -/
structure Receives (setup : Setup) (r : UDPReceiver) : Prop where
  pipeline : r.pipeline.Invariant true
  entries : r.received.filterMap setup.entry = r.missed ++ r.pipeline.added ++ r.reader.pending
  unassigned : r.owner.constructing → r.hasPipeline = false ∧ r.pipeline.added = []
  assigned : r.owner = .constructed ∨ r.owner = .stopped → r.hasPipeline = true
  exited : r.owner = .resetting → r.reader = .exited

variable {setup : Setup}

theorem receives_initial : initial.Receives setup where
  pipeline := NotifyingPipeline.invariant_initial
  entries := rfl
  unassigned _ := ⟨rfl, rfl⟩
  assigned h := by rcases h with h | h <;> cases h
  exited h := nomatch h

/-- The reading thread moves on without an entry. -/
theorem Receives.move {r : UDPReceiver} (inv : r.Receives setup) {running : Bool}
    {socket : List Datagram} {reader : Reader} (before : r.reader.pending = [])
    (after : reader.pending = []) (runs : r.reader ≠ .exited) :
    Receives setup { r with running := running, socket := socket, reader := reader } where
  pipeline := inv.pipeline
  entries := by rw [inv.entries, before, after]
  unassigned := inv.unassigned
  assigned := inv.assigned
  exited h := absurd (inv.exited h) runs

@[simp] theorem pending_again (bytesRead totalBytesRead : Nat) :
    (setup.again bytesRead totalBytesRead).pending = [] := by
  rw [Setup.again]
  split <;> rfl

/-- **A datagram is read**, and becomes an entry or nothing. -/
theorem Receives.receive {r : UDPReceiver} (inv : r.Receives setup) {totalBytesRead : Nat}
    (reads : r.reader = .receive totalBytesRead) (d : Datagram) :
    (r.receive setup totalBytesRead d).Receives setup := by
  have before : r.reader.pending = [] := by rw [reads]; rfl
  have runs : r.owner ≠ .resetting := by
    intro resetting
    have exited := inv.exited resetting
    rw [reads] at exited
    cases exited
  have length : 0 < (d.data.take maxLengthUDPPayload).length ↔ (PipelineEntry.of d).data ≠ [] :=
    List.length_pos_iff
  -- Whatever the entry of the datagram is, it is in the hand of the reading thread.
  have keeps : ∀ reader : Reader, (setup.entry d).toList = reader.pending →
      Receives setup { r with
        socket := r.socket.tail, received := r.received ++ [d], reader := reader } := by
    intro reader pending
    refine ⟨inv.pipeline, ?_, inv.unassigned, inv.assigned, fun h => absurd h runs⟩
    rw [List.filterMap_append, inv.entries, before, List.append_nil, ← pending]
    cases h : setup.entry d <;> simp [h]
  simp only [UDPReceiver.receive, length]
  split
  case isTrue h =>
    split
    case isTrue own =>
      refine keeps _ ?_
      rw [pending_again, Setup.entry, if_neg fun all => by simp [own] at all]
      rfl
    case isFalse foreign =>
      refine keeps _ ?_
      rw [Setup.entry, if_pos ⟨h.1, h.2, by simpa using foreign⟩]
      rfl
  case isFalse h =>
    refine keeps _ ?_
    rw [pending_again, Setup.entry, if_neg fun all => h ⟨all.1, all.2.1⟩]
    rfl

/-- **The steps of `readFromSocket`.** -/
theorem Receives.readFromSocket {r r' : UDPReceiver} (inv : r.Receives setup)
    (h : r.readFromSocket setup = some r') : r'.Receives setup := by
  cases hr : r.reader with
  | starting =>
      simp only [UDPReceiver.readFromSocket, hr, Option.some.injEq] at h
      subst h
      exact inv.move (by rw [hr]; rfl) rfl (by simp [hr])
  | checkRunning =>
      simp only [UDPReceiver.readFromSocket, hr, Option.some.injEq] at h
      subst h
      refine inv.move (by rw [hr]; rfl) ?_ (by simp [hr])
      split <;> rfl
  | receive totalBytesRead =>
      simp only [UDPReceiver.readFromSocket, hr] at h
      split at h
      case h_1 d _ _ =>
        cases h
        exact inv.receive hr d
      case h_2 =>
        simp only [Option.ite_none_left_eq_some, Option.some.injEq] at h
        obtain ⟨_, rfl⟩ := h
        exact inv.move (by rw [hr]; rfl) rfl (by simp [hr])
  | store entry totalBytesRead =>
      have entries := inv.entries
      rw [hr, Reader.pending] at entries
      have runs : r.owner ≠ .resetting := by
        intro resetting
        have exited := inv.exited resetting
        rw [hr] at exited
        cases exited
      simp only [UDPReceiver.readFromSocket, hr] at h
      split at h
      case isTrue has =>
        simp only [Option.ite_none_left_eq_some, Option.some.injEq] at h
        obtain ⟨_, rfl⟩ := h
        have returned : ¬ r.owner.constructing := by
          intro constructing
          rw [(inv.unassigned constructing).1] at has
          cases has
        refine ⟨inv.pipeline.add entry, ?_, fun constructing => absurd constructing returned,
          inv.assigned, fun resetting => absurd resetting runs⟩
        simp only [entries, NotifyingPipeline.add, pending_again, List.append_nil,
          List.append_assoc]
      case isFalse has =>
        cases h
        -- There is no pipeline yet, hence no entry in it.
        have constructing : r.owner.constructing := by
          cases ho : r.owner with
          | startingReader | startingPipeline => trivial
          | constructed => exact absurd (inv.assigned (.inl ho)) has
          | stopped => exact absurd (inv.assigned (.inr ho)) has
          | resetting => exact absurd ho runs
        refine ⟨inv.pipeline, ?_, inv.unassigned, inv.assigned,
          fun resetting => absurd resetting runs⟩
        simp only [entries, (inv.unassigned constructing).2, pending_again, List.append_nil]
  | notify totalBytesRead =>
      have before : r.reader.pending = [] := by rw [hr]; rfl
      simp only [UDPReceiver.readFromSocket, hr] at h
      split at h
      case isTrue announces =>
        cases h
        have returned : ¬ r.owner.constructing := by
          intro constructing
          rw [(inv.unassigned constructing).1] at announces
          exact absurd announces.2 Bool.false_ne_true
        refine ⟨inv.pipeline.notifyAll, ?_, fun constructing => absurd constructing returned,
          inv.assigned, fun resetting => ?_⟩
        · rw [NotifyingPipeline.added_notifyAll, inv.entries, before]
          rfl
        · rw [inv.exited resetting] at hr
          cases hr
      case isFalse =>
        cases h
        exact inv.move before rfl (by simp [hr])
  | select | exited => simp [UDPReceiver.readFromSocket, hr] at h

theorem Receives.act {r r' : UDPReceiver} (inv : r.Receives setup) (act : Act setup r r') :
    r'.Receives setup := by
  cases act with
  | readable selects | timeout selects =>
      exact inv.move (by rw [selects]; rfl) rfl (by simp [selects])
  | error receives => exact inv.move (by rw [receives]; rfl) rfl (by simp [receives])
  | readFromSocket h => exact inv.readFromSocket h
  | pipeline _ step =>
      refine ⟨step.invariant inv.pipeline, ?_, fun constructing => ?_, inv.assigned, inv.exited⟩
      · rw [step.added]
        exact inv.entries
      · rw [step.added]
        exact inv.unassigned constructing
  | createPipeline starting _ =>
      refine ⟨inv.pipeline, inv.entries, fun _ => inv.unassigned ?_, ?_, nofun⟩
      · rw [starting]
        trivial
      · rintro (h | h) <;> cases h
  | constructed starting _ =>
      exact ⟨{ inv.pipeline with }, inv.entries, False.elim, fun _ => rfl, nofun⟩
  | stop constructed =>
      exact ⟨inv.pipeline, inv.entries, False.elim, fun _ => inv.assigned (.inl constructed), nofun⟩
  | reset _ exited =>
      refine ⟨{ inv.pipeline with }, inv.entries, False.elim, ?_, fun _ => exited⟩
      rintro (h | h) <;> cases h

theorem receives_step {r r' : UDPReceiver} (inv : r.Receives setup) (step : Step setup r r') :
    r'.Receives setup := by
  cases step with
  | arrive d => exact { inv with }
  | act act => exact inv.act act

theorem reachable_receives {r : UDPReceiver} (h : (system setup).Reachable r) :
    r.Receives setup :=
  Reachable.invariant (M := system setup) (I := Receives setup)
    (fun _ init => by cases init; exact receives_initial) (fun _ _ => receives_step) h

/-! ## Notifications -/

/-- Fewer than 2^31 bytes were read when the reading thread comes to notify the pipeline. -/
def Counts (r _ : UDPReceiver) : Prop :=
  ∀ totalBytesRead, r.reader = .notify totalBytesRead → totalBytesRead < 2 ^ 31

/-- The thread of the pipeline is unattended only while the reading thread has bytes to
announce. -/
structure Attends (r : UDPReceiver) : Prop where
  attentive : r.pipeline.Attentive
  stores : ∀ entry totalBytesRead, r.reader = .store entry totalBytesRead → 0 < totalBytesRead
  announces : r.pipeline.Unattended → r.reader.announces

theorem attends_initial : initial.Attends where
  attentive := NotifyingPipeline.attentive_initial
  stores := nofun
  announces unattended := nomatch unattended.1

/-- The reading thread moves on and keeps what it has to announce. -/
theorem Attends.move {r : UDPReceiver} (inv : r.Attends) {running : Bool} {socket : List Datagram}
    {received : List Datagram} {missed : List PipelineEntry} {reader : Reader}
    (stores : ∀ entry totalBytesRead, reader = .store entry totalBytesRead → 0 < totalBytesRead)
    (announces : r.reader.announces → reader.announces) :
    Attends { r with
      running := running, socket := socket, received := received, missed := missed,
      reader := reader } where
  attentive := inv.attentive
  stores := stores
  announces unattended := announces (inv.announces unattended)

/-- After a round of the inner loop the number of bytes is still there. -/
theorem announces_again {bytesRead totalBytesRead : Nat} (positive : 0 < totalBytesRead) :
    (setup.again bytesRead totalBytesRead).announces := by
  rw [Setup.again]
  split <;> exact positive

theorem stores_again {bytesRead totalBytesRead : Nat} (entry : PipelineEntry) (total : Nat)
    (h : setup.again bytesRead totalBytesRead = .store entry total) : 0 < total := by
  rw [Setup.again] at h
  split at h <;> cases h

/-- The number of bytes is positive after the cast, too. -/
theorem toInt_pos {totalBytesRead : Nat} (positive : 0 < totalBytesRead)
    (counts : totalBytesRead < 2 ^ 31) : 0 < (BitVec.ofNat 32 totalBytesRead).toInt := by
  rw [BitVec.toInt_eq_toNat_of_lt]
  · rw [BitVec.toNat_ofNat]
    omega
  · rw [BitVec.toNat_ofNat]
    omega

/-- **The steps of `readFromSocket`** announce what they have stored. -/
theorem Attends.readFromSocket {r r' : UDPReceiver} (inv : r.Attends) (receives : r.Receives setup)
    (counts : Counts r r') (h : r.readFromSocket setup = some r') : r'.Attends := by
  cases hr : r.reader with
  | starting =>
      simp only [UDPReceiver.readFromSocket, hr, Option.some.injEq] at h
      subst h
      exact inv.move nofun (by rw [hr]; exact False.elim)
  | checkRunning =>
      simp only [UDPReceiver.readFromSocket, hr, Option.some.injEq] at h
      subst h
      refine inv.move (fun entry total h => ?_) (by rw [hr]; exact False.elim)
      split at h <;> cases h
  | receive totalBytesRead =>
      simp only [UDPReceiver.readFromSocket, hr] at h
      split at h
      case h_1 d _ _ =>
        cases h
        have more : ∀ {bytesRead : Nat}, r.reader.announces → 0 < totalBytesRead + bytesRead := by
          rw [hr]
          exact fun positive => Nat.add_pos_left positive _
        rw [UDPReceiver.receive]
        split
        case isTrue h =>
          split
          · exact inv.move stores_again fun announces => announces_again (more announces)
          · refine inv.move (fun entry total stored => ?_) more
            cases stored
            exact Nat.add_pos_right _ h.1
        case isFalse =>
          refine inv.move stores_again fun announces => announces_again ?_
          rwa [hr] at announces
      case h_2 =>
        simp only [Option.ite_none_left_eq_some, Option.some.injEq] at h
        obtain ⟨_, rfl⟩ := h
        exact inv.move nofun (by rw [hr]; exact id)
  | store entry totalBytesRead =>
      have positive := inv.stores entry totalBytesRead hr
      simp only [UDPReceiver.readFromSocket, hr] at h
      split at h
      · simp only [Option.ite_none_left_eq_some, Option.some.injEq, Bool.not_eq_true] at h
        obtain ⟨unlocked, rfl⟩ := h
        exact ⟨inv.attentive.add unlocked entry, stores_again, fun _ => announces_again positive⟩
      · cases h
        exact inv.move stores_again fun _ => announces_again positive
  | notify totalBytesRead =>
      simp only [UDPReceiver.readFromSocket, hr] at h
      split at h
      case isTrue =>
        cases h
        exact ⟨inv.attentive.notifyAll, nofun, fun unattended =>
          absurd unattended (NotifyingPipeline.not_unattended_notifyAll _)⟩
      case isFalse silent =>
        cases h
        refine ⟨inv.attentive, nofun, fun unattended => absurd ?_ silent⟩
        have positive := inv.announces unattended
        rw [hr] at positive
        refine ⟨toInt_pos positive (counts totalBytesRead hr), ?_⟩
        -- There are entries, so the pipeline has been assigned, and is not reset yet.
        have added : r.pipeline.added ≠ [] := by
          rw [receives.pipeline.added_eq]
          exact List.append_ne_nil_of_right_ne_nil _ unattended.2
        cases ho : r.owner with
        | startingReader | startingPipeline =>
            exact absurd (receives.unassigned (by rw [ho]; trivial)).2 added
        | constructed => exact receives.assigned (.inl ho)
        | stopped => exact receives.assigned (.inr ho)
        | resetting =>
            have exited := receives.exited ho
            rw [hr] at exited
            cases exited
  | select | exited => simp [UDPReceiver.readFromSocket, hr] at h

theorem Attends.act {r r' : UDPReceiver} (inv : r.Attends) (receives : r.Receives setup)
    (act : Act setup r r') (counts : Counts r r') : r'.Attends := by
  cases act with
  | readable selects | timeout selects => exact inv.move nofun (by rw [selects]; exact False.elim)
  | error receives => exact inv.move nofun (by rw [receives]; exact id)
  | readFromSocket h => exact inv.readFromSocket receives counts h
  | pipeline _ step =>
      have attentive := step.attentive inv.attentive
      exact ⟨attentive.1, inv.stores, fun unattended => inv.announces (attentive.2 unattended)⟩
  | createPipeline _ _ => exact { inv with }
  | constructed _ _ => exact ⟨{ inv.attentive with }, inv.stores, inv.announces⟩
  | stop _ => exact { inv with }
  | reset _ _ => exact ⟨{ inv.attentive with }, inv.stores, inv.announces⟩

theorem attends_step {r r' : UDPReceiver} (inv : r.Attends) (receives : r.Receives setup)
    (step : Step setup r r') (counts : Counts r r') : r'.Attends := by
  cases step with
  | arrive d => exact { inv with }
  | act act => exact inv.act receives act counts

/-! ## The results -/

/-- What the delegate has not got yet: the entries in the pipeline that have not been handed
over, and the one that the reading thread is about to store. -/
def waiting (r : UDPReceiver) : List PipelineEntry :=
  r.pipeline.pipeline.drop (NotifyingPipeline.handedOver r.pipeline.consumer).length ++
    r.reader.pending

/-- Nothing is missed once the constructor has returned. -/
theorem missed_act {r r' : UDPReceiver} (inv : r.Receives setup) (act : Act setup r r')
    (returned : ¬ r.owner.constructing) : r'.missed = r.missed := by
  cases act with
  | readFromSocket h =>
      cases hr : r.reader with
      | receive totalBytesRead =>
          simp only [UDPReceiver.readFromSocket, hr] at h
          split at h
          · cases h
            rw [UDPReceiver.receive]
            split
            · split <;> rfl
            · rfl
          · simp only [Option.ite_none_left_eq_some, Option.some.injEq] at h
            obtain ⟨_, rfl⟩ := h
            rfl
      | store entry totalBytesRead =>
          have has : r.hasPipeline = true := by
            cases ho : r.owner with
            | startingReader | startingPipeline => exact absurd (by rw [ho]; trivial) returned
            | constructed => exact inv.assigned (.inl ho)
            | stopped => exact inv.assigned (.inr ho)
            | resetting =>
                have exited := inv.exited ho
                rw [hr] at exited
                cases exited
          simp only [UDPReceiver.readFromSocket, hr, has, if_true, Option.ite_none_left_eq_some,
            Option.some.injEq] at h
          obtain ⟨_, rfl⟩ := h
          rfl
      | starting | checkRunning =>
          simp only [UDPReceiver.readFromSocket, hr, Option.some.injEq] at h
          subst h
          rfl
      | notify totalBytesRead =>
          simp only [UDPReceiver.readFromSocket, hr] at h
          split at h <;> cases h <;> rfl
      | select | exited => simp [UDPReceiver.readFromSocket, hr] at h
  | _ => rfl

/-- **The delegate gets the datagrams of others in the order of arrival, each of them once.** In
every reachable state the datagrams that were read, without empty ones and those of the owner, are
the missed ones, the ones that were handed over, and the ones that wait. No datagram is missed
once the constructor has returned. -/
theorem received_eq (setup : Setup) {r : UDPReceiver} (h : (system setup).Reachable r) :
    r.received.filterMap setup.entry = r.missed ++ r.pipeline.delivered ++ r.waiting ∧
      ∀ r', Step setup r r' → ¬ r.owner.constructing → r'.missed = r.missed := by
  have inv := reachable_receives h
  constructor
  · rw [inv.entries, inv.pipeline.added_eq_delivered, waiting]
    simp only [List.append_assoc]
  · intro r' step returned
    cases step with
    | arrive d => rfl
    | act act => exact missed_act inv act returned

/-- A receiver that owns port 7 of the address 1. -/
def exampleSetup : Setup where
  hasDelegate := true
  localSendFromPort := 7
  listOfLocalIPAddresses := [1]
  isBlockingSocket := false

/-- A datagram of somebody else. -/
def exampleDatagram : Datagram := ⟨⟨2, 7⟩, [0x2A], 0⟩

/-- What `readFromSocket` leads to is reachable. -/
theorem reachable_readFromSocket {r r' : UDPReceiver}
    (h : ((system setup).restrict Counts).Reachable r) (counts : Counts r r')
    (step : r.readFromSocket setup = some r') : ((system setup).restrict Counts).Reachable r' :=
  h.next ⟨.act (.readFromSocket step), counts⟩

/-- **A datagram is missed** if it is read before the pipeline has been created. -/
theorem received_eq_missed :
    [exampleDatagram].filterMap exampleSetup.entry = [PipelineEntry.of exampleDatagram] ++ [] ++ [] ∧
      ∀ r', Step exampleSetup { initial with
          running := true, reader := .receive 1, received := [exampleDatagram],
          missed := [PipelineEntry.of exampleDatagram] } r' →
        ¬ PipelineOwner.constructing .startingReader → r'.missed = [PipelineEntry.of exampleDatagram] := by
  have step : ∀ {r r' : UDPReceiver}, (system exampleSetup).Reachable r →
      r.readFromSocket exampleSetup = some r' → (system exampleSetup).Reachable r' :=
    fun reached h => reached.next (.act (.readFromSocket h))
  have started := step (step (Reachable.initially (M := system exampleSetup) rfl) rfl) rfl
  have arrived := (started.next (.arrive exampleDatagram)).next (.act (.readable rfl))
  exact received_eq exampleSetup (step (step arrived rfl) rfl)

/-- **No entry is forgotten.** In a run in which fewer than 2^31 bytes are read without a pause,
the thread of the pipeline is asleep in spite of entries only while the reading thread is about to
notify it; hence not while that thread waits in `select` or has ended. -/
theorem announces_of_unattended (setup : Setup) {r : UDPReceiver}
    (h : ((system setup).restrict Counts).Reachable r) (unattended : r.pipeline.Unattended) :
    r.reader.announces := by
  have inv : r.Receives setup ∧ r.Attends := Reachable.invariant
    (M := (system setup).restrict Counts) (I := fun r => r.Receives setup ∧ r.Attends)
    (fun _ init => by cases init; exact ⟨receives_initial, attends_initial⟩)
    (fun _ _ inv step =>
      ⟨receives_step inv.1 step.1, attends_step inv.2 inv.1 step.1 step.2⟩) h
  exact inv.2.announces unattended

/-- A thread that is asleep when the first entry is added. -/
theorem announces_of_unattended_store : Reader.announces (.receive 1) := by
  have unbothered : ∀ {r r' : UDPReceiver}, (∀ t, r.reader ≠ .notify t) → Counts r r' :=
    fun other t notify => absurd notify (other t)
  have started := reachable_readFromSocket
    (Reachable.initially (M := (system exampleSetup).restrict Counts) rfl) (unbothered nofun) rfl
  have created := started.next ⟨.act (.createPipeline rfl rfl), unbothered nofun⟩
  have next : ∀ {r : UDPReceiver} {p : NotifyingPipeline PipelineEntry},
      ((system exampleSetup).restrict Counts).Reachable r → (∀ t, r.reader ≠ .notify t) →
      r.owner ≠ .startingReader → r.pipeline.processPipeline true = some p →
      ((system exampleSetup).restrict Counts).Reachable { r with pipeline := p } :=
    fun reached other owner h =>
      reached.next ⟨.act (.pipeline owner (.processPipeline h)), unbothered other⟩
  have running := next created nofun nofun rfl
  have constructed := running.next ⟨.act (.constructed rfl rfl), unbothered nofun⟩
  have evaluated := next (next (next constructed nofun nofun rfl) nofun nofun rfl) nofun nofun rfl
  have asleep := next evaluated nofun nofun rfl
  have arrived := asleep.next ⟨.arrive exampleDatagram, unbothered nofun⟩
  have selects := reachable_readFromSocket arrived (unbothered nofun) rfl
  have receives := selects.next ⟨.act (.readable rfl), unbothered nofun⟩
  have stores := reachable_readFromSocket receives (unbothered nofun) rfl
  have stored := reachable_readFromSocket stores (unbothered nofun) rfl
  exact announces_of_unattended exampleSetup stored ⟨rfl, nofun⟩

end UDPReceiver

end Cluon
