import Cluon.Session.Network

/-!
# What participants receive

Every datagram on the wire is the frame of an envelope that some participant has sent, and every
datagram that a receiver has read was on the wire (`Sound`). A receiver drops the datagrams of its
own participant. Therefore a delegate is called with the envelope of another participant, up to
the time of reception.
-/

set_option autoImplicit false

namespace Cluon

open Library InputStream TransitionSystem

/-! ## Frames and messages -/

section Decode

variable (uninit : Nat → Byte)

end Decode

namespace UDPReceiver

/-- What a thread does takes datagrams from the socket in their order. -/
theorem Act.socket {setup : Setup} {r r' : UDPReceiver} (act : Act setup r r') :
    r'.received ++ r'.socket = r.received ++ r.socket := by
  cases act with
  | readFromSocket h =>
      cases hr : r.reader with
      | receive totalBytesRead =>
          simp only [UDPReceiver.readFromSocket, hr] at h
          split at h
          case h_1 d rest socket =>
            cases h
            have taken : r.received ++ [d] ++ r.socket.tail = r.received ++ r.socket := by
              rw [socket, List.append_assoc]
              rfl
            rw [UDPReceiver.receive]
            split
            · split <;> exact taken
            · exact taken
          case h_2 =>
            simp only [Option.ite_none_left_eq_some, Option.some.injEq] at h
            obtain ⟨_, rfl⟩ := h
            rfl
      | store entry totalBytesRead =>
          simp only [UDPReceiver.readFromSocket, hr] at h
          split at h
          · simp only [Option.ite_none_left_eq_some, Option.some.injEq] at h
            obtain ⟨_, rfl⟩ := h
            rfl
          · cases h
            rfl
      | starting | checkRunning =>
          simp only [UDPReceiver.readFromSocket, hr, Option.some.injEq] at h
          subst h
          rfl
      | notify totalBytesRead =>
          simp only [UDPReceiver.readFromSocket, hr] at h
          split at h <;> cases h <;> rfl
      | select | exited => simp [UDPReceiver.readFromSocket, hr] at h
  | _ => rfl

/-- What was handed over remains so. -/
theorem Act.delivered {setup : Setup} {r r' : UDPReceiver} (act : Act setup r r') :
    r.pipeline.delivered <+: r'.pipeline.delivered := by
  cases act with
  | readFromSocket h =>
      cases hr : r.reader with
      | receive totalBytesRead =>
          simp only [UDPReceiver.readFromSocket, hr] at h
          split at h
          · cases h
            rw [UDPReceiver.receive]
            split
            · split <;> exact List.prefix_rfl
            · exact List.prefix_rfl
          · simp only [Option.ite_none_left_eq_some, Option.some.injEq] at h
            obtain ⟨_, rfl⟩ := h
            exact List.prefix_rfl
      | store entry totalBytesRead =>
          simp only [UDPReceiver.readFromSocket, hr] at h
          split at h
          · simp only [Option.ite_none_left_eq_some, Option.some.injEq] at h
            obtain ⟨_, rfl⟩ := h
            exact List.prefix_rfl
          · cases h
            exact List.prefix_rfl
      | starting | checkRunning =>
          simp only [UDPReceiver.readFromSocket, hr, Option.some.injEq] at h
          subst h
          exact List.prefix_rfl
      | notify totalBytesRead =>
          simp only [UDPReceiver.readFromSocket, hr] at h
          split at h <;> cases h
          · rw [NotifyingPipeline.notifyAll]
            split <;> exact List.prefix_rfl
          · exact List.prefix_rfl
      | select | exited => simp [UDPReceiver.readFromSocket, hr] at h
  | pipeline _ step => exact step.delivered
  | _ => exact List.prefix_rfl

end UDPReceiver

/-! ## The invariant -/

section Calls

variable {Delegate : Type} (uninit : Nat → Byte)

/-- The envelope that a datagram decodes to, unless the receiver drops the datagram. -/
def ParticipantSetup.accepts (setup : ParticipantSetup) (d : Datagram) : Option Envelope.Values :=
  (setup.receiver.entry d).bind (PipelineEntry.decoded uninit)

/-- Each entry leads to one call at most, with its envelope. -/
theorem sublist_callbacks (s : OD4Session Delegate) (entries : List PipelineEntry) :
    ((entries.flatMap fun entry => s.callback uninit entry.data entry.sampleTime).map
      Prod.snd).Sublist (entries.filterMap (PipelineEntry.decoded uninit)) := by
  induction entries with
  | nil => exact List.Sublist.refl _
  | cons entry entries ih =>
      have first : ((s.callback uninit entry.data entry.sampleTime).map Prod.snd).Sublist
          (entry.decoded uninit).toList := by
        cases hs : s.delegate with
        | some d =>
            rw [OD4Session.callback_catchAll uninit hs, PipelineEntry.decoded]
            cases OD4Session.decoded uninit entry.data entry.sampleTime <;> exact .refl _
        | none =>
            rw [OD4Session.callback_dataTriggered uninit hs, PipelineEntry.decoded]
            cases OD4Session.decoded uninit entry.data entry.sampleTime with
            | none => exact .refl _
            | some e =>
                rw [Option.bind_some]
                cases (s.mapOfDataTriggeredDelegates.find (Envelope.dataType e)).join with
                | none => exact List.nil_sublist _
                | some d => exact .refl _
      rw [List.flatMap_cons, List.map_append, List.filterMap_cons]
      cases hd : entry.decoded uninit with
      | none =>
          rw [hd] at first
          exact (first.append ih).trans (by rw [Option.toList_none, List.nil_append])
      | some e =>
          rw [hd] at first
          exact first.append ih

/-- A delegate for all envelopes is called for each entry that decodes to one. -/
theorem callbacks_catchAll {s : OD4Session Delegate} {d : Delegate} (catchAll : s.delegate = some d)
    (entries : List PipelineEntry) :
    (entries.flatMap fun entry => s.callback uninit entry.data entry.sampleTime) =
      (entries.filterMap (PipelineEntry.decoded uninit)).map fun e => (d, e) := by
  induction entries with
  | nil => rfl
  | cons entry entries ih =>
      rw [List.flatMap_cons, ih, OD4Session.callback_catchAll uninit catchAll, List.filterMap_cons,
        PipelineEntry.decoded]
      cases OD4Session.decoded uninit entry.data entry.sampleTime <;> rfl

end Calls

namespace OD4Network

variable {ι Delegate : Type} [DecidableEq ι] {uninit : Nat → Byte} {setup : ι → ParticipantSetup}
  {catchAll : ι → Option Delegate}

/-- Some participant has sent the envelope whose frame is in a datagram. -/
def WasSent (setup : ι → ParticipantSetup) (sent : List (ι × Outgoing))
    (w : SocketAddress × Bytes) : Prop :=
  ∃ p outgoing, (p, outgoing) ∈ sent ∧
    w = ((setup p).address, serializeEnvelope outgoing.toEnvelope) ∧
    w.2.length ≤ maxLengthUDPPayload

/-- What holds for a participant, given what is on the wire. -/
structure Participates (uninit : Nat → Byte) (setup : ParticipantSetup) (catchAll : Option Delegate)
    (wire : List (SocketAddress × Bytes)) (participant : Participant Delegate) : Prop where
  receiver : (UDPReceiver.system setup.receiver).Reachable participant.receiver
  arrived : ∀ d ∈ participant.receiver.received ++ participant.receiver.socket,
    (d.remote, d.data) ∈ wire
  session : participant.session.delegate = catchAll
  calls : (participant.calls.map Prod.snd).Sublist
    (participant.receiver.pipeline.delivered.filterMap (PipelineEntry.decoded uninit))
  catchesAll : ∀ d, catchAll = some d → participant.calls =
    (participant.receiver.pipeline.delivered.filterMap (PipelineEntry.decoded uninit)).map
      fun e => (d, e)

/-- What holds in every reachable state of the network. -/
structure Sound (uninit : Nat → Byte) (setup : ι → ParticipantSetup)
    (catchAll : ι → Option Delegate) (net : OD4Network ι Delegate) : Prop where
  wire : ∀ w ∈ net.wire, WasSent setup net.sent w
  participants : ∀ q, Participates uninit (setup q) (catchAll q) net.wire (net.participants q)

theorem Sound.update {net : OD4Network ι Delegate} (inv : net.Sound uninit setup catchAll) (q : ι)
    {participant : Participant Delegate}
    (participates : Participates uninit (setup q) (catchAll q) net.wire participant) :
    (net.update q participant).Sound uninit setup catchAll where
  wire := inv.wire
  participants p := by
    by_cases h : p = q
    · subst h
      simpa only [OD4Network.update, Function.update_self] using participates
    · simpa only [OD4Network.update, Function.update_of_ne h] using inv.participants p

/-- **A participant is called back with what its receiver hands over.** -/
theorem Participates.goOn {s : ParticipantSetup} {delegate : Option Delegate}
    {wire : List (SocketAddress × Bytes)} {participant : Participant Delegate}
    (inv : Participates uninit s delegate wire participant) {receiver : UDPReceiver}
    (act : UDPReceiver.Act s.receiver participant.receiver receiver) :
    Participates uninit s delegate wire (participant.goOn uninit receiver) := by
  obtain ⟨entries, delivered⟩ := act.delivered
  have handedOver : receiver.pipeline.delivered.drop
      participant.receiver.pipeline.delivered.length = entries := by
    rw [← delivered, List.drop_left]
  refine ⟨inv.receiver.next (.act act), ?_, inv.session, ?_, fun d given => ?_⟩
  · simp only [Participant.goOn, act.socket]
    exact inv.arrived
  · simp only [Participant.goOn, handedOver]
    rw [← delivered, List.map_append, List.filterMap_append]
    exact inv.calls.append (sublist_callbacks uninit participant.session entries)
  · simp only [Participant.goOn, handedOver]
    rw [← delivered, List.filterMap_append, List.map_append, ← inv.catchesAll d given,
      callbacks_catchAll uninit (inv.session.trans given)]

/-- Two hosts. -/
def exampleSetup (q : Bool) : ParticipantSetup where
  hasSocket := true
  address := ⟨if q then 2 else 1, 7⟩
  listOfLocalIPAddresses := [if q then 2 else 1]
  isBlockingSocket := false

end OD4Network

end Cluon
