import Cluon.Network.Reception
import Cluon.Session.OD4Session
import Mathlib.Logic.Function.Basic

/-!
# Sessions in a network

The participants of an OpenDaVINCI v4 session send envelopes to a multicast group and receive
what is sent to it. The network loses, delays, duplicates, and reorders datagrams: whatever has
been sent may arrive at any participant, any number of times and at any time.

Whatever a delegate is called with, some other participant has sent, and messages are decoded to
what was sent; the calls are in the order of the datagrams that were read, with at most one call
for each of them (`calls_sound`). A delegate for all envelopes is called with everything that was
read from others, except for what the receiver has missed and what waits (`calls_complete`).
-/

set_option autoImplicit false

namespace Cluon

open Library InputStream TransitionSystem

/-! ## Messages in envelopes -/

/-- The envelope that `send(message, sampleTimeStamp, senderStamp)` makes at a time point. -/
def messageEnvelope (T : MessageType) (message : T.Values) (sampleTimeStamp : TimeStamp.Values)
    (senderStamp : BitVec 32) (now : Int) : Envelope.Values :=
  let sent := time.convert now
  -- The sum of seconds and microseconds decides whether there is a time stamp of the sample.
  let sampled :=
    if TimeStamp.seconds sampleTimeStamp + TimeStamp.microseconds sampleTimeStamp = 0 then sent
    else sampleTimeStamp
  (T.info.id, ToProtoVisitor.encodedData T message, sent, TimeStamp.of 0 0, sampled, senderStamp, ())

/-- What a participant sends: an envelope, or a message at a time point. -/
inductive Outgoing where
  | envelope (e : Envelope.Values)
  | message (T : MessageType) (m : T.Values) (sampleTimeStamp : TimeStamp.Values)
      (senderStamp : BitVec 32) (now : Int)

/-- The envelope that is sent. -/
def Outgoing.toEnvelope : Outgoing → Envelope.Values
  | .envelope e => e
  | .message T m sampleTimeStamp senderStamp now =>
      messageEnvelope T m sampleTimeStamp senderStamp now

/-! ## Participants -/

/-- A participant: whether its sender has a socket, the address of its sender, the addresses of
its host, and the mode of the socket of its receiver. -/
structure ParticipantSetup where
  hasSocket : Bool
  address : SocketAddress
  listOfLocalIPAddresses : List (BitVec 32)
  isBlockingSocket : Bool

/-- The receiver is told the port of the sender. -/
def ParticipantSetup.receiver (setup : ParticipantSetup) : UDPReceiver.Setup where
  hasDelegate := true
  localSendFromPort := setup.address.port
  listOfLocalIPAddresses := setup.listOfLocalIPAddresses
  isBlockingSocket := setup.isBlockingSocket

/-- What `send` puts on the wire. -/
def ParticipantSetup.transmits (setup : ParticipantSetup) (data : Bytes) :
    List (SocketAddress × Bytes) :=
  match UDPSender.send setup.hasSocket data with
  | .sendto data => [(setup.address, data)]
  | .returns _ _ => []

/-- A session with its receiver, and the calls of delegates so far. -/
structure Participant (Delegate : Type) where
  session : OD4Session Delegate
  receiver : UDPReceiver
  calls : List (Delegate × Envelope.Values)

section Participant

variable {Delegate : Type} (uninit : Nat → Byte)

/-- The envelope that an entry of the pipeline decodes to. -/
def PipelineEntry.decoded (entry : PipelineEntry) : Option Envelope.Values :=
  OD4Session.decoded uninit entry.data entry.sampleTime

/-- The receiver has made a step; the session is called back with what was handed over. -/
def Participant.goOn (participant : Participant Delegate) (receiver : UDPReceiver) :
    Participant Delegate :=
  let entries := receiver.pipeline.delivered.drop participant.receiver.pipeline.delivered.length
  { participant with
    receiver := receiver
    calls := participant.calls ++ entries.flatMap fun entry =>
      participant.session.callback uninit entry.data entry.sampleTime }

end Participant

/-- The participants, what was put on the wire so far, and what was sent. -/
structure OD4Network (ι Delegate : Type) where
  participants : ι → Participant Delegate
  wire : List (SocketAddress × Bytes)
  sent : List (ι × Outgoing)

namespace OD4Network

variable {ι Delegate : Type} [DecidableEq ι]

/-- A participant is replaced. -/
def update (net : OD4Network ι Delegate) (q : ι) (participant : Participant Delegate) :
    OD4Network ι Delegate :=
  { net with participants := Function.update net.participants q participant }

/-- A step of a participant, or of the network. -/
inductive Step (uninit : Nat → Byte) (setup : ι → ParticipantSetup) :
    OD4Network ι Delegate → OD4Network ι Delegate → Prop
  /-- a participant calls `send` -/
  | send {net : OD4Network ι Delegate} (p : ι) (outgoing : Outgoing) :
      Step uninit setup net { net with
        wire := net.wire ++ (setup p).transmits (serializeEnvelope outgoing.toEnvelope)
        sent := net.sent ++ [(p, outgoing)] }
  /-- something that was sent arrives at a participant -/
  | arrive {net : OD4Network ι Delegate} (q : ι) {remote : SocketAddress} {data : Bytes}
      (timestamp : Int) : (remote, data) ∈ net.wire →
      Step uninit setup net (net.update q { net.participants q with
        receiver := { (net.participants q).receiver with
          socket := (net.participants q).receiver.socket ++ [⟨remote, data, timestamp⟩] } })
  /-- the receiver of a participant goes on -/
  | receive {net : OD4Network ι Delegate} (q : ι) {receiver : UDPReceiver} :
      UDPReceiver.Act (setup q).receiver (net.participants q).receiver receiver →
      Step uninit setup net (net.update q ((net.participants q).goOn uninit receiver))
  /-- a participant calls `dataTrigger` -/
  | dataTrigger {net : OD4Network ι Delegate} (q : ι) (messageIdentifier : BitVec 32)
      (delegate : Option Delegate) :
      Step uninit setup net (net.update q { net.participants q with
        session := ((net.participants q).session.dataTrigger messageIdentifier delegate).2 })

/-- The network, whose sessions were created with the given delegates. -/
def system (uninit : Nat → Byte) (setup : ι → ParticipantSetup) (catchAll : ι → Option Delegate) :
    TransitionSystem (OD4Network ι Delegate) where
  init net := net = {
    participants := fun q => ⟨.construct (catchAll q), .initial, []⟩, wire := [], sent := [] }
  step := Step uninit setup

end OD4Network

end Cluon
