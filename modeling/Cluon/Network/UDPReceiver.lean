import Cluon.Library.ByteOrder
import Cluon.Network.PipelineOwner

/-!
# Receiving and sending datagrams

`UDPReceiver` has a thread that reads datagrams from a socket. It drops the datagrams that its
owner has sent itself, and adds the other ones to a pipeline, whose thread hands them over to
the delegate. The constructor spawns the reading thread before it creates the pipeline, so that
the reading thread may find no pipeline to add an entry to. The destructor joins the reading
thread before it destroys the pipeline.

The model has a step for every access to shared data, as in the model of the pipeline, and for
every system call. `select` and `recvfrom` may fail at any time.
-/

set_option autoImplicit false

namespace Cluon

open Library

/-- The largest payload of a UDP packet:
`MAX_SIZE_UDP_PACKET - SIZE_IPv4_HEADER - SIZE_UDP_HEADER`. -/
def maxLengthUDPPayload : Nat := 65535 - 20 - 8

/-- The address and the port of a sender. -/
structure SocketAddress where
  ip : BitVec 32
  port : BitVec 16
  deriving DecidableEq, Repr

/-- A datagram, and when the operating system has received it, in nanoseconds. -/
structure Datagram where
  remote : SocketAddress
  data : Bytes
  timestamp : Int
  deriving DecidableEq, Repr

/-! ## The sender -/

/-- `errno` as `send` reports it. -/
inductive SendError where
  | EBADF | E2BIG
  deriving DecidableEq, Repr

/-- What `UDPSender::send` does with some bytes: it returns early, or calls `sendto`. -/
inductive SendResult where
  | returns (bytesSent : Int) (error : Option SendError)
  | sendto (data : Bytes)
  deriving DecidableEq, Repr

/-- `UDPSender::send(data)`. -/
def UDPSender.send (hasSocket : Bool) (data : Bytes) : SendResult :=
  if !hasSocket then .returns (-1) (some .EBADF)
  else if data.isEmpty then .returns 0 none
  else if maxLengthUDPPayload < data.length then .returns (-1) (some .E2BIG)
  else .sendto data

/-! ## The receiver -/

/-- `::inet_ntop` for an IPv4 address. -/
def inet_ntop (ip : BitVec 32) : String :=
  ".".intercalate ([24, 16, 8, 0].map fun i => toString ((ip.toNat >>> i) % 256))

/-- An entry of the pipeline. -/
structure PipelineEntry where
  data : Bytes
  sender : String
  sampleTime : Int
  deriving DecidableEq, Repr

/-- The entry for a datagram; what does not fit into the buffer is lost. -/
def PipelineEntry.of (d : Datagram) : PipelineEntry where
  data := d.data.take maxLengthUDPPayload
  sender := inet_ntop d.remote.ip ++ ":" ++ toString d.remote.port.toNat
  sampleTime := d.timestamp

namespace UDPReceiver

/-- Where the reading thread is. -/
inductive Reader where
  /-- before `m_readFromSocketThreadRunning.store(true)` -/
  | starting
  /-- at the head of the loop -/
  | checkRunning
  /-- before `select` -/
  | select
  /-- before `recvfrom` -/
  | receive (totalBytesRead : Nat)
  /-- before an entry is added to the pipeline, if there is one -/
  | store (entry : PipelineEntry) (totalBytesRead : Nat)
  /-- before the pipeline is notified, if there is one and bytes were read -/
  | notify (totalBytesRead : Nat)
  /-- `readFromSocket` has returned -/
  | exited
  deriving DecidableEq, Repr

/-- What does not change: whether there is a delegate, the port that the owner sends from, the
addresses of this host, and the mode of the socket. -/
structure Setup where
  hasDelegate : Bool
  localSendFromPort : BitVec 16
  listOfLocalIPAddresses : List (BitVec 32)
  isBlockingSocket : Bool

end UDPReceiver

/-- The shared data, where the threads are, and what has happened so far: the datagrams that
were read from the socket, and the entries for which there was no pipeline. -/
structure UDPReceiver where
  running : Bool
  reader : UDPReceiver.Reader
  pipeline : NotifyingPipeline PipelineEntry
  hasPipeline : Bool
  owner : PipelineOwner
  socket : List Datagram
  received : List Datagram
  missed : List PipelineEntry

namespace UDPReceiver

/-- A receiver whose constructor has spawned the reading thread. -/
def initial : UDPReceiver where
  running := false
  reader := .starting
  pipeline := .initial
  hasPipeline := false
  owner := .startingReader
  socket := []
  received := []
  missed := []

/-- The datagram comes from a local address and from the port that the owner sends from. -/
def Setup.sentFromUs (setup : Setup) (remote : SocketAddress) : Bool :=
  let sentFromLocalIP := setup.listOfLocalIPAddresses.contains remote.ip
  sentFromLocalIP && decide (setup.localSendFromPort = remote.port)

/-- Where the reading thread is after one round of the inner loop: a blocking socket is read
once. -/
def Setup.again (setup : Setup) (bytesRead totalBytesRead : Nat) : Reader :=
  if !setup.isBlockingSocket ∧ 0 < bytesRead then .receive totalBytesRead
  else .notify totalBytesRead

/-- `recvfrom` returns a datagram. -/
def receive (setup : Setup) (r : UDPReceiver) (totalBytesRead : Nat) (d : Datagram) :
    UDPReceiver :=
  let bytesRead := (d.data.take maxLengthUDPPayload).length
  let r := { r with socket := r.socket.tail, received := r.received ++ [d] }
  if 0 < bytesRead ∧ setup.hasDelegate then
    if setup.sentFromUs d.remote then
      { r with reader := setup.again bytesRead (totalBytesRead + bytesRead) }
    else { r with reader := .store (PipelineEntry.of d) (totalBytesRead + bytesRead) }
  else { r with reader := setup.again bytesRead totalBytesRead }

/-- The next step of `readFromSocket`, unless it is `select`, or has to wait, or there is
none. -/
def readFromSocket (setup : Setup) (r : UDPReceiver) : Option UDPReceiver :=
  match r.reader with
  | .starting => some { r with running := true, reader := .checkRunning }
  | .checkRunning => some { r with reader := if r.running then .select else .exited }
  | .select => none
  | .receive totalBytesRead =>
      match r.socket with
      | d :: _ => some (r.receive setup totalBytesRead d)
      | [] =>
          if setup.isBlockingSocket then none
          else some { r with reader := .notify totalBytesRead }
  | .store entry totalBytesRead =>
      if r.hasPipeline then
        if r.pipeline.locked then none
        else some { r with
          pipeline := r.pipeline.add entry
          reader := setup.again entry.data.length totalBytesRead }
      else some { r with
        missed := r.missed ++ [entry]
        reader := setup.again entry.data.length totalBytesRead }
  | .notify totalBytesRead =>
      -- The number of bytes is cast to a signed integer of 32 bits.
      if 0 < (BitVec.ofNat 32 totalBytesRead).toInt ∧ r.hasPipeline then
        some { r with pipeline := r.pipeline.notifyAll, reader := .checkRunning }
      else some { r with reader := .checkRunning }
  | .exited => none

/-- A step of one of the threads. -/
inductive Act (setup : Setup) : UDPReceiver → UDPReceiver → Prop
  /-- `select` says that there is something to read -/
  | readable {r : UDPReceiver} : r.reader = .select → Act setup r { r with reader := .receive 0 }
  /-- `select` says that there is nothing to read -/
  | timeout {r : UDPReceiver} : r.reader = .select → Act setup r { r with reader := .notify 0 }
  /-- `recvfrom` fails -/
  | error {r : UDPReceiver} {totalBytesRead : Nat} : r.reader = .receive totalBytesRead →
      Act setup r { r with reader := .notify totalBytesRead }
  /-- `readFromSocket` goes on -/
  | readFromSocket {r r' : UDPReceiver} : r.readFromSocket setup = some r' → Act setup r r'
  /-- the pipeline goes on, once it has been created -/
  | pipeline {r : UDPReceiver} {p : NotifyingPipeline PipelineEntry} :
      r.owner ≠ .startingReader → r.pipeline.OwnStep p →
      Act setup r { r with pipeline := p }
  /-- the constructor has seen the flag of the reading thread, and creates the pipeline -/
  | createPipeline {r : UDPReceiver} : r.owner = .startingReader → r.running = true →
      Act setup r { r with owner := .startingPipeline }
  /-- the constructor has seen the flag of the pipeline, and returns -/
  | constructed {r : UDPReceiver} : r.owner = .startingPipeline → r.pipeline.running = true →
      Act setup r { r with
        pipeline := { r.pipeline with owner := .constructed }
        hasPipeline := true
        owner := .constructed }
  /-- the destructor resets the flag of the reading thread -/
  | stop {r : UDPReceiver} : r.owner = .constructed →
      Act setup r { r with running := false, owner := .stopped }
  /-- the destructor has joined the reading thread, and resets the flag of the pipeline -/
  | reset {r : UDPReceiver} : r.owner = .stopped → r.reader = .exited →
      Act setup r { r with
        pipeline := { r.pipeline with running := false, owner := .stopped }
        hasPipeline := false
        owner := .resetting }

/-- A step of one of the threads, or of the network. -/
inductive Step (setup : Setup) : UDPReceiver → UDPReceiver → Prop
  /-- a datagram arrives -/
  | arrive {r : UDPReceiver} (d : Datagram) : Step setup r { r with socket := r.socket ++ [d] }
  /-- one of the threads goes on -/
  | act {r r' : UDPReceiver} : Act setup r r' → Step setup r r'

/-- The receiver. -/
def system (setup : Setup) : TransitionSystem UDPReceiver where
  init r := r = initial
  step := Step setup

end UDPReceiver

end Cluon
