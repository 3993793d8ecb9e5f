import Cluon.Library.ByteOrder
import Cluon.Network.PipelineOwner

/-!
# Connections

`TCPConnection` has a thread that reads chunks of bytes from a socket and adds them to a
pipeline, whose thread hands them over to the delegate for new data. The reading thread does
not read before there is a delegate. It ends when the peer has shut down the connection or
an error occurs, and then calls the delegate for lost connections.

A connection is constructed from an address, with the delegates, or from the socket that a
`TCPServer` has accepted, without them; then they are set later. In both cases the constructor
spawns the reading thread before it creates the pipeline.

The delegate for new data is protected by a mutex, which the reading thread holds while it adds
a chunk and notifies the pipeline. The thread of the pipeline calls the delegate without that
mutex. If there is none at that time, the call throws, and the program is terminated.
-/

set_option autoImplicit false

namespace Cluon

open Library

/-- An entry of the pipeline. -/
structure Chunk where
  data : Bytes
  sampleTime : Int
  deriving DecidableEq, Repr

namespace TCPConnection

/-- `MAX_LENGTH`: the size of the buffer of the reading thread, and the length of the longest
message that is sent. -/
def maxLength : Nat := 65535

/-- Where the reading thread is. From `select` on it knows whether there was a delegate. -/
inductive Reader where
  /-- before `m_readFromSocketThreadRunning.store(true)` -/
  | starting
  /-- at the head of the loop -/
  | checkRunning (hasNewDataDelegate : Bool)
  /-- before `select` -/
  | select (hasNewDataDelegate : Bool)
  /-- after `select`, before the delegate is looked at, unless there was one before -/
  | checkDelegate (hasNewDataDelegate readable : Bool)
  /-- before `recv` -/
  | receive
  /-- after `recv`, before the mutex of the delegate is locked -/
  | lockDelegate (chunk : Chunk)
  /-- before the chunk is added to the pipeline, if there is one, holding that mutex -/
  | store (chunk : Chunk)
  /-- before the pipeline is notified, if there is one, holding that mutex -/
  | notify
  /-- the connection is lost, before `m_readFromSocketThreadRunning.store(false)` -/
  | lost
  /-- before the delegate for lost connections is called, if there is one -/
  | callLost
  /-- `readFromSocket` has returned -/
  | exited
  deriving DecidableEq, Repr

end TCPConnection

/-- The shared data, where the threads are, and what has happened so far: the bytes that have
arrived, the chunks for which there was no pipeline or no delegate, the chunks that delegates
were called with, how often the delegate for lost connections was called, and whether the
program was terminated. -/
structure TCPConnection (Delegate : Type) where
  running : Bool
  reader : TCPConnection.Reader
  pipeline : NotifyingPipeline Chunk
  hasPipeline : Bool
  owner : PipelineOwner
  newDataDelegate : Option Delegate
  hasConnectionLostDelegate : Bool
  socket : Bytes
  shutDown : Bool
  arrived : Bytes
  missed : List Chunk
  unwanted : List Chunk
  calls : List (Delegate × Chunk)
  lostCalls : Nat
  terminated : Bool

namespace TCPConnection

variable {Delegate : Type}

/-- A connection whose constructor has spawned the reading thread. -/
def initial (newDataDelegate : Option Delegate) (hasConnectionLostDelegate : Bool) :
    TCPConnection Delegate where
  running := false
  reader := .starting
  pipeline := .initial
  hasPipeline := false
  owner := .startingReader
  newDataDelegate := newDataDelegate
  hasConnectionLostDelegate := hasConnectionLostDelegate
  socket := []
  shutDown := false
  arrived := []
  missed := []
  unwanted := []
  calls := []
  lostCalls := 0
  terminated := false

/-- The reading thread holds the mutex of the delegate for new data. -/
def Reader.holdsDelegate : Reader → Bool
  | .store _ | .notify => true
  | _ => false

/-- The delegate for lost connections is called, if there is one. -/
def callConnectionLostDelegate (c : TCPConnection Delegate) : TCPConnection Delegate :=
  if c.hasConnectionLostDelegate then { c with lostCalls := c.lostCalls + 1 } else c

/-- The next step of `readFromSocket`, unless it is `select` or `recv`, or has to wait, or there
is none. -/
def readFromSocket (c : TCPConnection Delegate) : Option (TCPConnection Delegate) :=
  match c.reader with
  | .starting => some { c with running := true, reader := .checkRunning false }
  | .checkRunning has => some { c with reader := if c.running then .select has else .exited }
  | .select _ => none
  | .checkDelegate has readable =>
      let has := has || c.newDataDelegate.isSome
      some { c with reader := if readable && has then .receive else .checkRunning has }
  | .receive => none
  | .lockDelegate chunk =>
      if c.newDataDelegate.isSome then some { c with reader := .store chunk }
      else some { c with unwanted := c.unwanted ++ [chunk], reader := .checkRunning true }
  | .store chunk =>
      if c.hasPipeline then
        if c.pipeline.locked then none
        else some { c with pipeline := c.pipeline.add chunk, reader := .notify }
      else some { c with missed := c.missed ++ [chunk], reader := .notify }
  | .notify =>
      if c.hasPipeline then
        some { c with pipeline := c.pipeline.notifyAll, reader := .checkRunning true }
      else some { c with reader := .checkRunning true }
  | .lost => some { c with running := false, reader := .callLost }
  | .callLost => some { c.callConnectionLostDelegate with reader := .exited }
  | .exited => none

/-- The delegate for new data is called with some chunks. -/
def call (c : TCPConnection Delegate) (chunks : List Chunk) : TCPConnection Delegate :=
  match c.newDataDelegate with
  | some delegate => { c with calls := c.calls ++ chunks.map fun chunk => (delegate, chunk) }
  | none => if chunks = [] then c else { c with terminated := true }

/-- What `send` does with some bytes: it returns early, or calls `::send`. -/
inductive SendResult where
  | EBADF | empty | ENOTCONN | E2BIG
  | send (data : Bytes)
  deriving DecidableEq, Repr

/-- `send(data)`: on a lost connection the delegate for lost connections is called again. -/
def send (hasSocket : Bool) (c : TCPConnection Delegate) (data : Bytes) :
    SendResult × TCPConnection Delegate :=
  if !hasSocket then (.EBADF, c)
  else if data.isEmpty then (.empty, c)
  else if !c.running then (.ENOTCONN, c.callConnectionLostDelegate)
  else if maxLength < data.length then (.E2BIG, c)
  else (.send data, c)

/-- A step of one of the threads, or of the network. -/
inductive Step : TCPConnection Delegate → TCPConnection Delegate → Prop
  /-- bytes of the peer arrive -/
  | arrive {c : TCPConnection Delegate} (bytes : Bytes) : c.shutDown = false →
      Step c { c with socket := c.socket ++ bytes, arrived := c.arrived ++ bytes }
  /-- the peer shuts down the connection -/
  | shutDown {c : TCPConnection Delegate} : Step c { c with shutDown := true }
  /-- `select` says whether there is something to read -/
  | select {c : TCPConnection Delegate} {has : Bool} (readable : Bool) : c.reader = .select has →
      Step c { c with reader := .checkDelegate has readable }
  /-- `recv` returns some of the bytes that have arrived -/
  | receive {c : TCPConnection Delegate} (bytesRead : Nat) (time : Int) : c.reader = .receive →
      0 < bytesRead → bytesRead ≤ maxLength → bytesRead ≤ c.socket.length →
      Step c { c with
        socket := c.socket.drop bytesRead
        reader := .lockDelegate ⟨c.socket.take bytesRead, time⟩ }
  /-- `recv` finds the connection shut down -/
  | closed {c : TCPConnection Delegate} : c.reader = .receive → c.shutDown = true →
      c.socket = [] → Step c { c with reader := .lost }
  /-- `recv` fails -/
  | error {c : TCPConnection Delegate} : c.reader = .receive → Step c { c with reader := .lost }
  /-- `readFromSocket` goes on -/
  | readFromSocket {c c' : TCPConnection Delegate} : c.readFromSocket = some c' → Step c c'
  /-- the pipeline goes on, once it has been created; what it hands over goes to the delegate -/
  | pipeline {c : TCPConnection Delegate} {p : NotifyingPipeline Chunk} :
      c.owner ≠ .startingReader → c.pipeline.OwnStep p →
      Step c ({ c with pipeline := p }.call (p.delivered.drop c.pipeline.delivered.length))
  /-- the constructor has seen the flag of the reading thread, and creates the pipeline -/
  | createPipeline {c : TCPConnection Delegate} : c.owner = .startingReader → c.running = true →
      Step c { c with owner := .startingPipeline }
  /-- the constructor has seen the flag of the pipeline, and returns -/
  | constructed {c : TCPConnection Delegate} : c.owner = .startingPipeline →
      c.pipeline.running = true →
      Step c { c with
        pipeline := { c.pipeline with owner := .constructed }
        hasPipeline := true
        owner := .constructed }
  /-- `setOnNewData(newDataDelegate)` -/
  | setOnNewData {c : TCPConnection Delegate} (newDataDelegate : Option Delegate) :
      c.owner = .constructed → c.reader.holdsDelegate = false →
      Step c { c with newDataDelegate := newDataDelegate }
  /-- `setOnConnectionLost(connectionLostDelegate)` -/
  | setOnConnectionLost {c : TCPConnection Delegate} (hasConnectionLostDelegate : Bool) :
      c.owner = .constructed →
      Step c { c with hasConnectionLostDelegate := hasConnectionLostDelegate }
  /-- `send(data)` -/
  | send {c : TCPConnection Delegate} (hasSocket : Bool) (data : Bytes) : c.owner = .constructed →
      Step c (c.send hasSocket data).2
  /-- the destructor resets the flag of the reading thread -/
  | stop {c : TCPConnection Delegate} : c.owner = .constructed →
      Step c { c with running := false, owner := .stopped }
  /-- the destructor has joined the reading thread, and resets the flag of the pipeline -/
  | reset {c : TCPConnection Delegate} : c.owner = .stopped → c.reader = .exited →
      Step c { c with
        pipeline := { c.pipeline with running := false, owner := .stopped }
        hasPipeline := false
        owner := .resetting }

/-- The connection, which makes no steps after the program was terminated. -/
def system (newDataDelegate : Option Delegate) : TransitionSystem (TCPConnection Delegate) where
  init c := ∃ hasConnectionLostDelegate, c = initial newDataDelegate hasConnectionLostDelegate
  step c c' := c.terminated = false ∧ Step c c'

end TCPConnection

end Cluon
