import Cluon.Library.TransitionSystem
import Mathlib.Data.List.Basic

/-!
# The notifying pipeline

Producers append entries to a deque, and one thread hands them over to a delegate. The
thread, `processPipeline`, waits on a condition variable until there are entries, counts
them, and then takes and removes that many, releasing the mutex around every one of them.

The model has a step for every access to shared data. The sections that only access the deque
are atomic, as they hold the mutex. In `wait` the mutex is held while the predicate is
evaluated and until the thread sleeps, so that the other threads can act in between without
the mutex. The thread wakes up when it is notified while asleep, or at any other time.
-/

set_option autoImplicit false

namespace Cluon

open Library

/-- Where `processPipeline` is. -/
inductive Consumer (α : Type) where
  /-- before `m_pipelineThreadRunning.store(true)` -/
  | starting
  /-- at the head of the loop -/
  | checkRunning
  /-- before the mutex is locked for `wait` -/
  | lock
  /-- before the predicate of `wait` is evaluated, holding the mutex -/
  | evaluate
  /-- the predicate was false, holding the mutex -/
  | goToSleep
  /-- waiting for a notification, without the mutex -/
  | asleep
  /-- the predicate was true, holding the mutex -/
  | waited
  /-- before the entries are counted -/
  | countEntries
  /-- at the head of the loop over the counted entries -/
  | nextEntry (i entries : BitVec 32)
  /-- before the front of the deque is copied -/
  | front (i entries : BitVec 32)
  /-- before the entry is handed over to the delegate -/
  | deliver (entry : α) (i entries : BitVec 32)
  /-- before the front of the deque is removed -/
  | popFront (entry : α) (i entries : BitVec 32)
  /-- `processPipeline` has returned -/
  | exited
  /-- `front()` or `pop_front()` was called on an empty deque -/
  | undefined
  deriving DecidableEq, Repr

/-- Where the thread is that constructs and destroys the pipeline. -/
inductive Owner where
  /-- in the constructor, waiting for the flag -/
  | constructing
  /-- between the constructor and the destructor -/
  | constructed
  /-- in the destructor, after `m_pipelineThreadRunning.store(false)` -/
  | stopped
  /-- in the destructor, after `notify_all()` -/
  | joining
  /-- after `join()` -/
  | joined
  deriving DecidableEq, Repr

/-- The shared data, where the threads are, and what has happened so far: the entries that
`add` enqueued, the entries that were popped, and the entries handed over to the delegate. -/
structure NotifyingPipeline (α : Type) where
  running : Bool
  locked : Bool
  pipeline : List α
  consumer : Consumer α
  owner : Owner
  added : List α
  popped : List α
  delivered : List α

namespace NotifyingPipeline

variable {α : Type}

/-- A pipeline whose constructor has spawned the thread. -/
def initial : NotifyingPipeline α where
  running := false
  locked := false
  pipeline := []
  consumer := .starting
  owner := .constructing
  added := []
  popped := []
  delivered := []

/-- `add(entry)`. -/
def add (s : NotifyingPipeline α) (entry : α) : NotifyingPipeline α :=
  { s with pipeline := s.pipeline ++ [entry], added := s.added ++ [entry] }

/-- `notify_all()`: a thread that is asleep has to lock the mutex again. -/
def notifyAll (s : NotifyingPipeline α) : NotifyingPipeline α :=
  if s.consumer matches .asleep then { s with consumer := .lock } else s

/-- The predicate of `wait`. -/
def waitPredicate (s : NotifyingPipeline α) : Bool := !s.running || !s.pipeline.isEmpty

/-- `m_delegate(std::move(entry))`, if there is a delegate. -/
def deliver (hasDelegate : Bool) (s : NotifyingPipeline α) (entry : α) : NotifyingPipeline α :=
  if hasDelegate then { s with delivered := s.delivered ++ [entry] } else s

/-- The next step of `processPipeline`, unless the thread is asleep, has to wait for the mutex,
or has no further step. -/
def processPipeline (hasDelegate : Bool) (s : NotifyingPipeline α) : Option (NotifyingPipeline α) :=
  match s.consumer with
  | .starting => some { s with running := true, consumer := .checkRunning }
  | .checkRunning => some { s with consumer := if s.running then .lock else .exited }
  | .lock => if s.locked then none else some { s with locked := true, consumer := .evaluate }
  | .evaluate => some { s with consumer := if s.waitPredicate then .waited else .goToSleep }
  | .goToSleep => some { s with locked := false, consumer := .asleep }
  | .asleep => none
  | .waited => some { s with locked := false, consumer := .countEntries }
  | .countEntries =>
      if s.locked then none
      else some { s with consumer := .nextEntry 0 (BitVec.ofNat 32 s.pipeline.length) }
  | .nextEntry i entries =>
      some { s with consumer := if i < entries then .front i entries else .checkRunning }
  | .front i entries =>
      if s.locked then none
      else match s.pipeline with
        | entry :: _ => some { s with consumer := .deliver entry i entries }
        | [] => some { s with consumer := .undefined }
  | .deliver entry i entries =>
      some { s.deliver hasDelegate entry with consumer := .popFront entry i entries }
  | .popFront _ i entries =>
      if s.locked then none
      else match s.pipeline with
        | entry :: rest => some { s with
            pipeline := rest
            popped := s.popped ++ [entry]
            consumer := .nextEntry (i + 1) entries }
        | [] => some { s with consumer := .undefined }
  | .exited => none
  | .undefined => none

/-- A step of one of the threads. -/
inductive Step (hasDelegate : Bool) : NotifyingPipeline α → NotifyingPipeline α → Prop where
  /-- a producer adds an entry; it holds the mutex meanwhile -/
  | add {s : NotifyingPipeline α} (entry : α) : s.locked = false → Step hasDelegate s (s.add entry)
  /-- somebody notifies the thread -/
  | notifyAll {s : NotifyingPipeline α} : Step hasDelegate s s.notifyAll
  /-- the thread wakes up without a notification -/
  | spuriousWakeUp {s : NotifyingPipeline α} : s.consumer = .asleep →
      Step hasDelegate s { s with consumer := .lock }
  /-- `processPipeline` goes on -/
  | processPipeline {s s' : NotifyingPipeline α} : s.processPipeline hasDelegate = some s' →
      Step hasDelegate s s'
  /-- the constructor has seen the flag -/
  | constructed {s : NotifyingPipeline α} : s.owner = .constructing → s.running = true →
      Step hasDelegate s { s with owner := .constructed }
  /-- the destructor resets the flag -/
  | stop {s : NotifyingPipeline α} : s.owner = .constructed →
      Step hasDelegate s { s with running := false, owner := .stopped }
  /-- the destructor notifies the thread -/
  | notify {s : NotifyingPipeline α} : s.owner = .stopped →
      Step hasDelegate s { s.notifyAll with owner := .joining }
  /-- the destructor joins the thread -/
  | join {s : NotifyingPipeline α} : s.owner = .joining → s.consumer = .exited →
      Step hasDelegate s { s with owner := .joined }

/-- The pipeline with a delegate or without one. -/
def system (α : Type) (hasDelegate : Bool) : TransitionSystem (NotifyingPipeline α) where
  init s := s = initial
  step := Step hasDelegate

end NotifyingPipeline

end Cluon
