import Cluon.Library.TransitionSystem
import Cluon.Recording.Player

/-!
# A player with a background thread

With a background thread, `manageCache` fills the cache while another thread replays the
recording. The two threads share the cache and the iterators under a mutex. A step of the
model is a section under the mutex, or an access to what only one of the threads uses.

Whether `manageCache` refills the cache, and by how many entries, it computes from the size of
the cache in floating-point numbers; here every outcome is possible. When the recording is
rewound, the replaying thread ends the background thread, waits for it, fills the cache by
itself, and starts the background thread again.
-/

set_option autoImplicit false

namespace Cluon

open Library InputStream

/-- Where the thread is that calls `getNextEnvelopeToBeReplayed`. -/
inductive ReplayThread where
  /-- before the next call -/
  | idle
  /-- in `rewind`, joining the background thread -/
  | joining
  /-- in `checkAvailabilityOfNextEnvelopeToBeReplayed` -/
  | checkAvailability
  /-- before the section that returns the current envelope -/
  | replayCurrent
  deriving DecidableEq, Repr

/-- Where the background thread is. -/
inductive CacheThread where
  /-- at the head of the loop of `manageCache` -/
  | checkRunning
  /-- before `checkRefillingCache` -/
  | checkRefilling
  /-- at the head of the loop of `fillEnvelopeCache` -/
  | fill (maxNumberOfEntries entriesRead : Nat)
  /-- after an envelope was read -/
  | store (maxNumberOfEntries entriesRead filePosition : Nat) (e : Envelope.Values)
  /-- after an envelope was stored in the cache -/
  | advance (maxNumberOfEntries entriesRead : Nat)
  /-- `manageCache` has returned -/
  | exited

/-- A player, its two threads, and what the calls of `getNextEnvelopeToBeReplayed` have
returned so far. -/
structure ThreadedPlayer where
  player : Player
  replayThread : ReplayThread
  cacheThread : CacheThread
  cacheFillingRunning : Bool
  results : List (Bool × Envelope.Values)

namespace ThreadedPlayer

variable (uninit : Nat → Byte) (entriesPerSecond : Multimap Int IndexEntry → BitVec 32)

/-- A call of `getNextEnvelopeToBeReplayed` returns. -/
def answer (s : ThreadedPlayer) (result : Bool × Envelope.Values) : ThreadedPlayer :=
  { s with replayThread := .idle, results := s.results ++ [result] }

/-- `getNextEnvelopeToBeReplayed` goes on if there is a current envelope to replay. -/
def replayUnlessAtEnd (s : ThreadedPlayer) : ThreadedPlayer :=
  if s.player.currentEnvelopeToReplay ≠ s.player.index.length then
    { s with replayThread := .checkAvailability }
  else s.answer (false, Envelope.initial)

/-- A step of one of the two threads. -/
inductive Step : ThreadedPlayer → ThreadedPlayer → Prop where
  /-- a call that does not rewind the recording -/
  | call {s : ThreadedPlayer} : s.replayThread = .idle →
      (s.player.currentEnvelopeToReplay ≠ s.player.index.length ∨ s.player.autoRewind = false) →
      Step s s.replayUnlessAtEnd
  /-- a call that rewinds the recording -/
  | rewind {s : ThreadedPlayer} : s.replayThread = .idle →
      s.player.currentEnvelopeToReplay = s.player.index.length → s.player.autoRewind = true →
      Step s { s with cacheFillingRunning := false, replayThread := .joining }
  /-- the background thread has ended, and is started again on the rewound player -/
  | rewound {s : ThreadedPlayer} {fuel : Nat} {p : Player} : s.replayThread = .joining →
      s.cacheThread = .exited →
      s.player.computeInitialCacheLevelAndFillCache uninit entriesPerSecond fuel = some p →
      Step s (replayUnlessAtEnd
        { s with player := p, cacheFillingRunning := true, cacheThread := .checkRunning })
  /-- the replaying thread waits for a cache that is not empty -/
  | checkAvailability {s : ThreadedPlayer} : s.replayThread = .checkAvailability →
      Step s (if s.player.envelopeCache.length = 0 then s
        else { s with replayThread := .replayCurrent })
  /-- the section that returns the current envelope -/
  | replayCurrent {s : ThreadedPlayer} {e : Envelope.Values} {p : Player} :
      s.replayThread = .replayCurrent → s.player.replayCurrentEnvelope = some (e, p) →
      Step s ({ s with player := p }.answer (true, e))
  /-- the background thread ends -/
  | exit {s : ThreadedPlayer} : s.cacheThread = .checkRunning → s.cacheFillingRunning = false →
      Step s { s with cacheThread := .exited }
  /-- the background thread goes on -/
  | goOn {s : ThreadedPlayer} : s.cacheThread = .checkRunning → s.cacheFillingRunning = true →
      Step s { s with cacheThread := .checkRefilling }
  /-- the cache is not to be refilled -/
  | skip {s : ThreadedPlayer} : s.cacheThread = .checkRefilling →
      Step s { s with cacheThread := .checkRunning }
  /-- the cache is to be refilled -/
  | refill {s : ThreadedPlayer} (maxNumberOfEntries : Nat) : s.cacheThread = .checkRefilling →
      s.player.recFileValid = true → 0 < maxNumberOfEntries →
      Step s { s with
        player := { s.player with recFile := s.player.recFile.clear }
        cacheThread := .fill maxNumberOfEntries 0 }
  /-- there is nothing more to read -/
  | filled {s : ThreadedPlayer} {maxNumberOfEntries entriesRead : Nat} :
      s.cacheThread = .fill maxNumberOfEntries entriesRead →
      (s.player.nextEntryToReadFromRecFile = s.player.index.length ∨
        ¬ entriesRead < maxNumberOfEntries) →
      Step s { s with cacheThread := .checkRunning }
  /-- the next envelope is read -/
  | read {s : ThreadedPlayer} {maxNumberOfEntries entriesRead : Nat} {entry : Int × IndexEntry}
      {retVal : Bool × Envelope.Values} {recFile : InputStream} :
      s.cacheThread = .fill maxNumberOfEntries entriesRead →
      s.player.index[s.player.nextEntryToReadFromRecFile]? = some entry →
      entriesRead < maxNumberOfEntries →
      extractEnvelope uninit (s.player.recFile.seekg entry.2.filePosition) = (retVal, recFile) →
      Step s { s with
        player := { s.player with recFile := recFile }
        cacheThread :=
          if retVal.1 then .store maxNumberOfEntries entriesRead entry.2.filePosition retVal.2
          else .fill maxNumberOfEntries entriesRead }
  /-- the section that stores the envelope in the cache -/
  | store {s : ThreadedPlayer} {maxNumberOfEntries entriesRead filePosition : Nat}
      {e : Envelope.Values} :
      s.cacheThread = .store maxNumberOfEntries entriesRead filePosition e →
      Step s { s with
        player := s.player.cacheEnvelope filePosition e
        cacheThread := .advance maxNumberOfEntries entriesRead }
  /-- the background thread turns to the next entry -/
  | advance {s : ThreadedPlayer} {maxNumberOfEntries entriesRead : Nat} :
      s.cacheThread = .advance maxNumberOfEntries entriesRead →
      Step s { s with
        player := s.player.advanceNextEntry
        cacheThread := .fill maxNumberOfEntries (entriesRead + 1) }

/-- The players of a file. -/
def system (file : Option Bytes) (autoRewind : Bool) : TransitionSystem ThreadedPlayer where
  init s := ∃ fuel p, Player.construct uninit entriesPerSecond fuel file autoRewind true = some p ∧
    s = ⟨p, .idle, .checkRunning, true, []⟩
  step := Step uninit entriesPerSecond

/-- The current envelope is in the cache when it is returned. -/
def Available (s : ThreadedPlayer) : Prop :=
  s.replayThread = .replayCurrent →
    ∀ entry, s.player.index[s.player.currentEnvelopeToReplay]? = some entry →
      (s.player.envelopeCache.find entry.2.filePosition).isSome

end ThreadedPlayer

end Cluon
