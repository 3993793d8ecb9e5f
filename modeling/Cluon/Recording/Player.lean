import Cluon.Library.KeyValueMap
import Cluon.Library.Multimap
import Cluon.Recording.Envelope

/-!
# Replaying a recording

A `Player` reads a recording once to build an index of its envelopes, sorted by sample
time stamp. It then keeps a part of the envelopes in a cache, from which they are
replayed: the cache is filled ahead of the envelope to be replayed, and behind it all
envelopes but the last two are dropped.

The four iterators into the index are positions in it, its length being `end()`. Two loops
end only if the recording can be read and the cache is filled, so the functions that run
them take a bound for the number of rounds and return nothing if it does not suffice. The
number of entries per second is the result of a computation in floating-point numbers and
a parameter here.
-/

set_option autoImplicit false

namespace Cluon

open Library InputStream

/-- `cluon::time::toMicroseconds(tp)`; the sum is within the range of 64 bits. -/
def toMicroseconds (tp : TimeStamp.Values) : Int :=
  (TimeStamp.seconds tp).toInt * 1000000 + (TimeStamp.microseconds tp).toInt

/-- The time stamp by which an envelope is replayed. -/
def sampleTime (e : Envelope.Values) : Int := toMicroseconds (Envelope.sampleTimeStamp e)

/-- Where the envelope with a given sample time stamp is in the recording. -/
structure IndexEntry where
  sampleTimeStamp : Int
  filePosition : Nat
  deriving DecidableEq, Repr

/-- The members of a `Player`. -/
structure Player where
  threading : Bool
  recFile : InputStream
  recFileValid : Bool
  autoRewind : Bool
  index : Multimap Int IndexEntry
  previousPreviousEnvelopeAlreadyReplayed : Nat
  previousEnvelopeAlreadyReplayed : Nat
  currentEnvelopeToReplay : Nat
  nextEntryToReadFromRecFile : Nat
  desiredInitialLevel : BitVec 32
  numberOfReturnedEnvelopesInTotal : BitVec 64
  delay : BitVec 32
  envelopeCache : KeyValueMap Nat Envelope.Values

namespace Player

/-- `LOOK_AHEAD_IN_S`. -/
def lookAheadInS : BitVec 32 := 30

/-- `MIN_ENTRIES_FOR_LOOK_AHEAD`. -/
def minEntriesForLookAhead : BitVec 32 := 5000

/-! ## Caches and iterators -/

/-- `resetCaches()`. -/
def resetCaches (p : Player) : Player :=
  { p with delay := 0, numberOfReturnedEnvelopesInTotal := 0, envelopeCache := [] }

/-- `resetIterators()`. -/
def resetIterators (p : Player) : Player :=
  { p with
    nextEntryToReadFromRecFile := 0
    previousEnvelopeAlreadyReplayed := 0
    currentEnvelopeToReplay := 0
    previousPreviousEnvelopeAlreadyReplayed := p.index.length }

variable (uninit : Nat → Byte) (entriesPerSecond : Multimap Int IndexEntry → BitVec 32)

/-- The part of a round of `fillEnvelopeCache` in which an envelope is stored in the cache. -/
def cacheEnvelope (p : Player) (filePosition : Nat) (e : Envelope.Values) : Player :=
  { p with envelopeCache := (p.envelopeCache.emplace filePosition e).1 }

/-- `m_nextEntryToReadFromRecFile++`. -/
def advanceNextEntry (p : Player) : Player :=
  { p with nextEntryToReadFromRecFile := p.nextEntryToReadFromRecFile + 1 }

/-- The loop of `fillEnvelopeCache`: the number of entries read from the file. An entry that
cannot be read is tried again. -/
def fillEnvelopeCacheLoop (maxNumberOfEntries : Nat) :
    (fuel entriesRead : Nat) → Player → Option (Nat × Player)
  | 0, _, _ => none
  | fuel + 1, entriesRead, p =>
      match p.index[p.nextEntryToReadFromRecFile]? with
      | none => some (entriesRead, p)
      | some entry =>
          if entriesRead < maxNumberOfEntries then
            let (retVal, recFile) :=
              extractEnvelope uninit (p.recFile.seekg entry.2.filePosition)
            if retVal.1 then
              fillEnvelopeCacheLoop maxNumberOfEntries fuel (entriesRead + 1)
                ({ p with recFile := recFile }.cacheEnvelope entry.2.filePosition
                  retVal.2).advanceNextEntry
            else
              fillEnvelopeCacheLoop maxNumberOfEntries fuel entriesRead
                { p with recFile := recFile }
          else some (entriesRead, p)

/-- `fillEnvelopeCache(maxNumberOfEntriesToReadFromFile)`. -/
def fillEnvelopeCache (fuel maxNumberOfEntries : Nat) (p : Player) : Option (Nat × Player) :=
  if p.recFileValid && decide (0 < maxNumberOfEntries) then
    fillEnvelopeCacheLoop uninit maxNumberOfEntries fuel 0 { p with recFile := p.recFile.clear }
  else some (0, p)

/-- The size of the initial cache for the given number of entries per second. -/
def initialLevel (entriesToReadPerSecond : BitVec 32) : BitVec 32 :=
  if entriesToReadPerSecond * lookAheadInS < minEntriesForLookAhead then minEntriesForLookAhead
  else entriesToReadPerSecond * lookAheadInS

/-- `computeInitialCacheLevelAndFillCache()`. -/
def computeInitialCacheLevelAndFillCache (fuel : Nat) (p : Player) : Option Player :=
  if p.recFileValid && decide (0 < p.index.length) then do
    let level := initialLevel (entriesPerSecond p.index)
    let (_, p') ← fillEnvelopeCache uninit fuel level.toNat
      ({ p with desiredInitialLevel := level }.resetCaches.resetIterators)
    some p'
  else some p

/-! ## Construction -/

/-- One round of the loop that reads the complete recording to build the index. -/
def initializeIndexBody : Body (Multimap Int IndexEntry) := fun index is =>
  let posBefore := is.tellg
  let (retVal, is') := extractEnvelope uninit is
  if !is'.eofbit && retVal.1 then
    let microseconds := sampleTime retVal.2
    (true, index.emplace microseconds ⟨microseconds, posBefore.toNat⟩, is')
  else (true, index, is')

/-- `initializeIndex()`, for a file that can or cannot be opened. -/
def initializeIndex (file : Option Bytes) (p : Player) : Player :=
  match file with
  | some bytes =>
      let (index, recFile) := whileGood (initializeIndexBody uninit) p.index (ofBytes bytes)
      { p with recFileValid := true, recFile := recFile, index := index }
  | none => { p with recFileValid := false, recFile := { ofBytes [] with failbit := true } }

/-- The members before the body of the constructor; the index is still empty. -/
def init (autoRewind threading : Bool) : Player where
  threading := threading
  recFile := ofBytes []
  recFileValid := false
  autoRewind := autoRewind
  index := []
  previousPreviousEnvelopeAlreadyReplayed := 0
  previousEnvelopeAlreadyReplayed := 0
  currentEnvelopeToReplay := 0
  nextEntryToReadFromRecFile := 0
  desiredInitialLevel := 0
  numberOfReturnedEnvelopesInTotal := 0
  delay := 0
  envelopeCache := []

/-- `Player(file, autoRewind, threading)`, without the start of the background thread. An
iterator to the end of the empty index is one to the end of the index that was built. -/
def construct (fuel : Nat) (file : Option Bytes) (autoRewind threading : Bool) : Option Player :=
  let p := (init autoRewind threading).initializeIndex uninit file
  computeInitialCacheLevelAndFillCache uninit entriesPerSecond fuel
    { p with
      previousPreviousEnvelopeAlreadyReplayed := p.index.length
      previousEnvelopeAlreadyReplayed := p.index.length
      currentEnvelopeToReplay := p.index.length
      nextEntryToReadFromRecFile := p.index.length }

/-! ## Replay -/

/-- `rewind()` of a player without a background thread. -/
def rewind (fuel : Nat) (p : Player) : Option Player :=
  computeInitialCacheLevelAndFillCache uninit entriesPerSecond fuel p

/-- `checkAvailabilityOfNextEnvelopeToBeReplayed()`, when nobody else fills the cache. -/
def checkAvailabilityOfNextEnvelopeToBeReplayed : (fuel : Nat) → Player → Option Unit
  | 0, _ => none
  | fuel + 1, p =>
      if p.envelopeCache.length = 0 then checkAvailabilityOfNextEnvelopeToBeReplayed fuel p
      else some ()

/-- The section of `getNextEnvelopeToBeReplayed` under the mutex. It is undefined if one of
the iterators is at the end. -/
def replayCurrentEnvelope (p : Player) : Option (Envelope.Values × Player) := do
  let current ← p.index[p.currentEnvelopeToReplay]?
  let previous ← p.index[p.previousEnvelopeAlreadyReplayed]?
  let (nextEnvelope, cache) :=
    p.envelopeCache.getOrInsert current.2.filePosition Envelope.initial
  some (nextEnvelope,
    { p with
      delay := BitVec.ofInt 32 (current.1 - previous.1)
      envelopeCache :=
        if p.previousPreviousEnvelopeAlreadyReplayed ≠ p.index.length then
          cache.erase previous.2.filePosition
        else cache
      previousPreviousEnvelopeAlreadyReplayed := p.previousEnvelopeAlreadyReplayed
      previousEnvelopeAlreadyReplayed := p.currentEnvelopeToReplay
      currentEnvelopeToReplay := p.currentEnvelopeToReplay + 1
      numberOfReturnedEnvelopesInTotal := p.numberOfReturnedEnvelopesInTotal + 1 })

/-- `getNextEnvelopeToBeReplayed()` after the check for the end of the recording. -/
def replayNextEnvelope (fuel : Nat) (p : Player) :
    Option ((Bool × Envelope.Values) × Player) :=
  if p.currentEnvelopeToReplay ≠ p.index.length then do
    checkAvailabilityOfNextEnvelopeToBeReplayed fuel p
    let (envelopeToReturn, p') ← p.replayCurrentEnvelope
    if p'.threading then some ((true, envelopeToReturn), p')
    else do
      let (_, p'') ← fillEnvelopeCache uninit fuel 1 p'
      some ((true, envelopeToReturn), p'')
  else some ((false, Envelope.initial), p)

/-- `getNextEnvelopeToBeReplayed()`. -/
def getNextEnvelopeToBeReplayed (fuel : Nat) (p : Player) :
    Option ((Bool × Envelope.Values) × Player) :=
  if p.currentEnvelopeToReplay = p.index.length then
    if p.autoRewind then do
      let p' ← rewind uninit entriesPerSecond fuel p
      replayNextEnvelope uninit fuel p'
    else some ((false, Envelope.initial), p)
  else replayNextEnvelope uninit fuel p

end Player

end Cluon
