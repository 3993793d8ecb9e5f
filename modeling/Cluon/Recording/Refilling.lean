import Cluon.Recording.Replay

/-!
# Refilling the cache

The loop of `fillEnvelopeCache` goes on to the next entry of the index only if an envelope has
been extracted from the file. The file may have been changed since the index was built. If there
is no complete frame at the position of an entry that is to be read, the extraction fails, and it
fails again in every further round: the stream has either failed, and then nothing is read from
it any more, or is put back to the same position (`fillEnvelopeCacheLoop_stuck`). So the loop
ends exactly if the file has complete frames at the positions of all entries to be read
(`fillEnvelopeCache_terminates_iff`).
-/

set_option autoImplicit false

namespace Cluon

open Library InputStream

/-- The bytes begin with a complete frame: a header, and as many bytes as it announces. -/
def BeginsWithFrame (bytes : Bytes) : Prop :=
  ∃ payload t : Bytes, payload.length < 2 ^ 24 ∧
    bytes = frameHeader payload.length ++ (payload ++ t)

section Extraction

variable (uninit : Nat → Byte)

/-- The header of a frame is five bytes, of which the first two are fixed. -/
theorem exists_frameHeader {header : Bytes} (five : header.length = 5)
    (magic : header[0]? = some 0x0D#8 ∧ header[1]? = some 0xA4#8) :
    ∃ n < 2 ^ 24, header = frameHeader n := by
  obtain ⟨first, second⟩ := magic
  match header, five with
  | [a, b, c, d, e], _ =>
      obtain rfl : a = 0x0D#8 := Option.some.inj first
      obtain rfl : b = 0xA4#8 := Option.some.inj second
      have small := ofLeBytes_lt [c, d, e]
      refine ⟨ofLeBytes [c, d, e], by simpa using small, ?_⟩
      exact congrArg (fun bs => 0x0D#8 :: 0xA4#8 :: bs) (leBytes_ofLeBytes [c, d, e]).symm

/-- An envelope is extracted exactly from a complete frame. -/
theorem extractEnvelope_succeeds_iff {is : InputStream} (hg : is.good) :
    (extractEnvelope uninit is).1.1 = true ↔ BeginsWithFrame is.rest := by
  constructor
  · intro found
    by_cases enough : 5 ≤ is.rest.length
    · have five : (is.rest.take 5).length = 5 := by
        rw [List.length_take]
        omega
      by_cases magic : (is.rest.take 5)[0]? = some 0x0D#8 ∧ (is.rest.take 5)[1]? = some 0xA4#8
      · obtain ⟨n, small, header⟩ := exists_frameHeader five magic
        have hr : is.rest = frameHeader n ++ is.rest.drop 5 := by
          rw [← header, List.take_append_drop]
        rw [extractEnvelope_header uninit small hg hr] at found
        have rest : (is.advance 5).rest = is.rest.drop 5 := rest_advance is 5
        by_cases complete : n ≤ (is.rest.drop 5).length
        · have length : ((is.rest.drop 5).take n).length = n := by
            rw [List.length_take]
            omega
          refine ⟨(is.rest.drop 5).take n, (is.rest.drop 5).drop n, by rwa [length], ?_⟩
          rw [length, List.take_append_drop]
          exact hr
        · have short := read_short (good_advance_of hg 5) (by rw [rest]; omega : _ < n)
          have missing : ¬ (is.rest.drop 5).length = n := by omega
          simp only [short, rest, if_neg missing] at found
          cases found
      · simp only [extractEnvelope, if_pos hg, read_of_le hg enough, five, if_true,
          if_neg magic] at found
        cases found
    · have missing : ¬ is.rest.length = 5 := by omega
      simp only [extractEnvelope, if_pos hg, read_short hg (Nat.not_le.mp enough),
        if_neg missing] at found
      cases found
  · rintro ⟨payload, t, small, hr⟩
    have behind := read_append (good_advance_of hg 5) (rest_advance_append hr)
    rw [extractEnvelope_header uninit small hg hr]
    simp only [behind, if_true]

/-- Where the stream is behind a complete frame. -/
theorem extractEnvelope_succeeds {is : InputStream} (hg : is.good)
    (complete : BeginsWithFrame is.rest) : ∃ n, (extractEnvelope uninit is).2 = is.advance n := by
  obtain ⟨payload, t, small, hr⟩ := complete
  have behind := read_append (good_advance_of hg 5) (rest_advance_append hr)
  refine ⟨5 + payload.length, ?_⟩
  rw [extractEnvelope_header uninit small hg hr]
  simp only [behind, if_true, advance_advance]

theorem data_read (is : InputStream) (n : Nat) : (is.read n).2.data = is.data := by
  rw [InputStream.read]
  split
  · split <;> rfl
  · rfl

/-- Extracting an envelope does not change the file. -/
theorem data_extractEnvelope (is : InputStream) : (extractEnvelope uninit is).2.data = is.data := by
  simp only [extractEnvelope]
  split
  · split
    · split
      · split <;> simp only [data_read]
      · exact data_read is 5
    · exact data_read is 5
  · rfl

/-- Moving within a stream that has not failed. -/
theorem seekg_of_seekable {is : InputStream} (seekable : is.failbit = false) (p : Nat) :
    is.seekg p = { is with eofbit := false, pos := p } := by
  simp [seekg, seekable]

end Extraction

namespace Player

variable (uninit : Nat → Byte)

/-- Filling the cache ends after some number of rounds. -/
def FillingTerminates (maxNumberOfEntries : Nat) (p : Player) : Prop :=
  ∃ fuel, (fillEnvelopeCache uninit fuel maxNumberOfEntries p).isSome

/-- The file has a complete frame at the position of an entry. -/
def HasFrame (file : Bytes) (entry : Int × IndexEntry) : Prop :=
  BeginsWithFrame (file.drop entry.2.filePosition)

/-- On a stream that has not failed, an envelope is extracted where there is a frame. -/
theorem extractEnvelope_seekg_iff {is : InputStream} (seekable : is.failbit = false)
    (entry : Int × IndexEntry) :
    (extractEnvelope uninit (is.seekg entry.2.filePosition)).1.1 = true ↔
      HasFrame is.data entry := by
  have moved := seekg_of_seekable seekable entry.2.filePosition
  have good : (is.seekg entry.2.filePosition).good := by
    rw [moved]
    simp [InputStream.good, seekable]
  rw [extractEnvelope_succeeds_iff uninit good, HasFrame, moved]
  rfl

/-- **A loop that is stuck.** If one of the entries that are still to be read has no frame in the
file, or the stream has failed, the loop does not end. -/
theorem fillEnvelopeCacheLoop_stuck {max : Nat} (fuel : Nat) :
    ∀ (entriesRead : Nat) (p : Player) (i : Nat) (entry : Int × IndexEntry),
      p.index[i]? = some entry → p.nextEntryToReadFromRecFile ≤ i →
      i + entriesRead < p.nextEntryToReadFromRecFile + max →
      (p.recFile.failbit = true ∨ ¬ HasFrame p.recFile.data entry) →
      fillEnvelopeCacheLoop uninit max fuel entriesRead p = none := by
  induction fuel with
  | zero => intros; rfl
  | succ fuel ih =>
      intro entriesRead p i entry present ahead requested failing
      obtain ⟨within, _⟩ := List.getElem?_eq_some_iff.mp present
      have inside : p.nextEntryToReadFromRecFile < p.index.length := by omega
      have wanted : entriesRead < max := by omega
      have next := List.getElem?_eq_getElem inside
      have data := data_extractEnvelope uninit
        (p.recFile.seekg p.index[p.nextEntryToReadFromRecFile].2.filePosition)
      have kept : (p.recFile.seekg p.index[p.nextEntryToReadFromRecFile].2.filePosition).data =
          p.recFile.data := by
        rw [seekg]
        split <;> rfl
      rw [fillEnvelopeCacheLoop, next]
      simp only [if_pos wanted]
      cases failed : p.recFile.failbit with
      | true =>
          -- Nothing is read from a stream that has failed.
          have spoiled : (p.recFile.seekg
              p.index[p.nextEntryToReadFromRecFile].2.filePosition).good = false := by
            simp [seekg, failed, InputStream.good]
          have extracted : extractEnvelope uninit (p.recFile.seekg
              p.index[p.nextEntryToReadFromRecFile].2.filePosition) =
              ((false, Envelope.initial), p.recFile.seekg
                p.index[p.nextEntryToReadFromRecFile].2.filePosition) := by
            simp [extractEnvelope, spoiled]
          rw [extracted]
          refine ih entriesRead _ i entry present ahead requested (.inl ?_)
          simp [seekg, failed]
      | false =>
          have noFrame : ¬ HasFrame p.recFile.data entry := by
            rcases failing with failing | failing
            · rw [failed] at failing
              cases failing
            · exact failing
          by_cases found : (extractEnvelope uninit (p.recFile.seekg
              p.index[p.nextEntryToReadFromRecFile].2.filePosition)).1.1 = true
          · -- The entry without a frame is a later one.
            have other : p.nextEntryToReadFromRecFile ≠ i := by
              rintro rfl
              rw [present, Option.some.injEq] at next
              rw [extractEnvelope_seekg_iff uninit failed, ← next] at found
              exact noFrame found
            rw [if_pos found]
            refine ih (entriesRead + 1) _ i entry present ?_ ?_ (.inr ?_)
            · simp only [advanceNextEntry, cacheEnvelope]
              omega
            · simp only [advanceNextEntry, cacheEnvelope]
              omega
            · simpa only [advanceNextEntry, cacheEnvelope, data, kept] using noFrame
          · rw [if_neg found]
            exact ih entriesRead _ i entry present ahead requested
              (.inr (by simpa only [data, kept] using noFrame))

/-- The loop ends if all entries to be read have their frames in the file. -/
theorem fillEnvelopeCacheLoop_terminates {max : Nat} (fuel : Nat) :
    ∀ (entriesRead : Nat) (p : Player), p.recFile.failbit = false →
      p.index.length - p.nextEntryToReadFromRecFile < fuel →
      (∀ i entry, p.index[i]? = some entry → p.nextEntryToReadFromRecFile ≤ i →
        i + entriesRead < p.nextEntryToReadFromRecFile + max → HasFrame p.recFile.data entry) →
      (fillEnvelopeCacheLoop uninit max fuel entriesRead p).isSome := by
  induction fuel with
  | zero => intro _ _ _ enough; exact absurd enough (Nat.not_lt_zero _)
  | succ fuel ih =>
      intro entriesRead p seekable enough frames
      rw [fillEnvelopeCacheLoop]
      cases next : p.index[p.nextEntryToReadFromRecFile]? with
      | none => rfl
      | some entry =>
          obtain ⟨inside, _⟩ := List.getElem?_eq_some_iff.mp next
          by_cases wanted : entriesRead < max
          · have frame := frames _ entry next le_rfl (by omega)
            have found := (extractEnvelope_seekg_iff uninit seekable entry).mpr frame
            have moved := seekg_of_seekable seekable entry.2.filePosition
            have good : (p.recFile.seekg entry.2.filePosition).good := by
              rw [moved]
              simp [InputStream.good, seekable]
            obtain ⟨n, behind⟩ := extractEnvelope_succeeds uninit good (by rw [moved]; exact frame)
            simp only [if_pos wanted, if_pos found, behind]
            refine ih (entriesRead + 1) _ ?_ ?_ ?_
            · simp only [advanceNextEntry, cacheEnvelope, moved, advance]
              exact seekable
            · simp only [advanceNextEntry, cacheEnvelope]
              omega
            · intro i other present ahead requested
              simp only [advanceNextEntry, cacheEnvelope] at present ahead requested ⊢
              rw [data_advance, moved]
              exact frames i other present (by omega) (by omega)
          · simp only [if_neg wanted, Option.isSome_some]

/-- **When refilling the cache ends.** Whatever the index, the file, and the number of entries
asked for, the loop ends if and only if the file has a complete frame at the position of every
entry that is to be read. -/
theorem fillEnvelopeCache_terminates_iff (p : Player) (max : Nat) :
    FillingTerminates uninit max p ↔
      (p.recFileValid = true → ∀ i entry, p.index[i]? = some entry →
        p.nextEntryToReadFromRecFile ≤ i → i < p.nextEntryToReadFromRecFile + max →
        HasFrame p.recFile.data entry) := by
  constructor
  · rintro ⟨fuel, ends⟩ valid i entry present ahead requested
    by_contra noFrame
    have stuck : fillEnvelopeCacheLoop uninit max fuel 0 { p with recFile := p.recFile.clear } =
        none :=
      fillEnvelopeCacheLoop_stuck uninit fuel 0 _ i entry present ahead requested (.inr noFrame)
    have started : (p.recFileValid && decide (0 < max)) = true := by
      rw [valid, Bool.true_and, decide_eq_true_iff]
      omega
    rw [fillEnvelopeCache, if_pos started, stuck] at ends
    cases ends
  · intro frames
    refine ⟨p.index.length + 1, ?_⟩
    rw [fillEnvelopeCache]
    split
    case isTrue started =>
        rw [Bool.and_eq_true] at started
        exact fillEnvelopeCacheLoop_terminates uninit _ 0 _ rfl
          ((Nat.sub_le _ _).trans_lt (Nat.lt_succ_self _)) fun i entry present ahead requested =>
            frames started.1 i entry present ahead requested
    case isFalse => rfl

/-- A player whose file has been cut off within the only frame does not come back from refilling
its cache at the beginning of the next pass. -/
theorem not_fillingTerminates :
    ∃ p : Player, construct (fun _ => 0) (fun _ => 1) 2
        (some (serializeEnvelopes [Envelope.initial] ++ [0x0D])) true false = some p ∧
      ¬ FillingTerminates (fun _ => 0) 5000
        { p with recFile := { p.recFile with data := [0x0D, 0xA4] } }.resetCaches.resetIterators := by
  have fits : ∀ e ∈ [Envelope.initial], FitsFrame e := by simp [fitsFrame_initial]
  obtain ⟨p, constructed, positioned, _⟩ :=
    construct_spec (fun _ => 0) (fun _ => 1) incompleteFrame_magic fits
      (by decide : [Envelope.initial].length < 2) true false
  refine ⟨p, constructed, fun terminates => ?_⟩
  have inside : 0 < (recordingOf [Envelope.initial] [0x0D] fits).entries.length := by
    rw [length_recordingOf]
    decide
  have present := getElem_index inside
  rw [← positioned.caching.index_eq] at present
  obtain ⟨payload, t, _, cut⟩ := (fillEnvelopeCache_terminates_iff (fun _ => 0) _ 5000).mp
    terminates positioned.caching.valid 0 _ present le_rfl (by simp [resetIterators])
  have lengths := congrArg List.length cut
  simp [resetIterators, resetCaches, List.length_drop] at lengths
  omega

end Player

end Cluon
