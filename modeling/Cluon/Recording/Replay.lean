import Cluon.Recording.Index

/-!
# Replaying without a background thread

The cache of a player holds a contiguous part of the recording (`Caching`). While the
player replays, that part begins at the envelope returned last and ends behind the
envelope to be returned next (`Plays`). Every operation preserves this, so a player behaves like a
cursor in the list of the sorted envelopes (`replay`, `Player.run_eq_replay`).
-/

set_option autoImplicit false

namespace Cluon

open Library InputStream

/-! ## A cursor in a list -/

/-- The operations on a player. -/
inductive ReplayOp where
  | getNextEnvelopeToBeReplayed
  | rewind
  deriving DecidableEq, Repr

/-- What is returned next, and the position afterwards, when the elements of a list are
returned one after the other and, if asked for, again from the beginning. -/
def replayNext {α : Type} (order : List α) (autoRewind : Bool) (cursor : Nat) : Option α × Nat :=
  match order[cursor]? with
  | some e => (some e, cursor + 1)
  | none =>
      if autoRewind then
        match order[0]? with
        | some e => (some e, 1)
        | none => (none, cursor)
      else (none, cursor)

/-- What the calls of `getNextEnvelopeToBeReplayed` among the operations return. -/
def replay {α : Type} (order : List α) (autoRewind : Bool) :
    Nat → List ReplayOp → List (Option α)
  | _, [] => []
  | _, .rewind :: ops => replay order autoRewind 0 ops
  | cursor, .getNextEnvelopeToBeReplayed :: ops =>
      (replayNext order autoRewind cursor).1 ::
        replay order autoRewind (replayNext order autoRewind cursor).2 ops

section Cursor

variable {α : Type} (order : List α) (autoRewind : Bool)

theorem replay_drop (ops : List ReplayOp) :
    ∀ (n cursor : Nat), cursor + n = order.length →
      replay order autoRewind cursor
          (List.replicate n .getNextEnvelopeToBeReplayed ++ ops) =
        (order.drop cursor).map some ++ replay order autoRewind order.length ops := by
  intro n
  induction n with
  | zero =>
      intro cursor h
      have atEnd : cursor = order.length := by omega
      subst atEnd
      simp
  | succ n ih =>
      intro cursor h
      have inside : cursor < order.length := by omega
      rw [List.replicate_succ, List.cons_append, replay, replayNext,
        List.getElem?_eq_getElem inside, ih (cursor + 1) (by omega),
        List.drop_eq_getElem_cons inside]
      rfl

/-- **A pass returns every element once, in order.** -/
theorem replay_pass (ops : List ReplayOp) :
    replay order autoRewind 0
        (List.replicate order.length .getNextEnvelopeToBeReplayed ++ ops) =
      order.map some ++ replay order autoRewind order.length ops :=
  replay_drop order autoRewind ops order.length 0 (Nat.zero_add _)

/-- Without automatic rewinding nothing is returned after a pass. -/
theorem replay_end (ops : List ReplayOp) :
    replay order false order.length (.getNextEnvelopeToBeReplayed :: ops) =
      none :: replay order false order.length ops := by
  simp [replay, replayNext]

/-- With automatic rewinding the next pass begins. -/
theorem replay_again (h : order ≠ []) (ops : List ReplayOp) :
    replay order true order.length (.getNextEnvelopeToBeReplayed :: ops) =
      replay order true 0 (.getNextEnvelopeToBeReplayed :: ops) := by
  obtain ⟨e, es, rfl⟩ := List.exists_cons_of_ne_nil h
  simp [replay, replayNext]

theorem mem_of_replayNext {cursor : Nat} {e : α}
    (h : (replayNext order autoRewind cursor).1 = some e) : e ∈ order := by
  rw [replayNext] at h
  cases here : order[cursor]? with
  | some e' =>
      simp only [here, Option.some.injEq] at h
      exact h ▸ List.mem_of_getElem? here
  | none =>
      cases autoRewind with
      | false => simp [here] at h
      | true =>
          cases start : order[0]? with
          | none => simp [here, start] at h
          | some e' =>
              simp only [here, start, if_true, Option.some.injEq] at h
              exact h ▸ List.mem_of_getElem? start

/-- Only elements of the list are returned. -/
theorem mem_of_mem_replay {e : α} (ops : List ReplayOp) :
    ∀ {cursor : Nat}, some e ∈ replay order autoRewind cursor ops → e ∈ order := by
  induction ops with
  | nil => intro _ h; cases h
  | cons op ops ih =>
      intro cursor h
      cases op with
      | rewind => exact ih h
      | getNextEnvelopeToBeReplayed =>
          rw [replay, List.mem_cons] at h
          rcases h with now | later
          · exact mem_of_replayNext order autoRewind now.symm
          · exact ih later

end Cursor

/-! ## The order of a replay -/

theorem replayOrder_perm (es : List Envelope.Values) : (replayOrder es).Perm es :=
  Multimap.sortBy_perm sampleTime es

theorem replayOrder_sorted (es : List Envelope.Values) :
    (replayOrder es).Pairwise fun a b => sampleTime a ≤ sampleTime b :=
  Multimap.sortBy_sorted sampleTime es

theorem replayOrder_filter (es : List Envelope.Values) (t : Int) :
    (replayOrder es).filter (fun e => decide (sampleTime e = t)) =
      es.filter (fun e => decide (sampleTime e = t)) :=
  Multimap.sortBy_filter sampleTime es t

namespace Player

variable (uninit : Nat → Byte) (entriesPerSecond : Multimap Int IndexEntry → BitVec 32)

/-! ## The cache -/

/-- The player has the recording open, and its cache holds the envelopes of the recording from
the given entry on up to the next entry to be read. -/
structure Caching (R : Recording) (first : Nat) (p : Player) : Prop where
  valid : p.recFileValid = true
  data_eq : p.recFile.data = R.file
  index_eq : p.index = R.index
  first_le : first ≤ p.nextEntryToReadFromRecFile
  next_le : p.nextEntryToReadFromRecFile ≤ R.entries.length
  cached : ∀ (i : Nat) (h : i < R.entries.length),
    p.envelopeCache.find R.entries[i].1 =
      if first ≤ i ∧ i < p.nextEntryToReadFromRecFile then some R.entries[i].2 else none

/-- Filling the cache changes nothing but the file, the cache, and the next entry to read. -/
structure Filled (p p' : Player) : Prop where
  threading_eq : p'.threading = p.threading
  autoRewind_eq : p'.autoRewind = p.autoRewind
  previousPrevious_eq :
    p'.previousPreviousEnvelopeAlreadyReplayed = p.previousPreviousEnvelopeAlreadyReplayed
  previous_eq : p'.previousEnvelopeAlreadyReplayed = p.previousEnvelopeAlreadyReplayed
  current_eq : p'.currentEnvelopeToReplay = p.currentEnvelopeToReplay
  delay_eq : p'.delay = p.delay

theorem Filled.refl (p : Player) : p.Filled p := ⟨rfl, rfl, rfl, rfl, rfl, rfl⟩

/-- Filling more of the cache, where the part filled before left the other members alone. -/
theorem Filled.of_eq {p q p' : Player} (filled : q.Filled p') (same : p.Filled q) :
    p.Filled p' where
  threading_eq := filled.threading_eq.trans same.threading_eq
  autoRewind_eq := filled.autoRewind_eq.trans same.autoRewind_eq
  previousPrevious_eq := filled.previousPrevious_eq.trans same.previousPrevious_eq
  previous_eq := filled.previous_eq.trans same.previous_eq
  current_eq := filled.current_eq.trans same.current_eq
  delay_eq := filled.delay_eq.trans same.delay_eq

/-- Filling the cache changes no member but those it is about. -/
theorem filled_of_fillEnvelopeCacheLoop {max fuel : Nat} :
    ∀ {entriesRead : Nat} {p p' : Player} {read : Nat},
      fillEnvelopeCacheLoop uninit max fuel entriesRead p = some (read, p') → p.Filled p' := by
  induction fuel with
  | zero => intro _ _ _ _ h; cases h
  | succ fuel ih =>
      intro entriesRead p p' read h
      rw [fillEnvelopeCacheLoop] at h
      cases hp : p.index[p.nextEntryToReadFromRecFile]? with
      | none =>
          rw [hp] at h
          obtain ⟨-, rfl⟩ := Prod.mk.inj (Option.some.inj h)
          exact .refl p
      | some entry =>
          simp only [hp] at h
          split at h
          · split at h
            · exact (ih h).of_eq ⟨rfl, rfl, rfl, rfl, rfl, rfl⟩
            · exact (ih h).of_eq ⟨rfl, rfl, rfl, rfl, rfl, rfl⟩
          · obtain ⟨-, rfl⟩ := Prod.mk.inj (Option.some.inj h)
            exact .refl p

theorem filled_of_fillEnvelopeCache {max fuel : Nat} {p p' : Player} {read : Nat}
    (h : fillEnvelopeCache uninit fuel max p = some (read, p')) : p.Filled p' := by
  rw [fillEnvelopeCache] at h
  split at h
  · exact (filled_of_fillEnvelopeCacheLoop uninit h).of_eq ⟨rfl, rfl, rfl, rfl, rfl, rfl⟩
  · obtain ⟨-, rfl⟩ := Prod.mk.inj (Option.some.inj h)
    exact .refl p

theorem getElem_index {R : Recording} {i : Nat} (h : i < R.entries.length) :
    R.index[i]? = some (sampleTime R.entries[i].2,
      ⟨sampleTime R.entries[i].2, R.entries[i].1⟩) := by
  rw [Recording.index, List.getElem?_map, List.getElem?_eq_getElem h]
  rfl

theorem position_inj {R : Recording} {i j : Nat} (hi : i < R.entries.length)
    (hj : j < R.entries.length) : R.entries[i].1 = R.entries[j].1 ↔ i = j := by
  constructor
  · intro same
    exact (List.getElem?_inj (by simpa using hi) R.distinct).mp (by simp [hi, hj, same])
  · rintro rfl
    rfl

/-- Reading the next entry extends the cached part by it. -/
theorem Caching.readNext {R : Recording} {first : Nat} {p : Player} (caching : p.Caching R first)
    (inside : p.nextEntryToReadFromRecFile < R.entries.length) {recFile : InputStream}
    (data : recFile.data = R.file) :
    ({ p with recFile := recFile }.cacheEnvelope R.entries[p.nextEntryToReadFromRecFile].1
      R.entries[p.nextEntryToReadFromRecFile].2).advanceNextEntry.Caching R first where
  valid := caching.valid
  data_eq := data
  index_eq := caching.index_eq
  first_le := caching.first_le.trans (Nat.le_succ _)
  next_le := inside
  cached := by
    intro i h
    have firstLe := caching.first_le
    have before := caching.cached i h
    simp only [cacheEnvelope, advanceNextEntry, KeyValueMap.find_emplace, position_inj inside h]
    by_cases new : p.nextEntryToReadFromRecFile = i
    · subst new
      rw [if_neg (by omega)] at before
      rw [if_pos rfl, before]
      exact (if_pos ⟨firstLe, Nat.lt_succ_self _⟩).symm
    · rw [if_neg new, before]
      exact if_congr (by omega) rfl rfl

/-- The loop that fills the cache ends and adds the requested number of entries, as far as the
recording has them. -/
theorem fillEnvelopeCacheLoop_spec {R : Recording} {first max : Nat} :
    ∀ (fuel entriesRead : Nat) (p : Player), p.Caching R first → R.Opened p.recFile →
      R.entries.length - p.nextEntryToReadFromRecFile < fuel → entriesRead ≤ max →
      ∃ read p', fillEnvelopeCacheLoop uninit max fuel entriesRead p = some (read, p') ∧
        p'.Caching R first ∧ p.Filled p' ∧
        p'.nextEntryToReadFromRecFile =
          min R.entries.length (p.nextEntryToReadFromRecFile + (max - entriesRead)) := by
  intro fuel
  induction fuel with
  | zero => intro _ p _ _ enough; exact absurd enough (Nat.not_lt_zero _)
  | succ fuel ih =>
      intro entriesRead p caching opened enough hmax
      have nextLe := caching.next_le
      rw [fillEnvelopeCacheLoop]
      by_cases atEnd : p.nextEntryToReadFromRecFile = R.entries.length
      · have noEntry : p.index[p.nextEntryToReadFromRecFile]? = none := by
          rw [List.getElem?_eq_none_iff, caching.index_eq, Recording.length_index]
          omega
        rw [noEntry]
        exact ⟨_, p, rfl, caching, .refl p, by omega⟩
      · have inside : p.nextEntryToReadFromRecFile < R.entries.length := by omega
        have entry := getElem_index inside
        rw [← caching.index_eq] at entry
        rw [entry]
        by_cases wanted : entriesRead < max
        · obtain ⟨extracted, opened'⟩ := R.extractEnvelope_seekg uninit
            (List.getElem_mem inside) opened
          obtain ⟨read, p', run, caching', filled, next_eq⟩ :=
            ih (entriesRead + 1) _ (caching.readNext inside opened'.data_eq) opened'
              (by simp only [advanceNextEntry, cacheEnvelope]; omega) wanted
          simp only [if_pos wanted, extracted, if_true]
          refine ⟨read, p', run, caching', filled.of_eq ⟨rfl, rfl, rfl, rfl, rfl, rfl⟩, ?_⟩
          rw [next_eq]
          simp only [advanceNextEntry, cacheEnvelope]
          omega
        · simp only [if_neg wanted]
          exact ⟨_, p, rfl, caching, .refl p, by omega⟩

/-- **Filling the cache** ends and adds the requested number of entries, as far as the recording
has them. -/
theorem fillEnvelopeCache_spec {R : Recording} {first fuel : Nat} {p : Player}
    (caching : p.Caching R first)
    (enough : R.entries.length - p.nextEntryToReadFromRecFile < fuel) (max : Nat) :
    ∃ read p', fillEnvelopeCache uninit fuel max p = some (read, p') ∧
      p'.Caching R first ∧ p.Filled p' ∧
      p'.nextEntryToReadFromRecFile =
        min R.entries.length (p.nextEntryToReadFromRecFile + max) := by
  have nextLe := caching.next_le
  by_cases wanted : 0 < max
  · have cleared : Caching R first { p with recFile := p.recFile.clear } :=
      { caching with data_eq := caching.data_eq }
    obtain ⟨read, p', run, caching', filled, next_eq⟩ :=
      fillEnvelopeCacheLoop_spec uninit fuel 0 _ cleared ⟨caching.data_eq, rfl⟩ enough
        (Nat.zero_le max)
    refine ⟨read, p', ?_, caching', filled.of_eq ⟨rfl, rfl, rfl, rfl, rfl, rfl⟩, next_eq⟩
    simpa [fillEnvelopeCache, caching.valid, wanted] using run
  · refine ⟨0, p, ?_, caching, .refl p, by omega⟩
    simp [fillEnvelopeCache, wanted]

/-! ## The invariant of a replay -/

/-- The player is to return the given entry of the recording next, or is at its end. The cache
begins with the entry returned last. -/
structure Positioned (R : Recording) (cursor : Nat) (p : Player) : Prop where
  caching : p.Caching R (cursor - 1)
  cursor_le : cursor ≤ R.entries.length
  current_eq : p.currentEnvelopeToReplay = cursor
  previous_eq : p.previousEnvelopeAlreadyReplayed = cursor - 1
  previousPrevious_iff : p.previousPreviousEnvelopeAlreadyReplayed = R.entries.length ↔ cursor = 0

/-- The player has no background thread, and the entry it is to return next is in the cache. -/
structure Plays (R : Recording) (cursor : Nat) (p : Player) : Prop
    extends p.Positioned R cursor where
  notThreading : p.threading = false
  ahead : cursor < R.entries.length → cursor < p.nextEntryToReadFromRecFile

/-- An entry up to which the cache is filled is in the cache. -/
theorem Positioned.find_current {R : Recording} {cursor : Nat} {p : Player}
    (positioned : p.Positioned R cursor) (inside : cursor < R.entries.length)
    (filled : cursor < p.nextEntryToReadFromRecFile) :
    p.envelopeCache.find R.entries[cursor].1 = some R.entries[cursor].2 := by
  rw [positioned.caching.cached cursor inside]
  exact if_pos ⟨Nat.sub_le _ _, filled⟩

/-- Dropping the entry returned before the last one, if there is one. -/
theorem Positioned.find_dropped {R : Recording} {cursor : Nat} {p : Player}
    (positioned : p.Positioned R cursor) (inside : cursor < R.entries.length)
    {previous : Nat × Envelope.Values} (hp : previous = R.entries[cursor - 1])
    (i : Nat) (h : i < R.entries.length) :
    KeyValueMap.find
        (if p.previousPreviousEnvelopeAlreadyReplayed ≠ p.index.length then
          p.envelopeCache.erase previous.1 else p.envelopeCache) R.entries[i].1 =
      if cursor ≤ i ∧ i < p.nextEntryToReadFromRecFile then some R.entries[i].2 else none := by
  have before := positioned.caching.cached i h
  subst hp
  rw [positioned.caching.index_eq, Recording.length_index]
  by_cases atStart : cursor = 0
  · rw [if_neg (not_not.mpr (positioned.previousPrevious_iff.mpr atStart)), before]
    exact if_congr (by omega) rfl rfl
  · rw [if_pos (mt positioned.previousPrevious_iff.mp atStart), KeyValueMap.find_erase, before]
    have here := position_inj (R := R) (i := cursor - 1) (by omega) h
    by_cases same : cursor - 1 = i
    · rw [if_pos (here.mpr same), if_neg (by omega)]
    · rw [if_neg (mt here.mp same)]
      exact if_congr (by omega) rfl rfl

/-- The section under the mutex returns the current entry and drops the previous one. -/
theorem Positioned.replayCurrentEnvelope_spec {R : Recording} {cursor : Nat} {p : Player}
    (positioned : p.Positioned R cursor) (inside : cursor < R.entries.length)
    (filled : cursor < p.nextEntryToReadFromRecFile) :
    ∃ p', p.replayCurrentEnvelope = some (R.entries[cursor].2, p') ∧
      p'.Positioned R (cursor + 1) ∧ p'.threading = p.threading ∧
      p'.nextEntryToReadFromRecFile = p.nextEntryToReadFromRecFile ∧
      p'.autoRewind = p.autoRewind := by
  have caching := positioned.caching
  have present := positioned.find_current inside filled
  have current := getElem_index inside
  have previous := getElem_index (i := cursor - 1) (R := R) (by omega)
  rw [← caching.index_eq] at current previous
  have unchanged : p.envelopeCache.getOrInsert R.entries[cursor].1 Envelope.initial =
      (R.entries[cursor].2, p.envelopeCache) := by
    rw [KeyValueMap.getOrInsert, KeyValueMap.emplace_present present, present]
    rfl
  simp only [replayCurrentEnvelope, positioned.current_eq, positioned.previous_eq, current,
    previous, Option.bind_eq_bind, Option.bind_some, unchanged]
  refine ⟨_, rfl, ⟨⟨caching.valid, caching.data_eq, caching.index_eq, filled.le, caching.next_le,
    ?_⟩, inside, rfl, rfl, ?_⟩, rfl, rfl, rfl⟩
  · exact positioned.find_dropped inside rfl
  · simp only
    omega

/-- The availability check passes on a filled cache. -/
theorem check_of_find {fuel : Nat} {p : Player} {position : Nat} {e : Envelope.Values}
    (h : p.envelopeCache.find position = some e) :
    checkAvailabilityOfNextEnvelopeToBeReplayed (fuel + 1) p = some () :=
  if_neg (KeyValueMap.length_pos_of_find h).ne'

/-- The next entry is returned if it is in the cache, and the cache is filled by one more unless
a background thread does so. -/
theorem replayNextEnvelope_of_returned {R : Recording} {cursor fuel : Nat} {p p₁ : Player}
    {e : Envelope.Values} {position : Nat} (notAtEnd : p.currentEnvelopeToReplay ≠ p.index.length)
    (present : p.envelopeCache.find position = some e)
    (returned : p.replayCurrentEnvelope = some (e, p₁)) (positioned : p₁.Positioned R (cursor + 1))
    (enough : R.entries.length < fuel) :
    ∃ p', replayNextEnvelope uninit fuel p = some ((true, e), p') ∧
      p'.Positioned R (cursor + 1) ∧ p₁.Filled p' ∧
      p'.nextEntryToReadFromRecFile = if p₁.threading then p₁.nextEntryToReadFromRecFile
        else min R.entries.length (p₁.nextEntryToReadFromRecFile + 1) := by
  obtain ⟨fuel, rfl⟩ : ∃ f, fuel = f + 1 := ⟨fuel - 1, by omega⟩
  rw [replayNextEnvelope, if_pos notAtEnd, check_of_find present]
  simp only [Option.bind_eq_bind, Option.bind_some, returned]
  cases threading : p₁.threading with
  | true => exact ⟨p₁, rfl, positioned, .refl p₁, rfl⟩
  | false =>
      obtain ⟨read, p₂, run, caching₂, refilled, next₂⟩ :=
        fillEnvelopeCache_spec uninit positioned.caching ((Nat.sub_le _ _).trans_lt enough) 1
      refine ⟨p₂, ?_, ⟨caching₂, positioned.cursor_le,
        refilled.current_eq.trans positioned.current_eq,
        refilled.previous_eq.trans positioned.previous_eq, ?_⟩, refilled, next₂⟩
      · simp only [Bool.false_eq_true, if_false, run, Option.bind_some]
      · rw [refilled.previousPrevious_eq, positioned.previousPrevious_iff]

/-- Within the recording, the next entry is returned. -/
theorem replayNextEnvelope_spec {R : Recording} {cursor fuel : Nat} {p : Player}
    (plays : p.Plays R cursor) (inside : cursor < R.entries.length)
    (enough : R.entries.length < fuel) :
    ∃ p', replayNextEnvelope uninit fuel p = some ((true, R.entries[cursor].2), p') ∧
      p'.Plays R (cursor + 1) ∧ p'.autoRewind = p.autoRewind := by
  have filled := plays.ahead inside
  have notAtEnd : p.currentEnvelopeToReplay ≠ p.index.length := by
    rw [plays.current_eq, plays.caching.index_eq, Recording.length_index]
    omega
  obtain ⟨p₁, returned, positioned, threading, next, rewinds⟩ :=
    plays.replayCurrentEnvelope_spec inside filled
  have notThreading := threading.trans plays.notThreading
  obtain ⟨p₂, run, positioned₂, refilled, next₂⟩ :=
    replayNextEnvelope_of_returned uninit notAtEnd (plays.find_current inside filled) returned
      positioned enough
  rw [notThreading, if_neg Bool.false_ne_true] at next₂
  exact ⟨p₂, run, ⟨positioned₂, refilled.threading_eq.trans notThreading, fun more => by omega⟩,
    refilled.autoRewind_eq.trans rewinds⟩

theorem initialLevel_pos (entriesToReadPerSecond : BitVec 32) :
    0 < (initialLevel entriesToReadPerSecond).toNat := by
  rw [initialLevel]
  split
  · decide
  case isFalse enough =>
      have least : minEntriesForLookAhead.toNat = 5000 := rfl
      have := BitVec.le_def.mp (BitVec.not_lt.mp enough)
      omega

/-- **At the beginning of a pass** the cache is filled up to its initial level. -/
theorem computeInitialCacheLevelAndFillCache_spec {R : Recording} {fuel : Nat} {p : Player}
    (valid : p.recFileValid = true) (data : p.recFile.data = R.file) (index : p.index = R.index)
    (atEnd : R.entries.length = 0 → p.Positioned R 0) (enough : R.entries.length < fuel) :
    ∃ p', computeInitialCacheLevelAndFillCache uninit entriesPerSecond fuel p = some p' ∧
      p'.Positioned R 0 ∧ p'.threading = p.threading ∧ p'.autoRewind = p.autoRewind ∧
      p'.nextEntryToReadFromRecFile =
        min R.entries.length (initialLevel (entriesPerSecond R.index)).toNat := by
  by_cases empty : R.entries.length = 0
  · have positioned := atEnd empty
    have next := positioned.caching.next_le
    refine ⟨p, ?_, positioned, rfl, rfl, by omega⟩
    simp [computeInitialCacheLevelAndFillCache, index, empty]
  · let level := initialLevel (entriesPerSecond p.index)
    let q := ({ p with desiredInitialLevel := level }.resetCaches.resetIterators)
    have caching : q.Caching R 0 := ⟨valid, data, index, le_rfl, Nat.zero_le _,
      fun i h => (if_neg (by simp [q, resetIterators])).symm⟩
    obtain ⟨read, p', run, caching', filled, next⟩ :=
      fillEnvelopeCache_spec uninit caching ((Nat.sub_le _ _).trans_lt enough) level.toNat
    refine ⟨p', ?_, ⟨caching', Nat.zero_le _, filled.current_eq, filled.previous_eq, ?_⟩,
      filled.threading_eq, filled.autoRewind_eq, ?_⟩
    · have started : p.recFileValid && decide (0 < p.index.length) := by
        simpa [valid, index, Nat.pos_iff_ne_zero] using empty
      rw [computeInitialCacheLevelAndFillCache, if_pos started]
      simp only [Option.bind_eq_bind]
      rw [run]
      rfl
    · rw [filled.previousPrevious_eq]
      simp [q, resetIterators, resetCaches, index]
    · rw [next, ← index]
      simp only [q, resetIterators, Nat.zero_add, level]

/-- A player without a background thread replays from a filled cache. -/
theorem Positioned.plays {R : Recording} {p : Player} (positioned : p.Positioned R 0)
    (notThreading : p.threading = false) {entriesToReadPerSecond : BitVec 32}
    (next : p.nextEntryToReadFromRecFile =
      min R.entries.length (initialLevel entriesToReadPerSecond).toNat) : p.Plays R 0 := by
  refine ⟨positioned, notThreading, fun inside => ?_⟩
  have positive := initialLevel_pos entriesToReadPerSecond
  omega

/-- The constructor leaves the player at the beginning of the recording. -/
theorem construct_spec {tail : Bytes} (incomplete : IncompleteFrame tail)
    {es : List Envelope.Values} (fits : ∀ e ∈ es, FitsFrame e) {fuel : Nat}
    (enough : es.length < fuel) (autoRewind threading : Bool) :
    ∃ p, construct uninit entriesPerSecond fuel (some (serializeEnvelopes es ++ tail)) autoRewind
        threading = some p ∧
      p.Positioned (recordingOf es tail fits) 0 ∧ p.threading = threading ∧
      p.autoRewind = autoRewind ∧
      p.nextEntryToReadFromRecFile = min (recordingOf es tail fits).entries.length
        (initialLevel (entriesPerSecond (recordingOf es tail fits).index)).toNat := by
  obtain ⟨recFile, data, built⟩ :=
    initializeIndex_recordingOf uninit incomplete fits autoRewind threading
  rw [← length_recordingOf es tail fits] at enough
  rw [show serializeEnvelopes es ++ tail = (recordingOf es tail fits).file from rfl, construct,
    built]
  refine computeInitialCacheLevelAndFillCache_spec uninit entriesPerSecond rfl data rfl
    (fun empty => ⟨⟨rfl, data, rfl, Nat.zero_le _, ?_, fun i h => ?_⟩, Nat.zero_le _, ?_, ?_, ?_⟩)
    enough
  · simp
  · omega
  · simp [empty]
  · simp [empty]
  · simp

/-! ## Runs -/

/-- What the calls of `getNextEnvelopeToBeReplayed` among the operations return. -/
def run (fuel : Nat) : Player → List ReplayOp → Option (List (Bool × Envelope.Values))
  | _, [] => some []
  | p, .rewind :: ops => do
      let p' ← rewind uninit entriesPerSecond fuel p
      run fuel p' ops
  | p, .getNextEnvelopeToBeReplayed :: ops => do
      let (result, p') ← getNextEnvelopeToBeReplayed uninit entriesPerSecond fuel p
      let results ← run fuel p' ops
      some (result :: results)

/-- The envelope of a result, if the first component says that there is one. -/
def returned (result : Bool × Envelope.Values) : Option Envelope.Values :=
  if result.1 then some result.2 else none

theorem Plays.rewind_spec {R : Recording} {cursor fuel : Nat} {p : Player}
    (plays : p.Plays R cursor) (enough : R.entries.length < fuel) :
    ∃ p', rewind uninit entriesPerSecond fuel p = some p' ∧ p'.Plays R 0 ∧
      p'.autoRewind = p.autoRewind := by
  have atStart : R.entries.length = 0 → p.Positioned R 0 := by
    intro empty
    have cursorLe := plays.cursor_le
    have start : cursor = 0 := by omega
    exact start ▸ plays.toPositioned
  obtain ⟨p', run, positioned, threading, rewinds, next⟩ :=
    computeInitialCacheLevelAndFillCache_spec uninit entriesPerSecond plays.caching.valid
      plays.caching.data_eq plays.caching.index_eq atStart enough
  exact ⟨p', run, positioned.plays (threading.trans plays.notThreading) next, rewinds⟩

theorem Positioned.current_eq_length_iff {R : Recording} {cursor : Nat} {p : Player}
    (positioned : p.Positioned R cursor) :
    p.currentEnvelopeToReplay = p.index.length ↔ cursor = R.entries.length := by
  rw [positioned.current_eq, positioned.caching.index_eq, Recording.length_index]

theorem getElem_envelopes {R : Recording} {i : Nat} (h : i < R.entries.length) :
    R.envelopes[i]? = some R.entries[i].2 := by
  rw [Recording.envelopes, List.getElem?_map, List.getElem?_eq_getElem h]
  rfl

/-- A cursor at the end of the recording. -/
theorem replayNext_end (R : Recording) (autoRewind : Bool) :
    replayNext R.envelopes autoRewind R.entries.length =
      if autoRewind ∧ R.entries ≠ [] then replayNext R.envelopes autoRewind 0
      else (none, R.entries.length) := by
  have ended : R.envelopes[R.entries.length]? = none := by simp
  rcases hR : R.entries with _ | ⟨x, xs⟩
  · cases autoRewind <;> simp [replayNext, Recording.envelopes, hR]
  · rw [hR] at ended
    cases autoRewind <;> simp [replayNext, Recording.envelopes, hR]

/-- **One call returns what a cursor returns.** -/
theorem Plays.getNext_spec {R : Recording} {cursor fuel : Nat} {p : Player}
    (plays : p.Plays R cursor) (enough : R.entries.length < fuel) :
    ∃ result p', getNextEnvelopeToBeReplayed uninit entriesPerSecond fuel p = some (result, p') ∧
      returned result = (replayNext R.envelopes p.autoRewind cursor).1 ∧
      p'.Plays R (replayNext R.envelopes p.autoRewind cursor).2 ∧
      p'.autoRewind = p.autoRewind := by
  by_cases inside : cursor < R.entries.length
  · obtain ⟨p', got, plays', same⟩ := replayNextEnvelope_spec uninit plays inside enough
    have notAtEnd : ¬ p.currentEnvelopeToReplay = p.index.length := by
      rw [plays.current_eq_length_iff]
      omega
    have next : replayNext R.envelopes p.autoRewind cursor =
        (some R.entries[cursor].2, cursor + 1) := by
      rw [replayNext, getElem_envelopes inside]
    rw [next]
    refine ⟨(true, R.entries[cursor].2), p', ?_, rfl, plays', same⟩
    rw [getNextEnvelopeToBeReplayed, if_neg notAtEnd, got]
  · have atEnd : cursor = R.entries.length := by
      have := plays.cursor_le
      omega
    subst atEnd
    rw [getNextEnvelopeToBeReplayed, if_pos (plays.current_eq_length_iff.mpr rfl), replayNext_end]
    cases rewinds : p.autoRewind with
    | false => exact ⟨_, p, rfl, rfl, plays, rewinds⟩
    | true =>
        obtain ⟨p', rewound, plays', same⟩ :=
          plays.rewind_spec uninit entriesPerSecond enough
        simp only [if_true, rewound, Option.bind_eq_bind, Option.bind_some, true_and]
        by_cases nonempty : R.entries = []
        · have empty : p'.currentEnvelopeToReplay = p'.index.length :=
            plays'.current_eq_length_iff.mpr (by rw [nonempty]; rfl)
          rw [if_neg (not_not.mpr nonempty), replayNextEnvelope, if_neg (not_not.mpr empty)]
          refine ⟨_, p', rfl, rfl, ?_, same.trans rewinds⟩
          rw [nonempty]
          exact plays'
        · have inside : 0 < R.entries.length := List.length_pos_iff.mpr nonempty
          obtain ⟨p'', got, plays'', same'⟩ := replayNextEnvelope_spec uninit plays' inside enough
          rw [if_pos nonempty, replayNext, getElem_envelopes inside]
          exact ⟨_, p'', got, rfl, plays'', same'.trans (same.trans rewinds)⟩

/-- **A player is a cursor**: in every run of its operations it returns the envelopes of the
recording one after the other. -/
theorem Plays.run_eq_replay {R : Recording} {fuel : Nat} (enough : R.entries.length < fuel)
    (ops : List ReplayOp) : ∀ {cursor : Nat} {p : Player}, p.Plays R cursor →
      ∃ results, run uninit entriesPerSecond fuel p ops = some results ∧
        results.map returned = replay R.envelopes p.autoRewind cursor ops := by
  induction ops with
  | nil => intro _ p _; exact ⟨[], rfl, rfl⟩
  | cons op ops ih =>
      intro cursor p plays
      cases op with
      | rewind =>
          obtain ⟨p', rewound, plays', same⟩ :=
            plays.rewind_spec uninit entriesPerSecond enough
          obtain ⟨results, ran, eq⟩ := ih plays'
          refine ⟨results, ?_, by rw [eq, same]; rfl⟩
          simp only [run, rewound, Option.bind_eq_bind, Option.bind_some, ran]
      | getNextEnvelopeToBeReplayed =>
          obtain ⟨result, p', got, first, plays', same⟩ :=
            plays.getNext_spec uninit entriesPerSecond enough
          obtain ⟨results, ran, eq⟩ := ih plays'
          refine ⟨result :: results, ?_, ?_⟩
          · simp only [run, got, Option.bind_eq_bind, Option.bind_some, ran]
          · rw [List.map_cons, eq, first, same]
            rfl

/-- **Replay order and completeness.** For the file of any envelopes and an incomplete tail
there is an order of the envelopes, by sample time stamp and for equal ones as in the file,
such that in every run a player without a background thread returns them in this order,
pass by pass. -/
theorem construct_run {es : List Envelope.Values} (fits : ∀ e ∈ es, FitsFrame e)
    {tail : Bytes} (incomplete : IncompleteFrame tail) :
    ∃ order : List Envelope.Values,
      order.Perm es ∧
      order.Pairwise (fun a b => sampleTime a ≤ sampleTime b) ∧
      (∀ t, order.filter (fun e => decide (sampleTime e = t)) =
        es.filter (fun e => decide (sampleTime e = t))) ∧
      ∀ (autoRewind : Bool) (fuel : Nat), es.length < fuel →
        ∃ p, construct uninit entriesPerSecond fuel (some (serializeEnvelopes es ++ tail))
            autoRewind false = some p ∧
          ∀ ops, ∃ results, run uninit entriesPerSecond fuel p ops = some results ∧
            results.map returned = replay order autoRewind 0 ops := by
  refine ⟨replayOrder es, replayOrder_perm es, replayOrder_sorted es, replayOrder_filter es,
    fun autoRewind fuel enough => ?_⟩
  obtain ⟨p, constructed, positioned, notThreading, same, next⟩ :=
    construct_spec uninit entriesPerSecond incomplete fits enough autoRewind false
  refine ⟨p, constructed, fun ops => ?_⟩
  rw [← length_recordingOf es tail fits] at enough
  obtain ⟨results, ran, eq⟩ :=
    (positioned.plays notThreading next).run_eq_replay uninit entriesPerSecond enough ops
  refine ⟨results, ran, ?_⟩
  rw [eq, same, envelopes_recordingOf]

theorem construct_run_two :
    ∃ order : List Envelope.Values, order.Perm twoEnvelopes ∧
      order.Pairwise (fun a b => sampleTime a ≤ sampleTime b) ∧
      (∀ t, order.filter (fun e => decide (sampleTime e = t)) =
        twoEnvelopes.filter (fun e => decide (sampleTime e = t))) ∧
      ∀ (autoRewind : Bool) (fuel : Nat), 2 < fuel →
        ∃ p, construct (fun _ => 0) (fun _ => 1) fuel
            (some (serializeEnvelopes twoEnvelopes ++ [0x0D])) autoRewind false = some p ∧
          ∀ ops, ∃ results, run (fun _ => 0) (fun _ => 1) fuel p ops = some results ∧
            results.map returned = replay order autoRewind 0 ops :=
  construct_run (fun _ => 0) (fun _ => 1) fitsFrame_two incompleteFrame_magic

end Player

end Cluon
