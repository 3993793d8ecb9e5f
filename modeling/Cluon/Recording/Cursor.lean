import Cluon.Recording.Seeking

/-!
# Players that seek are cursors

A player without a background thread stays a cursor into its recording when it seeks: whatever it
has done before, and wherever it has been sent, it goes on with the envelopes from there to the end,
and rewinds to the beginning (`collect_eq_replaySeeking`). It is so as long as no ratio between
zero and one asks for a place before the first envelope; such a ratio moves the iterator past the
end of the index.

After seeking, the iterators are not as they are at any place in an undisturbed replay. The cache
begins with the current envelope, and not with the one before, which has never been returned.
-/

set_option autoImplicit false

namespace Cluon

open Library InputStream

/-! ## Cursors that seek -/

/-- Where a cursor is after seeking: a ratio that is none is ignored. -/
def seekTarget (n cursor : Nat) (ratio : ℚ) : Nat :=
  if 0 ≤ ratio ∧ ratio ≤ 1 then Player.seekPosition n ratio else cursor

/-- Seeking to a ratio is defined: it is ignored, or the place is not before the first envelope. -/
def SeekAllowed (n : Nat) (ratio : ℚ) : Prop :=
  0 < ratio → ratio ≤ 1 → 1 ≤ (n : ℚ) * ratio

/-- What the calls of `getNextEnvelopeToBeReplayed` among the operations return if the elements of a
list are returned one after the other. -/
def replaySeeking {α : Type} (order : List α) (autoRewind : Bool) :
    Nat → List PlayerOp → List (Option α)
  | _, [] => []
  | cursor, .getNextEnvelopeToBeReplayed :: ops =>
      (replayNext order autoRewind cursor).1 ::
        replaySeeking order autoRewind (replayNext order autoRewind cursor).2 ops
  | _, .rewind :: ops => replaySeeking order autoRewind 0 ops
  | cursor, .seekTo ratio :: ops =>
      replaySeeking order autoRewind (seekTarget order.length cursor ratio) ops

namespace Player

variable (uninit : Nat → Byte) (entriesPerSecond : Multimap Int IndexEntry → BitVec 32)

/-- `hasMoreData()`. -/
def hasMoreData (p : Player) : Bool :=
  p.recFileValid && (p.autoRewind || decide (p.currentEnvelopeToReplay ≠ p.index.length))

/-- What the calls of `getNextEnvelopeToBeReplayed` among the operations return. -/
def collect (fuel : Nat) : Player → List PlayerOp → Option (List (Bool × Envelope.Values))
  | _, [] => some []
  | p, .getNextEnvelopeToBeReplayed :: ops => do
      let (result, p') ← getNextEnvelopeToBeReplayed uninit entriesPerSecond fuel p
      let results ← collect fuel p' ops
      return result :: results
  | p, .rewind :: ops => do
      let p' ← rewind uninit entriesPerSecond fuel p
      collect fuel p' ops
  | p, .seekTo ratio :: ops => do
      let p' ← seekTo uninit entriesPerSecond fuel ratio p
      collect fuel p' ops

/-! ## The invariant -/

/-- The player is to return the given entry of the recording next, and has it in the cache: it has
returned the one before, or has just been sent there. -/
structure Follows (R : Recording) (cursor : Nat) (p : Player) : Prop where
  opened : p.OpenedOn R
  notThreading : p.threading = false
  cursor_le : cursor ≤ R.entries.length
  ahead : cursor < R.entries.length → cursor < p.nextEntryToReadFromRecFile
  place : p.Positioned R cursor ∨ p.Arrived R cursor

variable {R : Recording}

/-- At the beginning it makes no difference. -/
theorem Arrived.positioned {p : Player} (arrived : p.Arrived R 0) : p.Positioned R 0 where
  caching := arrived.caching
  cursor_le := Nat.zero_le _
  current_eq := arrived.current_eq
  previous_eq := arrived.previous_eq
  previousPrevious_iff := iff_of_true arrived.previousPrevious_eq rfl

theorem Follows.current_eq {cursor : Nat} {p : Player} (follows : p.Follows R cursor) :
    p.currentEnvelopeToReplay = cursor := by
  rcases follows.place with positioned | arrived
  · exact positioned.current_eq
  · exact arrived.current_eq

theorem Follows.current_eq_length_iff {cursor : Nat} {p : Player} (follows : p.Follows R cursor) :
    p.currentEnvelopeToReplay = p.index.length ↔ cursor = R.entries.length := by
  rw [follows.current_eq, follows.opened.index_eq, Recording.length_index]

/-- Without rewinding, there are no more data at the end. -/
theorem Follows.hasMoreData_iff {cursor : Nat} {p : Player} (follows : p.Follows R cursor)
    (rewinds : p.autoRewind = false) : p.hasMoreData = true ↔ cursor ≠ R.entries.length := by
  rw [hasMoreData, follows.opened.valid, rewinds, Bool.true_and, Bool.false_or,
    decide_eq_true_iff]
  exact not_congr follows.current_eq_length_iff

theorem Plays.follows {cursor : Nat} {p : Player} (plays : p.Plays R cursor)
    (opened : p.OpenedOn R) : p.Follows R cursor :=
  ⟨opened, plays.notThreading, plays.cursor_le, plays.ahead, .inl plays.toPositioned⟩

variable {fuel : Nat} (enough : R.entries.length < fuel)
include enough

/-- **Rewinding** leads to the beginning from everywhere. -/
theorem Follows.rewind_spec {cursor : Nat} {p : Player} (follows : p.Follows R cursor) :
    ∃ p', rewind uninit entriesPerSecond fuel p = some p' ∧ p'.Plays R 0 ∧ p'.OpenedOn R ∧
      p'.autoRewind = p.autoRewind := by
  have opened := follows.opened
  have atStart : R.entries.length = 0 → p.Positioned R 0 := by
    intro empty
    have cursorLe := follows.cursor_le
    obtain rfl : cursor = 0 := by omega
    exact follows.place.elim id Arrived.positioned
  obtain ⟨p', run, positioned, threading, rewinds, next⟩ :=
    computeInitialCacheLevelAndFillCache_spec uninit entriesPerSecond opened.valid
      opened.data_eq opened.index_eq atStart enough
  exact ⟨p', run, positioned.plays (threading.trans follows.notThreading) next,
    OpenedOn.computeInitialCacheLevelAndFillCache uninit entriesPerSecond opened.valid
      opened.data_eq opened.index_eq run, rewinds⟩

/-- Within the recording, the entry at the cursor is returned. -/
theorem Follows.replayNextEnvelope_spec {cursor : Nat} {p : Player} (follows : p.Follows R cursor)
    (inside : cursor < R.entries.length) :
    ∃ p', replayNextEnvelope uninit fuel p = some ((true, R.entries[cursor].2), p') ∧
      p'.Plays R (cursor + 1) ∧ p'.autoRewind = p.autoRewind := by
  have filled := follows.ahead inside
  rcases follows.place with positioned | arrived
  · exact Player.replayNextEnvelope_spec uninit ⟨positioned, follows.notThreading, follows.ahead⟩
      inside enough
  · have notAtEnd : p.currentEnvelopeToReplay ≠ p.index.length :=
      fun atEnd => inside.ne (follows.current_eq_length_iff.mp atEnd)
    obtain ⟨p₁, returned, positioned, threading, next⟩ :=
      arrived.replayCurrentEnvelope_spec inside filled
    obtain ⟨p₂, run, positioned₂, refilled, next₂⟩ :=
      replayNextEnvelope_of_returned uninit notAtEnd (arrived.find_current inside filled) returned
        positioned enough
    have notThreading := threading.trans follows.notThreading
    rw [notThreading, if_neg Bool.false_ne_true] at next₂
    have rewinds : p₁.autoRewind = p.autoRewind := by
      rw [replayCurrentEnvelope] at returned
      simp only [Option.bind_eq_bind, Option.bind_eq_some_iff, Option.some.injEq,
        Prod.mk.injEq] at returned
      obtain ⟨_, _, _, _, _, rfl⟩ := returned
      rfl
    exact ⟨p₂, run, ⟨positioned₂, refilled.threading_eq.trans notThreading, fun more => by omega⟩,
      refilled.autoRewind_eq.trans rewinds⟩

/-- **One call returns what a cursor returns**, wherever the player has been sent. -/
theorem Follows.getNext_spec {cursor : Nat} {p : Player} (follows : p.Follows R cursor) :
    ∃ result p', getNextEnvelopeToBeReplayed uninit entriesPerSecond fuel p = some (result, p') ∧
      returned result = (replayNext R.envelopes p.autoRewind cursor).1 ∧
      p'.Follows R (replayNext R.envelopes p.autoRewind cursor).2 ∧
      p'.autoRewind = p.autoRewind := by
  have opens {result : Bool × Envelope.Values} {p' : Player}
      (got : getNextEnvelopeToBeReplayed uninit entriesPerSecond fuel p = some (result, p')) :
      p'.OpenedOn R := follows.opened.getNextEnvelopeToBeReplayed uninit entriesPerSecond got
  by_cases inside : cursor < R.entries.length
  · obtain ⟨p', got, plays, same⟩ := follows.replayNextEnvelope_spec uninit enough inside
    have notAtEnd : ¬ p.currentEnvelopeToReplay = p.index.length :=
      fun atEnd => inside.ne (follows.current_eq_length_iff.mp atEnd)
    have got : getNextEnvelopeToBeReplayed uninit entriesPerSecond fuel p = _ :=
      (if_neg notAtEnd).trans got
    have next : replayNext R.envelopes p.autoRewind cursor =
        (some R.entries[cursor].2, cursor + 1) := by
      rw [replayNext, getElem_envelopes inside]
    rw [next]
    exact ⟨_, p', got, rfl, plays.follows (opens got), same⟩
  · obtain rfl : cursor = R.entries.length := by
      have cursorLe := follows.cursor_le
      omega
    have atEnd := follows.current_eq_length_iff.mpr rfl
    rw [replayNext_end]
    cases rewinds : p.autoRewind with
    | false =>
        have got : getNextEnvelopeToBeReplayed uninit entriesPerSecond fuel p =
            some ((false, Envelope.initial), p) := by
          rw [getNextEnvelopeToBeReplayed, if_pos atEnd, rewinds]
          rfl
        exact ⟨_, p, got, rfl, follows, rewinds⟩
    | true =>
        obtain ⟨p₁, rewound, plays, opened, same⟩ :=
          follows.rewind_spec uninit entriesPerSecond enough
        have calls : getNextEnvelopeToBeReplayed uninit entriesPerSecond fuel p =
            replayNextEnvelope uninit fuel p₁ := by
          rw [getNextEnvelopeToBeReplayed, if_pos atEnd, rewinds, rewound]
          rfl
        by_cases nonempty : R.entries = []
        · have empty : p₁.currentEnvelopeToReplay = p₁.index.length :=
            plays.current_eq_length_iff.mpr (by rw [nonempty]; rfl)
          have got : getNextEnvelopeToBeReplayed uninit entriesPerSecond fuel p =
              some ((false, Envelope.initial), p₁) := by
            rw [calls, replayNextEnvelope, if_neg (not_not.mpr empty)]
          rw [if_neg (by simp [nonempty])]
          refine ⟨_, p₁, got, rfl, ?_, same.trans rewinds⟩
          rw [nonempty]
          exact plays.follows opened
        · have inside : 0 < R.entries.length := List.length_pos_iff.mpr nonempty
          obtain ⟨p₂, ran, plays₂, same₂⟩ :=
            Player.replayNextEnvelope_spec uninit plays inside enough
          have got := calls.trans ran
          rw [if_pos ⟨rfl, nonempty⟩, replayNext, getElem_envelopes inside]
          exact ⟨_, p₂, got, rfl, plays₂.follows (opens got), same₂.trans (same.trans rewinds)⟩

/-! ## Seeking -/

/-- What `seekTo` does before an envelope is returned. -/
theorem Follows.seekTo_eq {cursor rounds : Nat} {p : Player} (follows : p.Follows R cursor)
    {ratio : ℚ} (h₀ : 0 ≤ ratio) (h₁ : ratio ≤ 1)
    (bound : rounds = if 0 < ratio then seekBound R.entries.length ratio else 0)
    (inside : rounds ≤ R.entries.length) :
    ∃ p', p'.Follows R rounds ∧ p'.autoRewind = p.autoRewind ∧
      seekTo uninit entriesPerSecond fuel ratio p =
        (correctIterators uninit entriesPerSecond fuel ratio p').map fun p₃ =>
          { p₃ with threading := false } := by
  have moved := moveTo_spec follows.opened bound
  rw [if_pos inside] at moved
  obtain ⟨p₁, moved, opened₁, current, previousPrevious, notThreading, rewinds₁⟩ := moved
  obtain ⟨p₂, refilled, arrived, threading, rewinds₂, ahead⟩ :=
    refillFromCurrent_spec uninit opened₁ current inside previousPrevious enough
  have opened₂ : p₂.OpenedOn R := by
    obtain ⟨⟨read, filled⟩, ran, rfl⟩ := Option.map_eq_some_iff.mp refilled
    refine OpenedOn.fillEnvelopeCache uninit ?_ ran
    exact ⟨opened₁.valid, opened₁.data_eq, opened₁.index_eq, opened₁.level⟩
  refine ⟨p₂, ⟨opened₂, threading.trans notThreading, inside, ahead, .inr arrived⟩,
    rewinds₂.trans rewinds₁, ?_⟩
  rw [seekTo, if_pos ⟨not_lt.mpr h₀, not_lt.mpr h₁⟩, moved]
  simp only [Option.bind_eq_bind, Option.bind_some, refilled, follows.notThreading]
  cases correctIterators uninit entriesPerSecond fuel ratio p₂ <;> rfl

omit enough in
/-- The background thread is not started again if there was none. -/
theorem Follows.notStarted {cursor : Nat} {p : Player} (follows : p.Follows R cursor) :
    { p with threading := false } = p := by
  rw [← follows.notThreading]

/-- **Seeking leads to the place that the ratio stands for**, if it is allowed. -/
theorem Follows.seekTo_spec {cursor : Nat} {p : Player} (follows : p.Follows R cursor)
    (small : R.entries.length < 2 ^ 32) {ratio : ℚ}
    (allowed : SeekAllowed R.entries.length ratio) :
    ∃ p', seekTo uninit entriesPerSecond fuel ratio p = some p' ∧
      p'.Follows R (seekTarget R.entries.length cursor ratio) ∧ p'.autoRewind = p.autoRewind := by
  by_cases between : 0 ≤ ratio ∧ ratio ≤ 1
  · obtain ⟨h₀, h₁⟩ := between
    rw [seekTarget, if_pos ⟨h₀, h₁⟩]
    rcases h₀.eq_or_lt with rfl | positive
    · obtain ⟨p', follows', rewinds, sought⟩ := follows.seekTo_eq uninit entriesPerSecond enough
        le_rfl h₁ (if_neg (lt_irrefl _)).symm (Nat.zero_le _)
      rw [correctIterators, if_neg (by simp)] at sought
      refine ⟨p', sought.trans (congrArg some follows'.notStarted), ?_, rewinds⟩
      have start : seekPosition R.entries.length 0 = 0 := by simp [seekPosition]
      rwa [start]
    · have defined : SeekDefined R.entries.length ratio :=
        .inr (.inl ⟨small, allowed positive h₁⟩)
      have inside : seekBound R.entries.length ratio < R.entries.length :=
        Nat.lt_of_not_le fun past => not_seekDefined_of_le positive h₁ past defined
      have reached := (reached_eq_seekPosition_iff positive h₁ inside).mpr defined
      obtain ⟨p₂, follows₂, rewinds, sought⟩ := follows.seekTo_eq uninit entriesPerSecond enough
        h₀ h₁ (if_pos positive).symm inside.le
      by_cases less : ratio < 1
      · rw [if_pos less] at reached
        obtain ⟨result, p₃, got, -, follows₃, rewinds₃⟩ :=
          follows₂.getNext_spec uninit entriesPerSecond enough
        rw [replayNext, getElem_envelopes inside, reached] at follows₃
        rw [correctIterators, if_pos ⟨positive, less⟩, got] at sought
        exact ⟨p₃, sought.trans (congrArg some follows₃.notStarted), follows₃,
          rewinds₃.trans rewinds⟩
      · rw [if_neg less] at reached
        rw [correctIterators, if_neg fun both => less both.2] at sought
        exact ⟨p₂, sought.trans (congrArg some follows₂.notStarted), reached ▸ follows₂, rewinds⟩
  · refine ⟨p, ?_, ?_, rfl⟩
    · rw [seekTo, if_neg]
      rwa [not_lt, gt_iff_lt, not_lt]
    · rwa [seekTarget, if_neg between]

omit enough in
/-- A ratio that is not allowed moves the iterator past the end. -/
theorem Follows.seekTo_none {cursor : Nat} {p : Player} (follows : p.Follows R cursor)
    (small : R.entries.length < 2 ^ 32 - 1) {ratio : ℚ}
    (notAllowed : ¬ SeekAllowed R.entries.length ratio) :
    seekTo uninit entriesPerSecond fuel ratio p = none := by
  simp only [SeekAllowed, not_forall, not_le] at notAllowed
  obtain ⟨positive, h₁, less⟩ := notAllowed
  refine Player.seekTo_none uninit entriesPerSecond follows.opened positive h₁ ?_
  have bound := seekBound_eq (n := R.entries.length) positive.le h₁
  rw [Nat.mod_eq_of_lt (by omega), if_pos ((mul_lt_one_iff _ positive.le h₁).mp less)] at bound
  omega

/-! ## Runs -/

/-- **A player that seeks is a cursor**, in every run in which it may seek. -/
theorem Follows.collect_eq (small : R.entries.length < 2 ^ 32) (ops : List PlayerOp) :
    (∀ ratio, .seekTo ratio ∈ ops → SeekAllowed R.entries.length ratio) →
      ∀ {cursor : Nat} {p : Player}, p.Follows R cursor →
        ∃ results, collect uninit entriesPerSecond fuel p ops = some results ∧
          results.map returned = replaySeeking R.envelopes p.autoRewind cursor ops := by
  induction ops with
  | nil => intro _ _ _ _; exact ⟨[], rfl, rfl⟩
  | cons op ops ih =>
      intro allowed cursor p follows
      have later ratio (mem : .seekTo ratio ∈ ops) := allowed ratio (List.mem_cons_of_mem _ mem)
      cases op with
      | getNextEnvelopeToBeReplayed =>
          obtain ⟨result, p', got, first, follows', same⟩ :=
            follows.getNext_spec uninit entriesPerSecond enough
          obtain ⟨results, ran, eq⟩ := ih later follows'
          refine ⟨result :: results, ?_, ?_⟩
          · simp only [collect, got, Option.bind_eq_bind, Option.bind_some, ran]
            rfl
          · rw [List.map_cons, eq, first, same]
            rfl
      | rewind =>
          obtain ⟨p', rewound, plays, opened, same⟩ :=
            follows.rewind_spec uninit entriesPerSecond enough
          obtain ⟨results, ran, eq⟩ := ih later (plays.follows opened)
          refine ⟨results, ?_, by rw [eq, same]; rfl⟩
          simp only [collect, rewound, Option.bind_eq_bind, Option.bind_some, ran]
      | seekTo ratio =>
          obtain ⟨p', sought, follows', same⟩ := follows.seekTo_spec uninit entriesPerSecond enough
            small (allowed ratio List.mem_cons_self)
          obtain ⟨results, ran, eq⟩ := ih later follows'
          refine ⟨results, ?_, ?_⟩
          · simp only [collect, sought, Option.bind_eq_bind, Option.bind_some, ran]
          · rw [eq, same, replaySeeking, Recording.length_envelopes]

/-- A run in which a ratio is not allowed is undefined. -/
theorem Follows.collect_none (small : R.entries.length < 2 ^ 32 - 1) (ops : List PlayerOp) :
    (¬ ∀ ratio, .seekTo ratio ∈ ops → SeekAllowed R.entries.length ratio) →
      ∀ {cursor : Nat} {p : Player}, p.Follows R cursor →
        collect uninit entriesPerSecond fuel p ops = none := by
  induction ops with
  | nil => intro notAllowed; exact absurd (fun _ mem => nomatch mem) notAllowed
  | cons op ops ih =>
      intro notAllowed cursor p follows
      cases op with
      | getNextEnvelopeToBeReplayed =>
          obtain ⟨result, p', got, -, follows', -⟩ :=
            follows.getNext_spec uninit entriesPerSecond enough
          have never := ih (fun later => notAllowed fun ratio mem =>
            later ratio (by simpa using mem)) follows'
          simp only [collect, got, Option.bind_eq_bind, Option.bind_some, never, Option.bind_none]
      | rewind =>
          obtain ⟨p', rewound, plays, opened, -⟩ :=
            follows.rewind_spec uninit entriesPerSecond enough
          have never := ih (fun later => notAllowed fun ratio mem =>
            later ratio (by simpa using mem)) (plays.follows opened)
          simp only [collect, rewound, Option.bind_eq_bind, Option.bind_some, never]
      | seekTo ratio =>
          by_cases allowed : SeekAllowed R.entries.length ratio
          · obtain ⟨p', sought, follows', -⟩ := follows.seekTo_spec uninit entriesPerSecond enough
              (by omega) allowed
            have never := ih (fun later => notAllowed fun ratio' mem => by
              rcases List.mem_cons.mp mem with same | mem
              · obtain rfl := PlayerOp.seekTo.inj same
                exact allowed
              · exact later ratio' mem) follows'
            simp only [collect, sought, Option.bind_eq_bind, Option.bind_some, never]
          · simp only [collect, follows.seekTo_none uninit entriesPerSecond small allowed,
              Option.bind_eq_bind, Option.bind_none]

end Player

/-- The constructor leaves a player at the beginning of the recording. -/
theorem Player.follows_of_construct (uninit : Nat → Byte)
    (entriesPerSecond : Multimap Int IndexEntry → BitVec 32) {es : List Envelope.Values}
    (fits : ∀ e ∈ es, FitsFrame e) {tail : Bytes} (incomplete : IncompleteFrame tail) {fuel : Nat}
    (enough : es.length < fuel) (autoRewind : Bool) :
    ∃ p, construct uninit entriesPerSecond fuel (some (serializeEnvelopes es ++ tail)) autoRewind
        false = some p ∧ p.Follows (recordingOf es tail fits) 0 ∧ p.autoRewind = autoRewind := by
  obtain ⟨p, constructed, positioned, notThreading, same, next⟩ :=
    construct_spec uninit entriesPerSecond incomplete fits enough autoRewind false
  exact ⟨p, constructed, (positioned.plays notThreading next).follows
    (openedOn_of_construct fits incomplete constructed), same⟩

/-- **Replay with seeking.** A player without a background thread on the file of any envelopes and
an incomplete tail returns, in every run of calls, seeks, and rewinds, what a cursor into the
envelopes in the order of their sample time stamps returns; exactly if no ratio in the run stands
for a place before the first envelope. -/
theorem collect_eq_replaySeeking (uninit : Nat → Byte)
    (entriesPerSecond : Multimap Int IndexEntry → BitVec 32) {es : List Envelope.Values}
    (fits : ∀ e ∈ es, FitsFrame e) (small : es.length < 2 ^ 32 - 1) {tail : Bytes}
    (incomplete : IncompleteFrame tail) {fuel : Nat} (enough : es.length < fuel)
    (autoRewind : Bool) :
    ∃ p, Player.construct uninit entriesPerSecond fuel (some (serializeEnvelopes es ++ tail))
        autoRewind false = some p ∧
      ∀ ops, (∃ results, p.collect uninit entriesPerSecond fuel ops = some results ∧
          results.map Player.returned = replaySeeking (replayOrder es) autoRewind 0 ops) ↔
        ∀ ratio, .seekTo ratio ∈ ops → SeekAllowed es.length ratio := by
  obtain ⟨p, constructed, follows, same⟩ := Player.follows_of_construct uninit entriesPerSecond
    fits incomplete enough autoRewind
  refine ⟨p, constructed, fun ops => ?_⟩
  rw [← length_recordingOf es tail fits] at small enough ⊢
  rw [← envelopes_recordingOf es tail fits, ← same]
  constructor
  · rintro ⟨results, ran, -⟩
    by_contra notAllowed
    rw [follows.collect_none uninit entriesPerSecond enough small ops notAllowed] at ran
    cases ran
  · intro allowed
    exact follows.collect_eq uninit entriesPerSecond enough (by omega) ops allowed

theorem collect_eq_replaySeeking_two :
    let es := [Envelope.initial, sampledLate]
    let ops : List PlayerOp := [.getNextEnvelopeToBeReplayed, .getNextEnvelopeToBeReplayed,
      .seekTo (1 / 2), .getNextEnvelopeToBeReplayed, .seekTo 2, .rewind]
    ∃ p, Player.construct (fun _ => 0) (fun _ => 1) 3 (some (serializeEnvelopes es ++ [0x0D])) false
        false = some p ∧
      ((∃ results, p.collect (fun _ => 0) (fun _ => 1) 3 ops = some results ∧
          results.map Player.returned = replaySeeking (replayOrder es) false 0 ops) ↔
        ∀ ratio, .seekTo ratio ∈ ops → SeekAllowed 2 ratio) := by
  intro es ops
  obtain ⟨p, constructed, returns⟩ := collect_eq_replaySeeking (fun _ => 0) (fun _ => 1)
    fitsFrame_late (by norm_num) incompleteFrame_magic (Nat.lt_succ_self 2) false
  exact ⟨p, constructed, returns ops⟩

end Cluon
