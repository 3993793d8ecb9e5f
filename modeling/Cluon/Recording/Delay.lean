import Cluon.Recording.BackgroundFilling

/-!
# The delays of a replay

Together with an envelope a player computes the time that has passed between the sample time
stamps of this and of the previous envelope of the same pass, and `delay()` reports it, but at
most a second. The difference is converted to 32 bits before it is compared with the maximum.
So the reported delay is right exactly if the difference is less than 2^32 microseconds, or what
is left of it in 32 bits is still a second or more (`delay_reports_iff`). This holds of a player
with and without a background thread: what they have in common is how the results of the calls
so far determine the place of the player in the recording (`PassLog`).
-/

set_option autoImplicit false

namespace Cluon

open Library InputStream TransitionSystem

/-! ## What is to be reported -/

/-- The delay to be reported behind the last of the given results, where a pass has `n`
envelopes: none at the beginning of a pass, and otherwise the time that has passed since the
envelope before, but at most a second. -/
def passDelay (n : Nat) (results : List (Bool × Envelope.Values)) : Int :=
  if (results.length - 1) % n = 0 then 0
  else
    match results.reverse with
    | (_, e) :: (_, e') :: _ => min (sampleTime e - sampleTime e') 1000000
    | _ => 0

/-- The time between an envelope and the one before it survives the conversion to 32 bits, or
remains a second or more. -/
def GapFits (order : List Envelope.Values) (i : Nat) : Prop :=
  ∀ e e', 0 < i → order[i]? = some e → order[i - 1]? = some e' →
    sampleTime e - sampleTime e' < 2 ^ 32 ∨
      1000000 ≤ (sampleTime e - sampleTime e') % 2 ^ 32

namespace Player

/-- `MAX_DELAY_IN_MICROSECONDS`. -/
def maxDelayInMicroseconds : BitVec 32 := 1000000

/-- `delay()`. -/
def reportedDelay (p : Player) : BitVec 32 :=
  if maxDelayInMicroseconds < p.delay then maxDelayInMicroseconds else p.delay

/-- Clamping a difference that was converted to 32 bits. -/
theorem reportedDelay_ofInt {p : Player} {gap : Int} (h : p.delay = BitVec.ofInt 32 gap)
    (nonneg : 0 ≤ gap) :
    (p.reportedDelay.toNat : Int) = min gap 1000000 ↔
      gap < 2 ^ 32 ∨ 1000000 ≤ gap % 2 ^ 32 := by
  have maximum : maxDelayInMicroseconds.toNat = 1000000 := rfl
  have converted : (p.delay.toNat : Int) = gap % 2 ^ 32 := by
    rw [h, BitVec.toNat_ofInt]
    omega
  rw [reportedDelay]
  split
  case isTrue greater =>
      rw [BitVec.lt_def, maximum] at greater
      rw [maximum]
      omega
  case isFalse notGreater =>
      rw [BitVec.lt_def, maximum] at notGreater
      omega

theorem reportedDelay_zero {p : Player} (h : p.delay = BitVec.ofInt 32 0) :
    (p.reportedDelay.toNat : Int) = 0 := by
  have fits := (reportedDelay_ofInt h le_rfl).mpr (.inl (by decide))
  simpa using fits

end Player

/-! ## The place of a player in the recording -/

/-- Where a player is in the order of the envelopes after the given results: the envelope to be
returned next, and the one before it. -/
structure PassLog (order : List Envelope.Values) (autoRewind : Bool)
    (results : List (Bool × Envelope.Values)) (current previous : Nat) : Prop where
  current_le : current ≤ order.length
  previous_eq : previous = current - 1
  counted : current < order.length → results.length % order.length = current
  counted_end : 0 < order.length → current = order.length → autoRewind = true →
    results.length % order.length = 0
  last : ∀ i, current = i + 1 → current < order.length →
    ∃ e, order[i]? = some e ∧ results.getLast? = some (true, e)

/-- The delay computed with the last result, if that is an envelope. -/
def Delayed (order : List Envelope.Values) (results : List (Bool × Envelope.Values))
    (delay : BitVec 32) : Prop :=
  ∀ e, results.getLast? = some (true, e) →
    ∃ e', order[(results.length - 1) % order.length]? = some e ∧
      order[(results.length - 1) % order.length - 1]? = some e' ∧
      delay = BitVec.ofInt 32 (sampleTime e - sampleTime e') ∧
      (0 < (results.length - 1) % order.length →
        ∃ before, results = before ++ [(true, e'), (true, e)])

namespace PassLog

variable {order : List Envelope.Values} {autoRewind : Bool}
  {results : List (Bool × Envelope.Values)} {current previous : Nat}

theorem start (order : List Envelope.Values) (autoRewind : Bool) :
    PassLog order autoRewind [] 0 0 where
  current_le := Nat.zero_le _
  previous_eq := rfl
  counted _ := Nat.zero_mod _
  counted_end _ _ _ := Nat.zero_mod _
  last i h _ := absurd h (Nat.succ_ne_zero i).symm

/-- The current envelope is returned. -/
theorem returned (log : PassLog order autoRewind results current previous) {e : Envelope.Values}
    (here : order[current]? = some e) :
    PassLog order autoRewind (results ++ [(true, e)]) (current + 1) current := by
  obtain ⟨inside, _⟩ := List.getElem?_eq_some_iff.mp here
  have counted := log.counted inside
  refine ⟨inside, rfl, fun more => ?_, fun _ atEnd _ => ?_, fun i h _ => ?_⟩
  · rw [List.length_append, List.length_singleton, Nat.add_mod, counted,
      Nat.mod_eq_of_lt (by omega : 1 < order.length), Nat.mod_eq_of_lt more]
  · by_cases one : order.length = 1
    · rw [one, Nat.mod_one]
    · rw [List.length_append, List.length_singleton, Nat.add_mod, counted,
        Nat.mod_eq_of_lt (by omega : 1 < order.length), atEnd, Nat.mod_self]
  · obtain rfl : current = i := by omega
    exact ⟨e, here, by simp⟩

/-- The next pass begins. -/
theorem rewound (log : PassLog order autoRewind results current previous)
    (nonempty : 0 < order.length) (atEnd : current = order.length) (rewinds : autoRewind = true) :
    PassLog order autoRewind results 0 0 where
  current_le := Nat.zero_le _
  previous_eq := rfl
  counted _ := log.counted_end nonempty atEnd rewinds
  counted_end _ _ _ := log.counted_end nonempty atEnd rewinds
  last i h _ := absurd h (Nat.succ_ne_zero i).symm

/-- Nothing is returned at the end. -/
theorem failed (log : PassLog order autoRewind results current previous)
    (atEnd : current = order.length) (stays : autoRewind = false ∨ order.length = 0)
    (result : Bool × Envelope.Values) :
    PassLog order autoRewind (results ++ [result]) current previous where
  current_le := log.current_le
  previous_eq := log.previous_eq
  counted inside := absurd atEnd inside.ne
  counted_end nonempty _ rewinds := by
    rcases stays with stays | empty
    · rw [stays] at rewinds
      cases rewinds
    · omega
  last _ _ inside := absurd atEnd inside.ne

/-- The delay computed with the current envelope. -/
theorem delayed (log : PassLog order autoRewind results current previous) {e e' : Envelope.Values}
    (here : order[current]? = some e) (before : order[previous]? = some e') :
    Delayed order (results ++ [(true, e)])
      (BitVec.ofInt 32 (sampleTime e - sampleTime e')) := by
  obtain ⟨inside, _⟩ := List.getElem?_eq_some_iff.mp here
  have counted := log.counted inside
  intro e₁ last
  obtain rfl : e = e₁ := by simpa using last
  have place : ((results ++ [(true, e)]).length - 1) % order.length = current := by
    rw [List.length_append, List.length_singleton, Nat.add_sub_cancel]
    exact counted
  rw [place]
  refine ⟨e', here, log.previous_eq ▸ before, rfl, fun positive => ?_⟩
  obtain ⟨i, rfl⟩ : ∃ i, current = i + 1 := ⟨current - 1, by omega⟩
  obtain ⟨e₀, there, ended⟩ := log.last i rfl inside
  rw [log.previous_eq, Nat.add_sub_cancel, there, Option.some.injEq] at before
  subst before
  obtain ⟨earlier, split⟩ := List.getLast?_eq_some_iff.mp ended
  exact ⟨earlier, by rw [split, List.append_assoc]; rfl⟩

end PassLog

/-- **The reported delay is right** exactly if the time between the last two envelopes fits. -/
theorem Delayed.reported_iff {order : List Envelope.Values}
    (sorted : order.Pairwise fun a b => sampleTime a ≤ sampleTime b)
    {results : List (Bool × Envelope.Values)} {p : Player}
    (delayed : Delayed order results p.delay) {e : Envelope.Values}
    (last : results.getLast? = some (true, e)) :
    (p.reportedDelay.toNat : Int) = passDelay order.length results ↔
      GapFits order ((results.length - 1) % order.length) := by
  obtain ⟨e', here, there, delay, split⟩ := delayed e last
  by_cases first : (results.length - 1) % order.length = 0
  · rw [first] at here there
    obtain rfl : e = e' := Option.some.inj (here.symm.trans there)
    have none : p.delay = BitVec.ofInt 32 0 := by rw [delay, Int.sub_self]
    rw [passDelay, if_pos first, first]
    exact iff_of_true (Player.reportedDelay_zero none) fun _ _ positive =>
      absurd positive (Nat.lt_irrefl 0)
  · have positive : 0 < (results.length - 1) % order.length := Nat.pos_of_ne_zero first
    obtain ⟨before, results_eq⟩ := split positive
    have passed : passDelay order.length results =
        min (sampleTime e - sampleTime e') 1000000 := by
      rw [passDelay, if_neg first, results_eq]
      simp
    have nonneg : 0 ≤ sampleTime e - sampleTime e' := by
      obtain ⟨inside, rfl⟩ := List.getElem?_eq_some_iff.mp here
      obtain ⟨inside', rfl⟩ := List.getElem?_eq_some_iff.mp there
      have le := List.pairwise_iff_getElem.mp sorted _ _ inside' inside (by omega)
      omega
    rw [passed, Player.reportedDelay_ofInt delay nonneg]
    constructor
    · intro fits e₁ e₂ _ here' there'
      obtain rfl := Option.some.inj (here.symm.trans here')
      obtain rfl := Option.some.inj (there.symm.trans there')
      exact fits
    · intro fits
      exact fits e e' positive here there

/-! ## What the operations do with the delay -/

namespace Player

variable (uninit : Nat → Byte) (entriesPerSecond : Multimap Int IndexEntry → BitVec 32)

/-- What the section under the mutex does to the iterators and the delay. -/
theorem replayCurrentEnvelope_cases {p p' : Player} {e : Envelope.Values}
    (h : p.replayCurrentEnvelope = some (e, p')) :
    ∃ current previous, p.index[p.currentEnvelopeToReplay]? = some current ∧
      p.index[p.previousEnvelopeAlreadyReplayed]? = some previous ∧
      p'.delay = BitVec.ofInt 32 (current.1 - previous.1) ∧
      p'.currentEnvelopeToReplay = p.currentEnvelopeToReplay + 1 ∧
      p'.previousEnvelopeAlreadyReplayed = p.currentEnvelopeToReplay := by
  simp only [replayCurrentEnvelope, Option.bind_eq_bind, Option.bind_eq_some_iff,
    Option.some.injEq, Prod.mk.injEq] at h
  obtain ⟨current, here, previous, there, -, rfl⟩ := h
  exact ⟨current, previous, here, there, rfl, rfl, rfl⟩

/-- An entry of the index has the stamp of the envelope in its place. -/
theorem time_of_index {R : Recording} {i : Nat} {entry : Int × IndexEntry}
    (h : R.index[i]? = some entry) :
    ∃ e, R.envelopes[i]? = some e ∧ entry.1 = sampleTime e := by
  obtain ⟨inside, _⟩ := List.getElem?_eq_some_iff.mp h
  rw [Recording.length_index] at inside
  rw [getElem_index inside, Option.some.injEq] at h
  exact ⟨_, getElem_envelopes inside, h ▸ rfl⟩

/-- Returning the next entry computes its delay. -/
theorem replayNextEnvelope_delay {R : Recording} {cursor fuel : Nat} {p : Player}
    (plays : p.Plays R cursor) (inside : cursor < R.entries.length)
    (enough : R.entries.length < fuel) :
    ∃ p', replayNextEnvelope uninit fuel p = some ((true, R.entries[cursor].2), p') ∧
      p'.Plays R (cursor + 1) ∧ p'.autoRewind = p.autoRewind ∧
      ∃ e', R.envelopes[cursor - 1]? = some e' ∧
        p'.delay = BitVec.ofInt 32 (sampleTime R.entries[cursor].2 - sampleTime e') := by
  obtain ⟨p', ran, plays', rewinds⟩ := replayNextEnvelope_spec uninit plays inside enough
  refine ⟨p', ran, plays', rewinds, ?_⟩
  obtain ⟨p₁, returned, _, threading, _⟩ :=
    plays.replayCurrentEnvelope_spec inside (plays.ahead inside)
  obtain ⟨current, previous, here, there, delay, _, _⟩ := replayCurrentEnvelope_cases returned
  rw [plays.caching.index_eq, plays.current_eq, getElem_index inside, Option.some.injEq] at here
  rw [plays.caching.index_eq, plays.previous_eq] at there
  obtain ⟨e', before, time⟩ := time_of_index there
  have kept : p'.delay = p₁.delay := by
    have notThreading : p₁.threading = false := threading.trans plays.notThreading
    rw [replayNextEnvelope] at ran
    split at ran
    case isFalse => cases Option.some.inj ran
    case isTrue =>
        simp only [returned, Option.bind_eq_bind, Option.bind_some, notThreading,
          Bool.false_eq_true, if_false, Option.bind_eq_some_iff, Option.some.injEq,
          Prod.mk.injEq] at ran
        obtain ⟨-, -, ⟨read, p₂⟩, filled, -, rfl⟩ := ran
        exact (filled_of_fillEnvelopeCache uninit filled).delay_eq
  exact ⟨e', before, by rw [kept, delay, ← here, time]⟩

/-! ## Players without a background thread -/

/-- The results of the given number of calls of `getNextEnvelopeToBeReplayed`, and the player
behind them. -/
def calls (fuel : Nat) : Nat → Player → Option (List (Bool × Envelope.Values) × Player)
  | 0, p => some ([], p)
  | n + 1, p => do
      let (results, p') ← calls fuel n p
      let (result, p'') ← getNextEnvelopeToBeReplayed uninit entriesPerSecond fuel p'
      some (results ++ [result], p'')

/-- What holds behind every call. -/
structure Reports (R : Recording) (autoRewind : Bool) (results : List (Bool × Envelope.Values))
    (p : Player) : Prop where
  plays : ∃ cursor, p.Plays R cursor
  rewinds : p.autoRewind = autoRewind
  log : PassLog R.envelopes autoRewind results p.currentEnvelopeToReplay
    p.previousEnvelopeAlreadyReplayed
  delayed : Delayed R.envelopes results p.delay

/-- The next entry is returned and its delay computed. -/
theorem Reports.replayNext {R : Recording} {autoRewind : Bool}
    {results : List (Bool × Envelope.Values)} {fuel cursor : Nat} {p : Player}
    (plays : p.Plays R cursor) (rewinds : p.autoRewind = autoRewind)
    (log : PassLog R.envelopes autoRewind results p.currentEnvelopeToReplay
      p.previousEnvelopeAlreadyReplayed)
    (inside : cursor < R.entries.length) (enough : R.entries.length < fuel) :
    ∃ e p', replayNextEnvelope uninit fuel p = some ((true, e), p') ∧
      Reports R autoRewind (results ++ [(true, e)]) p' := by
  obtain ⟨p', ran, plays', rewinds', e', before, delay⟩ :=
    replayNextEnvelope_delay uninit plays inside enough
  rw [plays.current_eq, plays.previous_eq] at log
  have here := getElem_envelopes inside
  refine ⟨_, p', ran, ⟨_, plays'⟩, rewinds'.trans rewinds, ?_, ?_⟩
  · rw [plays'.current_eq, plays'.previous_eq, Nat.add_sub_cancel]
    exact log.returned here
  · rw [delay]
    exact log.delayed here before

/-- **Every call keeps the log and computes its delay.** -/
theorem Reports.getNext {R : Recording} {autoRewind : Bool}
    {results : List (Bool × Envelope.Values)} {fuel : Nat} {p : Player}
    (reports : Reports R autoRewind results p) (enough : R.entries.length < fuel) :
    ∃ result p', getNextEnvelopeToBeReplayed uninit entriesPerSecond fuel p =
        some (result, p') ∧
      Reports R autoRewind (results ++ [result]) p' := by
  obtain ⟨⟨cursor, plays⟩, rewinds, log, delayed⟩ := reports
  rw [getNextEnvelopeToBeReplayed]
  by_cases inside : cursor < R.entries.length
  · have notAtEnd : ¬ p.currentEnvelopeToReplay = p.index.length := by
      rw [plays.current_eq_length_iff]
      omega
    rw [if_neg notAtEnd]
    obtain ⟨e, p', ran, reports'⟩ :=
      Reports.replayNext uninit plays rewinds log inside enough
    exact ⟨_, p', ran, reports'⟩
  · have cursorLe := plays.cursor_le
    obtain rfl : cursor = R.entries.length := by omega
    have current : p.currentEnvelopeToReplay = R.envelopes.length := by
      rw [plays.current_eq, Recording.length_envelopes]
    rw [if_pos (plays.current_eq_length_iff.mpr rfl)]
    have nothing : Delayed R.envelopes (results ++ [(false, Envelope.initial)]) p.delay := by
      intro e last
      simp at last
    cases auto : p.autoRewind with
    | false =>
        refine ⟨_, p, rfl, ⟨_, plays⟩, rewinds, ?_, nothing⟩
        exact log.failed current (.inl (rewinds ▸ auto)) _
    | true =>
        obtain ⟨p₁, rewound, plays₁, same⟩ := plays.rewind_spec uninit entriesPerSecond enough
        simp only [if_true, rewound, Option.bind_eq_bind, Option.bind_some]
        by_cases nonempty : 0 < R.entries.length
        · have log₁ : PassLog R.envelopes autoRewind results p₁.currentEnvelopeToReplay
              p₁.previousEnvelopeAlreadyReplayed := by
            rw [plays₁.current_eq, plays₁.previous_eq]
            exact log.rewound (by rwa [Recording.length_envelopes]) current (rewinds ▸ auto)
          obtain ⟨e, p', ran, reports'⟩ :=
            Reports.replayNext uninit plays₁ (same.trans rewinds) log₁ nonempty enough
          exact ⟨_, p', ran, reports'⟩
        · have empty : p₁.currentEnvelopeToReplay = p₁.index.length :=
            plays₁.current_eq_length_iff.mpr (by omega)
          have unchanged : p₁ = p := by
            have noEntry : p.index.length = 0 := by
              rw [plays.caching.index_eq, Recording.length_index]
              omega
            simpa [rewind, computeInitialCacheLevelAndFillCache, noEntry] using rewound.symm
          subst unchanged
          rw [replayNextEnvelope, if_neg (not_not.mpr empty)]
          refine ⟨_, _, rfl, ⟨_, plays⟩, rewinds, ?_, nothing⟩
          exact log.failed current (.inr (by rw [Recording.length_envelopes]; omega)) _

/-- **Calls one after another** return what a cursor returns, and the delays are logged. -/
theorem Reports.calls {R : Recording} {autoRewind : Bool} {fuel : Nat} {p : Player}
    (reports : Reports R autoRewind [] p) (start : p.Plays R 0)
    (enough : R.entries.length < fuel) (n : Nat) :
    ∃ results p', calls uninit entriesPerSecond fuel n p = some (results, p') ∧
      results.length = n ∧ Reports R autoRewind results p' ∧
      ∃ cursor, p'.Plays R cursor ∧ Logged R.envelopes autoRewind results cursor := by
  induction n with
  | zero => exact ⟨[], p, rfl, rfl, reports, 0, start, fun _ => rfl⟩
  | succ n ih =>
      obtain ⟨results, p', ran, length, reports', cursor, plays, logged⟩ := ih
      obtain ⟨result, p'', got, reports''⟩ :=
        reports'.getNext uninit entriesPerSecond enough
      obtain ⟨result', q, got', same, plays', _⟩ :=
        plays.getNext_spec uninit entriesPerSecond enough
      rw [got, Option.some.injEq, Prod.mk.injEq] at got'
      obtain ⟨rfl, rfl⟩ := got'
      rw [reports'.rewinds] at same plays'
      refine ⟨results ++ [result], p'', ?_, ?_, reports'', _, plays', logged.snoc same⟩
      · simp only [Player.calls, ran, got, Option.bind_eq_bind, Option.bind_some]
      · rw [List.length_append, length, List.length_singleton]

end Player

/-! ## Players with a background thread -/

namespace ThreadedPlayer

variable (uninit : Nat → Byte) (entriesPerSecond : Multimap Int IndexEntry → BitVec 32)

/-- What holds in every state of a run in which envelopes are available when they are returned:
the place of the player, and its delay between two calls. -/
structure DelayInvariant (R : Recording) (autoRewind : Bool) (s : ThreadedPlayer) : Prop where
  inv : s.Invariant R autoRewind
  joining : s.replayThread = .joining → s.player.currentEnvelopeToReplay = R.entries.length
  log : PassLog R.envelopes autoRewind s.results s.player.currentEnvelopeToReplay
    s.player.previousEnvelopeAlreadyReplayed
  delayed : s.replayThread = .idle → Delayed R.envelopes s.results s.player.delay

variable {R : Recording} {autoRewind : Bool} {s : ThreadedPlayer}

/-- A call goes on to the current envelope, or returns nothing at the end. -/
theorem delayInvariant_replayUnlessAtEnd (inv : s.replayUnlessAtEnd.Invariant R autoRewind)
    (sound : Sound R s.player)
    (log : PassLog R.envelopes autoRewind s.results s.player.currentEnvelopeToReplay
      s.player.previousEnvelopeAlreadyReplayed)
    (stays : s.player.currentEnvelopeToReplay = R.entries.length →
      autoRewind = false ∨ R.entries.length = 0) :
    s.replayUnlessAtEnd.DelayInvariant R autoRewind := by
  refine ⟨inv, ?_, ?_, ?_⟩
  all_goals rw [replayUnlessAtEnd]
  all_goals by_cases inside : s.player.currentEnvelopeToReplay < R.entries.length
  all_goals first
    | rw [if_pos (sound.current_ne_length_iff.mpr inside)]
    | rw [if_neg (mt sound.current_ne_length_iff.mp inside)]
  · intro joining
    cases joining
  · intro joining
    cases joining
  · exact log
  · have le := sound.current_le
    have atEnd : s.player.currentEnvelopeToReplay = R.entries.length := by omega
    rw [← Recording.length_envelopes] at atEnd
    refine log.failed atEnd ?_ _
    rw [Recording.length_envelopes] at atEnd ⊢
    exact stays atEnd
  · intro idle
    cases idle
  · intro _ e last
    simp [answer] at last

/-- Rewinding puts the previous envelope at the beginning. -/
theorem previous_of_rewound {p p' : Player} (sound : Sound R p) (nonempty : 0 < R.entries.length)
    {fuel : Nat} (h : p.computeInitialCacheLevelAndFillCache uninit entriesPerSecond fuel = some p') :
    p'.previousEnvelopeAlreadyReplayed = 0 := by
  have more := Player.computeInitialCacheLevelAndFillCache_mono uninit entriesPerSecond
    (Nat.le_max_left fuel (R.entries.length + 1)) h
  obtain ⟨q, run, positioned, _⟩ :=
    Player.computeInitialCacheLevelAndFillCache_spec uninit entriesPerSecond sound.valid
      sound.data_eq sound.index_eq (fun none => absurd none nonempty.ne')
      (Nat.le_max_right fuel (R.entries.length + 1))
  rw [run, Option.some.injEq] at more
  exact more ▸ positioned.previous_eq

theorem delayInvariant_step {s' : ThreadedPlayer} (before : s.DelayInvariant R autoRewind)
    (available : s.Available) (step : Step uninit entriesPerSecond s s') :
    s'.DelayInvariant R autoRewind := by
  have inv' := invariant_step uninit entriesPerSecond before.inv available step
  obtain ⟨⟨sound, rewinds, cacheThread, cursor, logged, replaying⟩, joining, log, delayed⟩ :=
    before
  cases step with
  | call idle stays =>
      refine delayInvariant_replayUnlessAtEnd inv' sound log fun atEnd => .inl ?_
      rw [rewinds, sound.index_eq, Recording.length_index] at stays
      exact stays.resolve_left fun ne => ne atEnd
  | rewind idle atEnd auto =>
      rw [sound.index_eq, Recording.length_index] at atEnd
      exact ⟨inv', fun _ => atEnd, log, fun idle => by cases idle⟩
  | @rewound fuel p joins exited run =>
      rw [joins] at replaying
      obtain ⟨rfl, rfl⟩ : cursor = R.entries.length ∧ autoRewind = true := replaying
      obtain ⟨sound', start, _⟩ :=
        sound.computeInitialCacheLevelAndFillCache uninit entriesPerSecond run
      by_cases nonempty : 0 < R.entries.length
      · refine delayInvariant_replayUnlessAtEnd inv' sound' ?_ fun atEnd => ?_
        · have previous := previous_of_rewound uninit entriesPerSecond sound nonempty run
          simp only [start, previous]
          exact log.rewound (by rwa [Recording.length_envelopes])
            (by rw [Recording.length_envelopes]; exact joining joins) rfl
        · simp only [start] at atEnd
          omega
      · have unchanged : p = s.player := by
          have noEntry : s.player.index.length = 0 := by
            rw [sound.index_eq, Recording.length_index]
            omega
          simpa [Player.computeInitialCacheLevelAndFillCache, noEntry] using run.symm
        subst unchanged
        exact delayInvariant_replayUnlessAtEnd inv' sound log fun _ => .inr (by omega)
  | checkAvailability checking =>
      split at inv'
      case isTrue empty =>
          rw [if_pos empty]
          exact ⟨inv', joining, log, delayed⟩
      case isFalse filled =>
          rw [if_neg filled]
          exact ⟨inv', (fun joining => by cases joining), log, fun idle => by cases idle⟩
  | @replayCurrent e p current run =>
      rw [current] at replaying
      obtain ⟨inside, _⟩ := replaying
      have entry := Player.getElem_index inside
      rw [← sound.index_eq] at entry
      obtain ⟨rfl, _⟩ := sound.replayCurrentEnvelope run inside (available current _ entry)
      obtain ⟨now, previous, here, there, delay, moved, moved'⟩ :=
        Player.replayCurrentEnvelope_cases run
      rw [entry, Option.some.injEq] at here
      rw [sound.index_eq] at there
      obtain ⟨e', envelope, time⟩ := Player.time_of_index there
      have envelope' := Player.getElem_envelopes inside
      refine ⟨inv', (fun joining => by cases joining), ?_, fun _ => ?_⟩
      · simp only [answer, moved, moved']
        exact log.returned envelope'
      · simp only [answer, delay, ← here, time]
        exact log.delayed envelope' envelope
  | exit => exact ⟨inv', joining, log, delayed⟩
  | goOn => exact ⟨inv', joining, log, delayed⟩
  | skip => exact ⟨inv', joining, log, delayed⟩
  | refill => exact ⟨inv', joining, log, delayed⟩
  | filled => exact ⟨inv', joining, log, delayed⟩
  | read => exact ⟨inv', joining, log, delayed⟩
  | store => exact ⟨inv', joining, log, delayed⟩
  | advance => exact ⟨inv', joining, log, delayed⟩

end ThreadedPlayer

/-! ## The delays of all runs -/

section Runs

variable (uninit : Nat → Byte) (entriesPerSecond : Multimap Int IndexEntry → BitVec 32)

/-- Behind the given results, a player of a recording with `n` envelopes reports the delay of the
pass. -/
def ReportsDelay (n : Nat) (results : List (Bool × Envelope.Values)) (p : Player) : Prop :=
  (p.reportedDelay.toNat : Int) = passDelay n results

theorem reportsDelay_iff_of_delayed {es : List Envelope.Values} {tail : Bytes}
    {fits : ∀ e ∈ es, FitsFrame e} {results : List (Bool × Envelope.Values)} {p : Player}
    (delayed : Delayed (recordingOf es tail fits).envelopes results p.delay)
    {e : Envelope.Values} (last : results.getLast? = some (true, e)) :
    ReportsDelay es.length results p ↔
      GapFits (replayOrder es) ((results.length - 1) % es.length) := by
  rw [envelopes_recordingOf] at delayed
  have length : (replayOrder es).length = es.length := (replayOrder_perm es).length_eq
  have reported := delayed.reported_iff (replayOrder_sorted es) last
  rwa [length] at reported

/-- **The delays of a replay.** For the file of any envelopes and an incomplete tail, with or
without automatic rewinding: behind every call that returns an envelope, in every run of calls
of a player without a background thread, and in every run of a player with one in which the
envelopes are available when they are returned, the reported delay is the time since the
envelope before in the same pass, but at most a second, if and only if this time fits. -/
theorem delay_reports_iff {es : List Envelope.Values} (fits : ∀ e ∈ es, FitsFrame e)
    {tail : Bytes} (incomplete : IncompleteFrame tail) (autoRewind : Bool) :
    (∀ fuel, es.length < fuel →
      ∃ p, Player.construct uninit entriesPerSecond fuel (some (serializeEnvelopes es ++ tail))
          autoRewind false = some p ∧
        ∀ n, ∃ results p', Player.calls uninit entriesPerSecond fuel n p = some (results, p') ∧
          results.map Player.returned =
            replay (replayOrder es) autoRewind 0 (List.replicate n .getNextEnvelopeToBeReplayed) ∧
          ∀ e, results.getLast? = some (true, e) →
            (ReportsDelay es.length results p' ↔
              GapFits (replayOrder es) ((results.length - 1) % es.length))) ∧
    ∀ s, ((ThreadedPlayer.system uninit entriesPerSecond (some (serializeEnvelopes es ++ tail))
        autoRewind).restrict fun s _ => s.Available).Reachable s →
      s.replayThread = .idle → ∀ e, s.results.getLast? = some (true, e) →
        (ReportsDelay es.length s.results s.player ↔
          GapFits (replayOrder es) ((s.results.length - 1) % es.length)) := by
  constructor
  · intro fuel enough
    obtain ⟨p, constructed, positioned, notThreading, rewinds, next⟩ :=
      Player.construct_spec uninit entriesPerSecond incomplete fits enough autoRewind false
    refine ⟨p, constructed, fun n => ?_⟩
    rw [← length_recordingOf es tail fits] at enough
    have plays := positioned.plays notThreading next
    have reports : Player.Reports (recordingOf es tail fits) autoRewind [] p := by
      refine ⟨⟨0, plays⟩, rewinds, ?_, fun e last => by simp at last⟩
      rw [plays.current_eq, plays.previous_eq]
      exact PassLog.start _ _
    obtain ⟨results, p', ran, length, reports', cursor, _, logged⟩ :=
      reports.calls uninit entriesPerSecond plays enough n
    refine ⟨results, p', ran, ?_, fun e => reportsDelay_iff_of_delayed reports'.delayed⟩
    have all := logged []
    rw [envelopes_recordingOf, List.append_nil, length] at all
    simpa [replay] using all.symm
  · intro s reachable idle
    have inv : s.DelayInvariant (recordingOf es tail fits) autoRewind := by
      refine Reachable.invariant ?_ ?_ reachable
      · rintro _ ⟨fuel, p, constructed, rfl⟩
        obtain ⟨positioned, rewinds, _⟩ :=
          ThreadedPlayer.positioned_of_init uninit entriesPerSecond incomplete fits constructed
        refine ⟨⟨positioned.sound, rewinds, trivial, 0, fun ops => rfl, positioned.current_eq⟩,
          (fun joining => by cases joining), ?_, fun _ e last => by simp at last⟩
        simp only [positioned.current_eq, positioned.previous_eq]
        exact PassLog.start _ _
      · intro s s' before step
        exact ThreadedPlayer.delayInvariant_step uninit entriesPerSecond before step.2 step.1
    exact fun e => reportsDelay_iff_of_delayed (inv.delayed idle)

/-- An envelope sampled 2^32 microseconds after the beginning of time. -/
def sampledLate : Envelope.Values :=
  (1, [], TimeStamp.of 0 0, TimeStamp.of 0 0, TimeStamp.of 4294 967296, 0, ())

theorem fitsFrame_late : ∀ e ∈ [Envelope.initial, sampledLate], FitsFrame e := by
  intro e he
  have short : (Envelope.serializedData e).length = 0 := by
    rcases List.mem_cons.mp he with rfl | he
    · rfl
    · obtain rfl := List.mem_singleton.mp he
      rfl
  exact fitsFrame_of_length (by rw [short]; norm_num)

theorem delay_reports_two :
    (∀ fuel, 2 < fuel →
      ∃ p, Player.construct (fun _ => 0) (fun _ => 1) fuel
          (some (serializeEnvelopes [Envelope.initial, sampledLate] ++ [0x0D])) false false =
          some p ∧
        ∀ n, ∃ results p', Player.calls (fun _ => 0) (fun _ => 1) fuel n p =
            some (results, p') ∧
          results.map Player.returned =
            replay (replayOrder [Envelope.initial, sampledLate]) false 0
              (List.replicate n .getNextEnvelopeToBeReplayed) ∧
          ∀ e, results.getLast? = some (true, e) →
            (ReportsDelay 2 results p' ↔
              GapFits (replayOrder [Envelope.initial, sampledLate])
                ((results.length - 1) % 2))) ∧
    ∀ s, ((ThreadedPlayer.system (fun _ => 0) (fun _ => 1)
        (some (serializeEnvelopes [Envelope.initial, sampledLate] ++ [0x0D]))
        false).restrict fun s _ => s.Available).Reachable s →
      s.replayThread = .idle → ∀ e, s.results.getLast? = some (true, e) →
        (ReportsDelay 2 s.results s.player ↔
          GapFits (replayOrder [Envelope.initial, sampledLate])
            ((s.results.length - 1) % 2)) :=
  delay_reports_iff (fun _ => 0) (fun _ => 1) fitsFrame_late incompleteFrame_magic false

/-- Behind the second envelope the player reports no delay instead of a second. -/
theorem not_reportsDelay :
    ∃ p results p' e, Player.construct (fun _ => 0) (fun _ => 1) 3
        (some (serializeEnvelopes [Envelope.initial, sampledLate] ++ [0x0D])) false false =
        some p ∧
      Player.calls (fun _ => 0) (fun _ => 1) 3 2 p = some (results, p') ∧
      results.getLast? = some (true, e) ∧ ¬ ReportsDelay 2 results p' := by
  have evaluated : ((Player.construct (fun _ => 0) (fun _ => 1) 3
        (some (serializeEnvelopes [Envelope.initial, sampledLate] ++ [0x0D])) false false).bind
      fun p => (Player.calls (fun _ => 0) (fun _ => 1) 3 2 p).map fun (results, p') =>
        (results.getLast?.map Prod.fst, p'.reportedDelay, passDelay 2 results)) =
      some (some true, 0, 1000000) := by
    decide +kernel
  obtain ⟨p, constructed, called⟩ := Option.bind_eq_some_iff.mp evaluated
  obtain ⟨⟨results, p'⟩, ran, observed⟩ := Option.map_eq_some_iff.mp called
  simp only [Prod.mk.injEq] at observed
  obtain ⟨found, reported, expected⟩ := observed
  obtain ⟨⟨_, e⟩, last, rfl⟩ := Option.map_eq_some_iff.mp found
  refine ⟨p, results, p', e, constructed, ran, last, fun right => ?_⟩
  rw [ReportsDelay, reported, expected] at right
  exact absurd right (by decide)

end Runs

end Cluon
