import Cluon.Recording.Replay
import Cluon.Recording.ThreadedPlayer

/-!
# Replaying with a background thread

The envelopes in the cache are always those of the recording (`Sound`), whichever way the
threads are interleaved. So as long as the current envelope is in the cache whenever one is
returned, a player with a background thread is the same cursor in the recording as one
without (`results_eq_replay`). The replaying thread, however, only waits for a cache that is
not empty. If the background thread is late, the cache holds nothing but the envelope
returned last, and the player returns a default-constructed one (`returns_initial`).
-/

set_option autoImplicit false

namespace Cluon

open Library InputStream TransitionSystem

namespace Player

variable (uninit : Nat → Byte) (entriesPerSecond : Multimap Int IndexEntry → BitVec 32)

/-! ## More rounds make no difference -/

theorem fillEnvelopeCacheLoop_mono {max fuel fuel' : Nat} (le : fuel ≤ fuel') :
    ∀ {entriesRead : Nat} {p : Player} {result : Nat × Player},
      fillEnvelopeCacheLoop uninit max fuel entriesRead p = some result →
      fillEnvelopeCacheLoop uninit max fuel' entriesRead p = some result := by
  induction fuel generalizing fuel' with
  | zero => intro _ _ _ h; cases h
  | succ fuel ih =>
      obtain ⟨fuel', rfl⟩ : ∃ f, fuel' = f + 1 := ⟨fuel' - 1, by omega⟩
      intro entriesRead p result h
      rw [fillEnvelopeCacheLoop] at h ⊢
      cases hp : p.index[p.nextEntryToReadFromRecFile]? with
      | none =>
          rw [hp] at h
          exact h
      | some entry =>
          simp only [hp] at h ⊢
          by_cases wanted : entriesRead < max
          · simp only [if_pos wanted] at h ⊢
            split at h
            case isTrue found => rw [if_pos found]; exact ih (by omega) h
            case isFalse failed => rw [if_neg failed]; exact ih (by omega) h
          · simpa only [if_neg wanted] using h

theorem computeInitialCacheLevelAndFillCache_mono {fuel fuel' : Nat} (le : fuel ≤ fuel')
    {p p' : Player} (h : computeInitialCacheLevelAndFillCache uninit entriesPerSecond fuel p =
      some p') :
    computeInitialCacheLevelAndFillCache uninit entriesPerSecond fuel' p = some p' := by
  rw [computeInitialCacheLevelAndFillCache] at h ⊢
  split at h
  case isFalse idle => rw [if_neg idle]; exact h
  case isTrue started =>
      rw [if_pos started]
      simp only [Option.bind_eq_bind, Option.bind_eq_some_iff] at h ⊢
      obtain ⟨result, filled, same⟩ := h
      refine ⟨result, ?_, same⟩
      rw [fillEnvelopeCache] at filled ⊢
      split at filled
      case isTrue wanted =>
          rw [if_pos wanted]
          exact fillEnvelopeCacheLoop_mono uninit le filled
      case isFalse unwanted => rw [if_neg unwanted]; exact filled

theorem construct_mono {fuel fuel' : Nat} (le : fuel ≤ fuel') {file : Option Bytes}
    {autoRewind threading : Bool} {p : Player}
    (h : construct uninit entriesPerSecond fuel file autoRewind threading = some p) :
    construct uninit entriesPerSecond fuel' file autoRewind threading = some p :=
  computeInitialCacheLevelAndFillCache_mono uninit entriesPerSecond le h

end Player

/-! ## The cache of a recording -/

/-- The player has the recording open, and the envelopes in its cache are those of the
recording. -/
structure Sound (R : Recording) (p : Player) : Prop where
  valid : p.recFileValid = true
  data_eq : p.recFile.data = R.file
  index_eq : p.index = R.index
  cached : ∀ (i : Nat) (h : i < R.entries.length) (e : Envelope.Values),
    p.envelopeCache.find R.entries[i].1 = some e → e = R.entries[i].2
  current_le : p.currentEnvelopeToReplay ≤ R.entries.length

theorem Player.Positioned.sound {R : Recording} {cursor : Nat} {p : Player}
    (positioned : p.Positioned R cursor) : Sound R p where
  valid := positioned.caching.valid
  data_eq := positioned.caching.data_eq
  index_eq := positioned.caching.index_eq
  current_le := positioned.current_eq ▸ positioned.cursor_le
  cached := by
    intro i h e found
    rw [positioned.caching.cached i h, Option.ite_none_right_eq_some] at found
    exact (Option.some.inj found.2).symm

namespace Sound

variable {R : Recording} {p : Player}

theorem current_ne_length_iff (sound : Sound R p) :
    p.currentEnvelopeToReplay ≠ p.index.length ↔
      p.currentEnvelopeToReplay < R.entries.length := by
  have le := sound.current_le
  rw [sound.index_eq, Recording.length_index]
  omega

/-- Storing an envelope of the recording at its position. -/
theorem cacheEnvelope (sound : Sound R p) {i : Nat} (h : i < R.entries.length) :
    Sound R (p.cacheEnvelope R.entries[i].1 R.entries[i].2) := by
  refine { sound with cached := fun j hj e found => ?_ }
  rw [Player.cacheEnvelope, KeyValueMap.find_emplace] at found
  by_cases same : i = j
  · subst same
    rw [if_pos rfl] at found
    cases before : p.envelopeCache.find R.entries[i].1 with
    | none =>
        rw [before] at found
        exact (Option.some.inj found).symm
    | some e' =>
        rw [before] at found
        have kept : e' = e := Option.some.inj found
        exact kept ▸ sound.cached i h e' before
  · rw [if_neg (mt (Player.position_inj h hj).mp same)] at found
    exact sound.cached j hj e found

/-- The section that returns an envelope returns the current one if it is in the cache. -/
theorem replayCurrentEnvelope (sound : Sound R p) {e : Envelope.Values} {p' : Player}
    (h : p.replayCurrentEnvelope = some (e, p'))
    (inside : p.currentEnvelopeToReplay < R.entries.length)
    (available : (p.envelopeCache.find R.entries[p.currentEnvelopeToReplay].1).isSome) :
    e = R.entries[p.currentEnvelopeToReplay].2 ∧ Sound R p' ∧
      p'.currentEnvelopeToReplay = p.currentEnvelopeToReplay + 1 ∧
      p'.autoRewind = p.autoRewind ∧ p'.recFile = p.recFile := by
  obtain ⟨e', present⟩ := Option.isSome_iff_exists.mp available
  have right := sound.cached _ inside e' present
  subst right
  have current := Player.getElem_index inside
  rw [← sound.index_eq] at current
  have unchanged : p.envelopeCache.getOrInsert R.entries[p.currentEnvelopeToReplay].1
      Envelope.initial = (R.entries[p.currentEnvelopeToReplay].2, p.envelopeCache) := by
    rw [KeyValueMap.getOrInsert, KeyValueMap.emplace_present present, present]
    rfl
  simp only [Player.replayCurrentEnvelope, current, Option.bind_eq_bind, Option.bind_some,
    Option.bind_eq_some_iff, unchanged, Option.some.injEq, Prod.mk.injEq] at h
  obtain ⟨previous, _, rfl, rfl⟩ := h
  refine ⟨rfl, ⟨sound.valid, sound.data_eq, sound.index_eq, fun i hi e found => ?_, inside⟩, rfl,
    rfl, rfl⟩
  simp only at found
  split at found
  · rw [KeyValueMap.find_erase, Option.ite_none_left_eq_some] at found
    exact sound.cached i hi e found.2
  · exact sound.cached i hi e found

/-- Rewinding a player begins the recording again. -/
theorem computeInitialCacheLevelAndFillCache (sound : Sound R p) (uninit : Nat → Byte)
    (entriesPerSecond : Multimap Int IndexEntry → BitVec 32) {fuel : Nat} {p' : Player}
    (h : p.computeInitialCacheLevelAndFillCache uninit entriesPerSecond fuel = some p') :
    Sound R p' ∧ p'.currentEnvelopeToReplay = 0 ∧ p'.autoRewind = p.autoRewind := by
  by_cases empty : R.entries.length = 0
  · have currentLe := sound.current_le
    simp only [Player.computeInitialCacheLevelAndFillCache, sound.index_eq,
      Recording.length_index, empty, Nat.lt_irrefl, decide_false, Bool.and_false,
      Bool.false_eq_true, if_false, Option.some.injEq] at h
    subst h
    exact ⟨sound, by omega, rfl⟩
  · have more := Player.computeInitialCacheLevelAndFillCache_mono uninit entriesPerSecond
      (Nat.le_max_left fuel (R.entries.length + 1)) h
    obtain ⟨q, run, positioned, _, rewinds, _⟩ :=
      Player.computeInitialCacheLevelAndFillCache_spec uninit entriesPerSecond sound.valid
        sound.data_eq sound.index_eq (fun none => absurd none empty)
        (Nat.le_max_right fuel (R.entries.length + 1))
    rw [run, Option.some.injEq] at more
    subst more
    exact ⟨positioned.sound, positioned.current_eq, rewinds⟩

end Sound

/-! ## The invariant of the two threads -/

/-- After the given results, calls return what a cursor at the given position returns. -/
def Logged (order : List Envelope.Values) (autoRewind : Bool)
    (results : List (Bool × Envelope.Values)) (cursor : Nat) : Prop :=
  ∀ ops, replay order autoRewind 0
      (List.replicate results.length .getNextEnvelopeToBeReplayed ++ ops) =
    results.map Player.returned ++ replay order autoRewind cursor ops

theorem Logged.snoc {order : List Envelope.Values} {autoRewind : Bool}
    {results : List (Bool × Envelope.Values)} {cursor : Nat}
    (logged : Logged order autoRewind results cursor) {result : Bool × Envelope.Values}
    (same : Player.returned result = (replayNext order autoRewind cursor).1) :
    Logged order autoRewind (results ++ [result]) (replayNext order autoRewind cursor).2 := by
  intro ops
  have oneMore := logged (.getNextEnvelopeToBeReplayed :: ops)
  rw [replay, ← same] at oneMore
  rw [List.length_append, List.length_singleton, List.replicate_succ', List.append_assoc,
    List.map_append, List.append_assoc]
  exact oneMore

namespace ThreadedPlayer

variable (uninit : Nat → Byte) (entriesPerSecond : Multimap Int IndexEntry → BitVec 32)

/-- The background thread can move within the file, and an envelope it is about to store is one
of the recording. -/
def CacheThreadSound (R : Recording) (recFile : InputStream) : CacheThread → Prop
  | .fill _ _ | .advance _ _ => recFile.failbit = false
  | .store _ _ filePosition e => recFile.failbit = false ∧
      ∃ (i : Nat) (h : i < R.entries.length), filePosition = R.entries[i].1 ∧ e = R.entries[i].2
  | _ => True

/-- Where the replaying thread is when the next result is that of a cursor at the given
position. -/
def ReplayThreadSound (R : Recording) (autoRewind : Bool) (current cursor : Nat) :
    ReplayThread → Prop
  | .idle => current = cursor
  | .joining => cursor = R.entries.length ∧ autoRewind = true
  | .checkAvailability | .replayCurrent =>
      ∃ h : current < R.entries.length,
        replayNext R.envelopes autoRewind cursor = (some R.entries[current].2, current + 1)

/-- What holds in every state of a run in which envelopes are available when they are
returned. -/
structure Invariant (R : Recording) (autoRewind : Bool) (s : ThreadedPlayer) : Prop where
  sound : Sound R s.player
  rewinds : s.player.autoRewind = autoRewind
  cacheThread : CacheThreadSound R s.player.recFile s.cacheThread
  replayThread : ∃ cursor, Logged R.envelopes autoRewind s.results cursor ∧
    ReplayThreadSound R autoRewind s.player.currentEnvelopeToReplay cursor s.replayThread

variable {R : Recording} {autoRewind : Bool} {s : ThreadedPlayer}

theorem invariant_replayUnlessAtEnd (sound : Sound R s.player)
    (rewinds : s.player.autoRewind = autoRewind)
    (cacheThread : CacheThreadSound R s.player.recFile s.cacheThread) {cursor : Nat}
    (logged : Logged R.envelopes autoRewind s.results cursor)
    (next : ∀ current, s.player.currentEnvelopeToReplay = current →
      replayNext R.envelopes autoRewind cursor =
        if h : current < R.entries.length then (some R.entries[current].2, current + 1)
        else (none, current)) :
    s.replayUnlessAtEnd.Invariant R autoRewind := by
  have next := next _ rfl
  rw [replayUnlessAtEnd]
  by_cases inside : s.player.currentEnvelopeToReplay < R.entries.length
  · rw [if_pos (sound.current_ne_length_iff.mpr inside)]
    rw [dif_pos inside] at next
    exact ⟨sound, rewinds, cacheThread, cursor, logged, inside, next⟩
  · rw [if_neg (mt sound.current_ne_length_iff.mp inside)]
    rw [dif_neg inside] at next
    have nothing : Player.returned (false, Envelope.initial) =
        (replayNext R.envelopes autoRewind cursor).1 := by
      rw [next]
      rfl
    exact ⟨sound, rewinds, cacheThread, _, logged.snoc nothing, by rw [next]; rfl⟩

theorem replayNext_eq (R : Recording) (autoRewind : Bool) {cursor : Nat}
    (le : cursor ≤ R.entries.length) (stays : cursor ≠ R.entries.length ∨ autoRewind = false) :
    replayNext R.envelopes autoRewind cursor =
      if h : cursor < R.entries.length then (some R.entries[cursor].2, cursor + 1)
      else (none, cursor) := by
  by_cases inside : cursor < R.entries.length
  · rw [dif_pos inside, replayNext, Player.getElem_envelopes inside]
  · have atEnd : cursor = R.entries.length := by omega
    rw [dif_neg inside, atEnd, Player.replayNext_end, if_neg]
    rintro ⟨rewinds, _⟩
    exact stays.elim (fun h => h atEnd) (fun h => by rw [h] at rewinds; cases rewinds)

theorem invariant_step {s' : ThreadedPlayer} (inv : s.Invariant R autoRewind)
    (available : s.Available) (step : Step uninit entriesPerSecond s s') :
    s'.Invariant R autoRewind := by
  obtain ⟨sound, rewinds, cacheThread, cursor, logged, replaying⟩ := inv
  cases step with
  | call idle stays =>
      rw [idle] at replaying
      have here : s.player.currentEnvelopeToReplay = cursor := replaying
      subst here
      have stays : s.player.currentEnvelopeToReplay ≠ R.entries.length ∨ autoRewind = false := by
        rw [rewinds, sound.index_eq, Recording.length_index] at stays
        exact stays
      refine invariant_replayUnlessAtEnd sound rewinds cacheThread logged ?_
      rintro _ rfl
      exact replayNext_eq R autoRewind sound.current_le stays
  | rewind idle atEnd auto =>
      rw [idle] at replaying
      have here : s.player.currentEnvelopeToReplay = cursor := replaying
      rw [here, sound.index_eq, Recording.length_index] at atEnd
      exact ⟨sound, rewinds, cacheThread, cursor, logged, atEnd, rewinds ▸ auto⟩
  | rewound joining exited run =>
      rw [joining] at replaying
      obtain ⟨rfl, rfl⟩ : cursor = R.entries.length ∧ autoRewind = true := replaying
      obtain ⟨sound', start, rewinds'⟩ :=
        sound.computeInitialCacheLevelAndFillCache uninit entriesPerSecond run
      refine invariant_replayUnlessAtEnd sound' (rewinds'.trans rewinds) trivial logged ?_
      intro current here
      obtain rfl : current = 0 := here.symm.trans start
      by_cases empty : R.entries = []
      · rw [Player.replayNext_end, if_neg fun h => h.2 empty]
        simp [empty]
      · have inside : 0 < R.entries.length := List.length_pos_iff.mpr empty
        rw [Player.replayNext_end, if_pos ⟨rfl, empty⟩, dif_pos inside, replayNext,
          Player.getElem_envelopes inside]
  | checkAvailability checking =>
      rw [checking] at replaying
      split
      · exact ⟨sound, rewinds, cacheThread, cursor, logged, by rw [checking]; exact replaying⟩
      · exact ⟨sound, rewinds, cacheThread, cursor, logged, replaying⟩
  | @replayCurrent e p current run =>
      rw [current] at replaying
      obtain ⟨inside, next⟩ := replaying
      have entry := Player.getElem_index inside
      rw [← sound.index_eq] at entry
      obtain ⟨rfl, sound', moved, rewinds', file⟩ :=
        sound.replayCurrentEnvelope run inside (available current _ entry)
      have returned : Player.returned (true, R.entries[s.player.currentEnvelopeToReplay].2) =
          (replayNext R.envelopes autoRewind cursor).1 := by
        rw [next]
        rfl
      have logged' := logged.snoc returned
      rw [next] at logged'
      refine ⟨sound', rewinds'.trans rewinds, ?_, _, logged', moved⟩
      simp only [answer, file]
      exact cacheThread
  | exit running stopped =>
      exact ⟨sound, rewinds, trivial, cursor, logged, replaying⟩
  | goOn running started =>
      exact ⟨sound, rewinds, trivial, cursor, logged, replaying⟩
  | skip unneeded =>
      exact ⟨sound, rewinds, trivial, cursor, logged, replaying⟩
  | refill max needed valid positive =>
      exact ⟨{ sound with }, rewinds, rfl, cursor, logged, replaying⟩
  | filled atEnd done =>
      exact ⟨sound, rewinds, trivial, cursor, logged, replaying⟩
  | @read max entriesRead entry retVal recFile filling present wanted extracted =>
      rw [filling] at cacheThread
      rw [sound.index_eq] at present
      obtain ⟨inside, _⟩ := List.getElem?_eq_some_iff.mp present
      rw [Recording.length_index] at inside
      rw [Player.getElem_index inside, Option.some.injEq] at present
      subst present
      obtain ⟨right, opened⟩ := R.extractEnvelope_seekg uninit (List.getElem_mem inside)
        ⟨sound.data_eq, cacheThread⟩
      rw [extracted] at right opened
      subst right
      exact ⟨{ sound with data_eq := opened.data_eq }, rewinds,
        ⟨opened.seekable, _, inside, rfl, rfl⟩, cursor, logged, replaying⟩
  | store storing =>
      rw [storing] at cacheThread
      obtain ⟨seekable, i, h, rfl, rfl⟩ := cacheThread
      exact ⟨sound.cacheEnvelope h, rewinds, seekable, cursor, logged, replaying⟩
  | advance advancing =>
      rw [advancing] at cacheThread
      exact ⟨{ sound with }, rewinds, cacheThread, cursor, logged, replaying⟩

/-- What the constructor leaves, with however many rounds. -/
theorem positioned_of_init {tail : Bytes} (incomplete : IncompleteFrame tail)
    {es : List Envelope.Values} (fits : ∀ e ∈ es, FitsFrame e) {fuel : Nat} {p : Player}
    (h : Player.construct uninit entriesPerSecond fuel (some (serializeEnvelopes es ++ tail))
      autoRewind true = some p) :
    p.Positioned (recordingOf es tail fits) 0 ∧ p.autoRewind = autoRewind ∧
      p.nextEntryToReadFromRecFile = min (recordingOf es tail fits).entries.length
        (Player.initialLevel (entriesPerSecond (recordingOf es tail fits).index)).toNat := by
  have more := Player.construct_mono uninit entriesPerSecond
    (Nat.le_max_left fuel (es.length + 1)) h
  obtain ⟨q, constructed, positioned, _, rewinds, next⟩ :=
    Player.construct_spec uninit entriesPerSecond incomplete fits
      (Nat.le_max_right fuel (es.length + 1)) autoRewind true
  rw [constructed, Option.some.injEq] at more
  subst more
  exact ⟨positioned, rewinds, next⟩

/-! ## Using up the cache -/

section Late

variable {M : TransitionSystem ThreadedPlayer}
  (steps : ∀ s s', s.Available → Step uninit entriesPerSecond s s' → M.step s s')

include steps

/-- The replaying thread does not wait for the background thread if there is some envelope in
the cache. -/
theorem reachable_replayCurrent {s : ThreadedPlayer} (reachable : M.Reachable s)
    (idle : s.replayThread = .idle) {k : Nat} (positioned : s.player.Positioned R k)
    (inside : k < R.entries.length) (nonempty : s.player.envelopeCache.length ≠ 0) :
    M.Reachable { s with replayThread := .replayCurrent } := by
  have notAtEnd : s.player.currentEnvelopeToReplay ≠ s.player.index.length := by
    rw [ne_eq, positioned.current_eq_length_iff]
    omega
  have available : s.Available := fun replaying => by rw [idle] at replaying; cases replaying
  have called := reachable.next (steps _ _ available (.call idle (.inl notAtEnd)))
  rw [replayUnlessAtEnd, if_pos notAtEnd] at called
  have checked := called.next (steps _ _ (fun replaying => by cases replaying)
    (.checkAvailability rfl))
  rwa [if_neg nonempty] at checked

/-- Without the background thread the cache is used up to its last envelope. -/
theorem reachable_late {level : Nat} (le : level ≤ R.entries.length) {s₀ : ThreadedPlayer}
    (reachable : M.Reachable s₀) (idle : s₀.replayThread = .idle)
    (positioned : s₀.player.Positioned R 0)
    (filled : s₀.player.nextEntryToReadFromRecFile = level) :
    ∀ k ≤ level, ∃ s, M.Reachable s ∧ s.replayThread = .idle ∧ s.player.Positioned R k ∧
      s.player.nextEntryToReadFromRecFile = level ∧
      s.results.length = s₀.results.length + k := by
  intro k
  induction k with
  | zero => intro _; exact ⟨s₀, reachable, idle, positioned, filled, rfl⟩
  | succ k ih =>
      intro hk
      obtain ⟨s, reachable, idle, positioned, filled, answers⟩ := ih (by omega)
      have inside : k < R.entries.length := by omega
      have inCache : k < s.player.nextEntryToReadFromRecFile := by omega
      have present := positioned.find_current inside inCache
      have ready :=
        reachable_replayCurrent uninit entriesPerSecond steps reachable idle positioned inside
          (KeyValueMap.length_pos_of_find present).ne'
      have available : Available { s with replayThread := .replayCurrent } := by
        intro _ entry current
        rw [positioned.caching.index_eq, positioned.current_eq, Player.getElem_index inside,
          Option.some.injEq] at current
        rw [← current, present]
        rfl
      obtain ⟨p', returned, positioned', _, next, _⟩ :=
        positioned.replayCurrentEnvelope_spec inside inCache
      refine ⟨_, ready.next (steps _ _ available (.replayCurrent rfl returned)), rfl, positioned',
        next.trans filled, ?_⟩
      rw [answer, List.length_append, answers, List.length_singleton, Nat.add_assoc]

end Late

/-- The state in which a player begins. -/
theorem initially_positioned {es : List Envelope.Values} (fits : ∀ e ∈ es, FitsFrame e)
    {tail : Bytes} (incomplete : IncompleteFrame tail) (autoRewind : Bool) :
    ∃ p : Player, (system uninit entriesPerSecond (some (serializeEnvelopes es ++ tail))
        autoRewind).init ⟨p, .idle, .checkRunning, true, []⟩ ∧
      p.Positioned (recordingOf es tail fits) 0 ∧
      p.nextEntryToReadFromRecFile = min es.length (Player.initialLevel
        (entriesPerSecond (recordingOf es tail fits).index)).toNat := by
  obtain ⟨p, constructed, positioned, _, _, next⟩ :=
    Player.construct_spec uninit entriesPerSecond incomplete fits (Nat.lt_succ_self es.length)
      autoRewind true
  rw [length_recordingOf] at next
  exact ⟨p, ⟨_, p, constructed, rfl⟩, positioned, next⟩

/-- The envelopes cached at the beginning can be returned before the background thread makes
a step. -/
theorem returns_cached {es : List Envelope.Values} (fits : ∀ e ∈ es, FitsFrame e)
    {tail : Bytes} (incomplete : IncompleteFrame tail) (autoRewind : Bool) {n : Nat}
    (present : n ≤ es.length)
    (cached : n ≤ (Player.initialLevel
      (entriesPerSecond (recordingOf es tail fits).index)).toNat) :
    ∃ s, ((system uninit entriesPerSecond (some (serializeEnvelopes es ++ tail))
      autoRewind).restrict fun s _ => s.Available).Reachable s ∧ s.results.length = n := by
  obtain ⟨p, init, positioned, next⟩ :=
    initially_positioned uninit entriesPerSecond fits incomplete autoRewind
  have level : p.nextEntryToReadFromRecFile ≤ (recordingOf es tail fits).entries.length := by
    rw [next, length_recordingOf]
    exact Nat.min_le_left _ _
  obtain ⟨s, reachable, _, _, _, answers⟩ :=
    reachable_late uninit entriesPerSecond
      (M := (system uninit entriesPerSecond (some (serializeEnvelopes es ++ tail))
        autoRewind).restrict fun s _ => s.Available)
      (fun _ _ available step => ⟨step, available⟩) level (.initially init) rfl positioned rfl n
      (by rw [next]; exact le_min present cached)
  exact ⟨s, reachable, answers.trans (Nat.zero_add n)⟩

/-! ## The calls of the replaying thread -/

/-- **Replay with a background thread.** In every run in which the current envelope is in the
cache whenever one is returned, the calls return the envelopes of the recording one after the
other, as a cursor does. -/
theorem results_eq_replay {es : List Envelope.Values} (fits : ∀ e ∈ es, FitsFrame e)
    {tail : Bytes} (incomplete : IncompleteFrame tail) (autoRewind : Bool) {s : ThreadedPlayer}
    (h : ((system uninit entriesPerSecond (some (serializeEnvelopes es ++ tail))
      autoRewind).restrict fun s _ => s.Available).Reachable s) :
    s.results.map Player.returned =
      replay (replayOrder es) autoRewind 0
        (List.replicate s.results.length .getNextEnvelopeToBeReplayed) := by
  have inv : s.Invariant (recordingOf es tail fits) autoRewind := by
    refine Reachable.invariant ?_ ?_ h
    · rintro _ ⟨fuel, p, constructed, rfl⟩
      obtain ⟨positioned, rewinds, _⟩ :=
        positioned_of_init uninit entriesPerSecond incomplete fits constructed
      exact ⟨positioned.sound, rewinds, trivial, 0, fun ops => rfl, positioned.current_eq⟩
    · intro s s' inv step
      exact invariant_step uninit entriesPerSecond inv step.2 step.1
  obtain ⟨cursor, logged, _⟩ := inv.replayThread
  have all := logged []
  rw [envelopes_recordingOf, List.append_nil] at all
  simpa [replay] using all.symm

/-- Two envelopes are returned in the order in which they were sampled. -/
theorem results_eq_replay_two :
    ∃ s, ((system (fun _ => 0) (fun _ => 1) (some (serializeEnvelopes twoEnvelopes ++ [0x0D]))
        false).restrict fun s _ => s.Available).Reachable s ∧ s.results.length = 2 ∧
      s.results.map Player.returned = twoEnvelopes.reverse.map some := by
  obtain ⟨s, reachable, two⟩ := returns_cached (fun _ => 0) (fun _ => 1) fitsFrame_two
    incompleteFrame_magic false (le_refl 2) (by decide : 2 ≤ (Player.initialLevel 1).toNat)
  have returned := results_eq_replay (fun _ => 0) (fun _ => 1) fitsFrame_two
    incompleteFrame_magic false reachable
  refine ⟨s, reachable, two, returned.trans ?_⟩
  rw [two]
  rfl

/-! ## A late background thread -/

/-- An envelope that is not in the cache is replaced by a default-constructed one. -/
theorem reachable_initial {M : TransitionSystem ThreadedPlayer}
    (steps : ∀ s s', Step uninit entriesPerSecond s s' → M.step s s') {s : ThreadedPlayer}
    (reachable : M.Reachable s) (idle : s.replayThread = .idle) {k : Nat}
    (positioned : s.player.Positioned R k) (inside : k < R.entries.length)
    (used : s.player.nextEntryToReadFromRecFile = k) (started : 0 < k) :
    ∃ s', M.Reachable s' ∧ (true, Envelope.initial) ∈ s'.results := by
  have previous : s.player.envelopeCache.find R.entries[k - 1].1 = some R.entries[k - 1].2 := by
    rw [positioned.caching.cached (k - 1) (by omega)]
    exact if_pos ⟨le_rfl, by omega⟩
  have absent : s.player.envelopeCache.find R.entries[k].1 = none := by
    rw [positioned.caching.cached k inside]
    exact if_neg (by omega)
  have ready := reachable_replayCurrent uninit entriesPerSecond (fun _ _ _ => steps _ _) reachable
    idle positioned inside (KeyValueMap.length_pos_of_find previous).ne'
  have current := Player.getElem_index inside
  have before := Player.getElem_index (R := R) (i := k - 1) (by omega)
  rw [← positioned.caching.index_eq] at current before
  obtain ⟨p', returned⟩ : ∃ p', s.player.replayCurrentEnvelope = some (Envelope.initial, p') := by
    simp only [Player.replayCurrentEnvelope, positioned.current_eq, positioned.previous_eq,
      current, before, Option.bind_eq_bind, Option.bind_some, KeyValueMap.getOrInsert, absent,
      Option.getD_none]
    exact ⟨_, rfl⟩
  refine ⟨_, ready.next (steps _ _ (.replayCurrent rfl returned)), ?_⟩
  simp [answer]

/-- **A late background thread.** If the recording has more envelopes than are cached at the
beginning, a default-constructed envelope can be returned. -/
theorem returns_initial {es : List Envelope.Values} (fits : ∀ e ∈ es, FitsFrame e)
    {tail : Bytes} (incomplete : IncompleteFrame tail) (autoRewind : Bool)
    (more : (Player.initialLevel
      (entriesPerSecond (recordingOf es tail fits).index)).toNat < es.length) :
    ∃ s, (system uninit entriesPerSecond (some (serializeEnvelopes es ++ tail))
      autoRewind).Reachable s ∧ (true, Envelope.initial) ∈ s.results := by
  obtain ⟨p, init, positioned, next⟩ :=
    initially_positioned uninit entriesPerSecond fits incomplete autoRewind
  rw [Nat.min_eq_right more.le] at next
  rw [← length_recordingOf es tail fits] at more
  obtain ⟨s, late, idle, atLevel, used, _⟩ :=
    reachable_late uninit entriesPerSecond
      (M := system uninit entriesPerSecond (some (serializeEnvelopes es ++ tail)) autoRewind)
      (fun _ _ _ step => step) more.le (.initially init) rfl positioned next _ le_rfl
  exact reachable_initial uninit entriesPerSecond (fun _ _ step => step) late idle atLevel more
    used (Player.initialLevel_pos _)

/-- An envelope of type 1, sampled in the given second. -/
def sampledIn (second : Nat) : Envelope.Values :=
  (1, [], TimeStamp.of 0 0, TimeStamp.of 0 0, TimeStamp.of (BitVec.ofNat 32 second) 0, 0, ())

/-- A recording with one envelope for each second. -/
def onePerSecond (n : Nat) : List Envelope.Values := (List.range n).map sampledIn

theorem fitsFrame_onePerSecond {n : Nat} {e : Envelope.Values} (h : e ∈ onePerSecond n) :
    FitsFrame e := by
  obtain ⟨i, _, rfl⟩ := List.mem_map.mp h
  have short : (Envelope.serializedData (sampledIn i)).length = 0 := rfl
  exact fitsFrame_of_length (by rw [short]; norm_num)

theorem initial_not_mem_onePerSecond (n : Nat) : Envelope.initial ∉ onePerSecond n := by
  intro h
  obtain ⟨i, _, same⟩ := List.mem_map.mp h
  have types : (1 : BitVec 32) = 0 := congrArg Envelope.dataType same
  exact absurd types (by decide)

/-- One envelope more than the player caches at the beginning is enough for it to return an
envelope that is not in the recording. -/
theorem results_ne_replay :
    ∃ s, (system (fun _ => 0) (fun _ => 2) (some (serializeEnvelopes (onePerSecond 5001) ++ [0x0D]))
        false).Reachable s ∧
      (true, Envelope.initial) ∈ s.results ∧ Envelope.initial ∉ onePerSecond 5001 ∧
      s.results.map Player.returned ≠
        replay (replayOrder (onePerSecond 5001)) false 0
          (List.replicate s.results.length .getNextEnvelopeToBeReplayed) := by
  have late : (Player.initialLevel 2).toNat < (onePerSecond 5001).length := by
    rw [onePerSecond, List.length_map, List.length_range]
    decide
  obtain ⟨s, reachable, returned⟩ :=
    returns_initial (fun _ => 0) (fun _ => 2) (fun _ => fitsFrame_onePerSecond)
      incompleteFrame_magic false late
  refine ⟨s, reachable, returned, initial_not_mem_onePerSecond 5001, fun same => ?_⟩
  have replayed := List.mem_map_of_mem (f := Player.returned) returned
  rw [same] at replayed
  exact initial_not_mem_onePerSecond 5001
    ((replayOrder_perm _).mem_iff.mp (mem_of_mem_replay _ _ _ replayed))

end ThreadedPlayer

end Cluon
