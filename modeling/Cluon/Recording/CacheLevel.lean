import Cluon.Recording.Replay
import Mathlib.Data.Rat.Floor
import Mathlib.Tactic.Linarith
import Mathlib.Tactic.Positivity

/-!
# The initial level of the cache

A player reads as many entries ahead as it replays in thirty seconds, at the mean rate of the
recording: the number of entries divided by the time between the smallest and the largest
sample time stamp. In exact arithmetic the computation is well-defined exactly if two envelopes
of the recording lie far enough apart for the number of envelopes (`cacheLevel_wellDefined_iff`).
If all stamps are equal, as in every recording of a single envelope, the divisor is zero.
-/

set_option autoImplicit false

namespace Cluon

open Library InputStream

namespace Player

/-! ## The computation -/

/-- `smallestSampleTimePoint`, behind the loop over the index. -/
def smallestSampleTimePoint (index : Multimap Int IndexEntry) : Int :=
  index.foldl (fun smallest entry => min smallest entry.1) (2 ^ 63 - 1)

/-- `largestSampleTimePoint`, behind the loop over the index. -/
def largestSampleTimePoint (index : Multimap Int IndexEntry) : Int :=
  index.foldl (fun largest entry => max largest entry.1) (-2 ^ 63)

/-- The divisor: `largestSampleTimePoint - smallestSampleTimePoint`. -/
def sampleTimeSpan (index : Multimap Int IndexEntry) : Int :=
  largestSampleTimePoint index - smallestSampleTimePoint index

/-- The entries per second, before the conversion to `uint32_t`. -/
def entriesToRead (index : Multimap Int IndexEntry) : Int :=
  ⌈(index.length : ℚ) * 1000000 / (sampleTimeSpan index : ℚ)⌉

/-- `ENTRIES_TO_READ_PER_SECOND_FOR_REALTIME_REPLAY`. -/
def entriesToReadPerSecond (index : Multimap Int IndexEntry) : BitVec 32 :=
  BitVec.ofInt 32 (entriesToRead index)

/-- The computation of the initial level divides by a number other than zero, and the entries
per second and their product with `LOOK_AHEAD_IN_S` are numbers of 32 bits. -/
structure LevelWellDefined (index : Multimap Int IndexEntry) : Prop where
  divisor_ne : sampleTimeSpan index ≠ 0
  entries_nonneg : 0 ≤ entriesToRead index
  entries_lt : entriesToRead index < 2 ^ 32
  product_lt : entriesToRead index * lookAheadInS.toNat < 2 ^ 32

/-- A well-defined level is the number of entries in thirty seconds, or 5000 if there are
fewer. -/
theorem toNat_initialLevel {index : Multimap Int IndexEntry} (h : LevelWellDefined index) :
    ((initialLevel (entriesToReadPerSecond index)).toNat : Int) =
      max (entriesToRead index * 30) 5000 := by
  have nonneg := h.entries_nonneg
  have small := h.entries_lt
  have product := h.product_lt
  have thirty : lookAheadInS.toNat = 30 := rfl
  have least : minEntriesForLookAhead.toNat = 5000 := rfl
  have entries : ((entriesToReadPerSecond index).toNat : Int) = entriesToRead index := by
    rw [entriesToReadPerSecond, BitVec.toNat_ofInt]
    omega
  have level : (entriesToReadPerSecond index * lookAheadInS).toNat =
      (entriesToReadPerSecond index).toNat * 30 := by
    rw [BitVec.toNat_mul, thirty, Nat.mod_eq_of_lt]
    rw [thirty] at product
    omega
  rw [initialLevel]
  split
  case isTrue few =>
      rw [BitVec.lt_def, level, least] at few
      omega
  case isFalse many =>
      rw [BitVec.lt_def, level, least] at many
      omega

/-! ## The smallest and the largest stamp -/

section Extrema

variable {α : Type} (f : α → Int)

theorem foldl_min_le (l : List α) (start : Int) :
    l.foldl (fun m x => min m (f x)) start ≤ start ∧
      ∀ x ∈ l, l.foldl (fun m x => min m (f x)) start ≤ f x := by
  induction l generalizing start with
  | nil => simp
  | cons y l ih =>
      obtain ⟨below, others⟩ := ih (min start (f y))
      refine ⟨below.trans (min_le_left _ _), fun x hx => ?_⟩
      rcases List.mem_cons.mp hx with rfl | hx
      · exact below.trans (min_le_right _ _)
      · exact others x hx

theorem foldl_min_mem (l : List α) (start : Int) :
    l.foldl (fun m x => min m (f x)) start = start ∨
      ∃ x ∈ l, l.foldl (fun m x => min m (f x)) start = f x := by
  induction l generalizing start with
  | nil => simp
  | cons y l ih =>
      rcases ih (min start (f y)) with same | ⟨x, hx, same⟩
      · rcases min_choice start (f y) with left | right
        · exact .inl (same.trans left)
        · exact .inr ⟨y, List.mem_cons_self, same.trans right⟩
      · exact .inr ⟨x, List.mem_cons_of_mem y hx, same⟩

/-- The maximum is the negated minimum of the negated values. -/
theorem foldl_max_eq_neg (l : List α) (start : Int) :
    l.foldl (fun m x => max m (f x)) start =
      -l.foldl (fun m x => min m (-f x)) (-start) := by
  induction l generalizing start with
  | nil => simp
  | cons y l ih => rw [List.foldl_cons, List.foldl_cons, ih, max_def, min_def]; congr 2; omega

end Extrema

/-- The stamps of envelopes are far within 64 bits. -/
theorem sampleTime_bounds (e : Envelope.Values) :
    -2 ^ 62 < sampleTime e ∧ sampleTime e < 2 ^ 62 := by
  have seconds := BitVec.toInt_lt (x := TimeStamp.seconds (Envelope.sampleTimeStamp e))
  have seconds' := BitVec.le_toInt (TimeStamp.seconds (Envelope.sampleTimeStamp e))
  have micros := BitVec.toInt_lt (x := TimeStamp.microseconds (Envelope.sampleTimeStamp e))
  have micros' := BitVec.le_toInt (TimeStamp.microseconds (Envelope.sampleTimeStamp e))
  rw [sampleTime, toMicroseconds]
  omega

variable {R : Recording}

/-- The smallest sample time point is the least stamp of an envelope. -/
theorem smallest_spec (nonempty : R.entries ≠ []) :
    (∀ x ∈ R.entries, smallestSampleTimePoint R.index ≤ sampleTime x.2) ∧
      ∃ x ∈ R.entries, smallestSampleTimePoint R.index = sampleTime x.2 := by
  have mapped : smallestSampleTimePoint R.index =
      R.entries.foldl (fun m x => min m (sampleTime x.2)) (2 ^ 63 - 1) := by
    rw [smallestSampleTimePoint, Recording.index, List.foldl_map]
  rw [mapped]
  have least := (foldl_min_le (fun x : Nat × Envelope.Values => sampleTime x.2) R.entries
    (2 ^ 63 - 1)).2
  refine ⟨least, ?_⟩
  rcases foldl_min_mem (fun x : Nat × Envelope.Values => sampleTime x.2) R.entries (2 ^ 63 - 1)
    with start | found
  · obtain ⟨x, hx⟩ := List.exists_mem_of_ne_nil _ nonempty
    have below := least x hx
    have bounds := sampleTime_bounds x.2
    omega
  · exact found

/-- The largest sample time point is the greatest stamp of an envelope. -/
theorem largest_spec (nonempty : R.entries ≠ []) :
    (∀ x ∈ R.entries, sampleTime x.2 ≤ largestSampleTimePoint R.index) ∧
      ∃ x ∈ R.entries, largestSampleTimePoint R.index = sampleTime x.2 := by
  have mapped : largestSampleTimePoint R.index =
      -R.entries.foldl (fun m x => min m (-sampleTime x.2)) (-(-2 ^ 63)) := by
    rw [largestSampleTimePoint, Recording.index, List.foldl_map]
    exact foldl_max_eq_neg _ _ _
  rw [mapped]
  have least := (foldl_min_le (fun x : Nat × Envelope.Values => -sampleTime x.2) R.entries
    (-(-2 ^ 63))).2
  refine ⟨fun x hx => ?_, ?_⟩
  · have below := least x hx
    omega
  rcases foldl_min_mem (fun x : Nat × Envelope.Values => -sampleTime x.2) R.entries (-(-2 ^ 63))
    with start | ⟨x, hx, same⟩
  · obtain ⟨x, hx⟩ := List.exists_mem_of_ne_nil _ nonempty
    have below := least x hx
    have bounds := sampleTime_bounds x.2
    omega
  · exact ⟨x, hx, by rw [same, Int.neg_neg]⟩

/-- The span is that of two envelopes, and no two are further apart; so its computation does not
overflow. -/
theorem sampleTimeSpan_spec (nonempty : R.entries ≠ []) :
    (∃ x ∈ R.entries, ∃ y ∈ R.entries,
        sampleTimeSpan R.index = sampleTime y.2 - sampleTime x.2) ∧
      (∀ x ∈ R.entries, ∀ y ∈ R.entries,
        sampleTime y.2 - sampleTime x.2 ≤ sampleTimeSpan R.index) ∧
      0 ≤ sampleTimeSpan R.index ∧ sampleTimeSpan R.index < 2 ^ 63 := by
  obtain ⟨least, x, hx, smallest⟩ := smallest_spec nonempty
  obtain ⟨greatest, y, hy, largest⟩ := largest_spec nonempty
  rw [sampleTimeSpan]
  have nonneg := least y hy
  have lower := (sampleTime_bounds x.2).1
  have upper := (sampleTime_bounds y.2).2
  refine ⟨⟨x, hx, y, hy, by rw [smallest, largest]⟩, fun a ha b hb => ?_, by omega, by omega⟩
  have below := least a ha
  have above := greatest b hb
  omega

/-! ## When the level is well-defined -/

/-- The product fits exactly if the quotient is at most 143165576, the quotient of 2^32 and 30. -/
theorem ceil_mul_lt_iff {n : Nat} {span : Int} (positive : 0 < span) :
    ⌈(n : ℚ) * 1000000 / (span : ℚ)⌉ * 30 < 2 ^ 32 ↔ (n : Int) * 1000000 ≤ 143165576 * span := by
  have positive' : (0 : ℚ) < span := by exact_mod_cast positive
  have rounded : ⌈(n : ℚ) * 1000000 / (span : ℚ)⌉ * 30 < 2 ^ 32 ↔
      ⌈(n : ℚ) * 1000000 / (span : ℚ)⌉ ≤ 143165576 := by omega
  rw [rounded, Int.ceil_le, div_le_iff₀ positive']
  norm_cast

theorem levelWellDefined_index_iff (nonempty : R.entries ≠ []) :
    LevelWellDefined R.index ↔ ∃ x ∈ R.entries, ∃ y ∈ R.entries,
      (R.entries.length : Int) * 1000000 ≤ 143165576 * (sampleTime y.2 - sampleTime x.2) := by
  obtain ⟨⟨x, hx, y, hy, attained⟩, furthest, nonneg, _⟩ := sampleTimeSpan_spec nonempty
  have some_entry : 0 < R.entries.length := List.length_pos_iff.mpr nonempty
  have entries_eq : entriesToRead R.index =
      ⌈(R.entries.length : ℚ) * 1000000 / (sampleTimeSpan R.index : ℚ)⌉ := by
    rw [entriesToRead, Recording.length_index]
  constructor
  · intro wellDefined
    have positive : 0 < sampleTimeSpan R.index :=
      lt_of_le_of_ne nonneg (Ne.symm wellDefined.divisor_ne)
    refine ⟨x, hx, y, hy, ?_⟩
    rw [← attained, ← ceil_mul_lt_iff positive, ← entries_eq]
    exact wellDefined.product_lt
  · rintro ⟨a, ha, b, hb, apart⟩
    have wide := furthest a ha b hb
    have positive : 0 < sampleTimeSpan R.index := by omega
    have product : entriesToRead R.index * 30 < 2 ^ 32 := by
      rw [entries_eq, ceil_mul_lt_iff positive]
      omega
    have nonneg' : 0 ≤ entriesToRead R.index := by
      rw [entries_eq]
      have positive' : (0 : ℚ) < sampleTimeSpan R.index := by exact_mod_cast positive
      exact Int.ceil_nonneg (by positivity)
    exact ⟨positive.ne', nonneg', by omega, product⟩

variable (uninit : Nat → Byte)

/-- **When the initial level is well-defined.** For the file of some envelopes and an incomplete
tail, the computation of the initial level is well-defined if and only if two of the envelopes
lie at least 1/143165576 seconds apart for every envelope in the file. -/
theorem cacheLevel_wellDefined_iff {tail : Bytes} (incomplete : IncompleteFrame tail)
    {es : List Envelope.Values} (fits : ∀ e ∈ es, FitsFrame e) (nonempty : es ≠ [])
    (autoRewind threading : Bool) :
    LevelWellDefined ((init autoRewind threading).initializeIndex uninit
        (some (serializeEnvelopes es ++ tail))).index ↔
      ∃ e ∈ es, ∃ e' ∈ es,
        (es.length : Int) * 1000000 ≤ 143165576 * (sampleTime e' - sampleTime e) := by
  obtain ⟨recFile, _, built⟩ :=
    initializeIndex_recordingOf uninit incomplete fits autoRewind threading
  have file : serializeEnvelopes es ++ tail = (recordingOf es tail fits).file := rfl
  have length := length_recordingOf es tail fits
  have entries : (recordingOf es tail fits).entries ≠ [] := by
    rw [← List.length_pos_iff, length]
    exact List.length_pos_iff.mpr nonempty
  have mem : ∀ e, e ∈ es ↔ ∃ x ∈ (recordingOf es tail fits).entries, x.2 = e := by
    intro e
    rw [← (replayOrder_perm es).mem_iff, ← envelopes_recordingOf es tail fits,
      Recording.envelopes, List.mem_map]
  rw [file, built]
  simp only
  rw [levelWellDefined_index_iff entries, length]
  constructor
  · rintro ⟨x, hx, y, hy, apart⟩
    exact ⟨x.2, (mem _).mpr ⟨x, hx, rfl⟩, y.2, (mem _).mpr ⟨y, hy, rfl⟩, apart⟩
  · rintro ⟨e, he, e', he', apart⟩
    obtain ⟨x, hx, rfl⟩ := (mem e).mp he
    obtain ⟨y, hy, rfl⟩ := (mem e').mp he'
    exact ⟨x, hx, y, hy, apart⟩

theorem cacheLevel_wellDefined_two :
    LevelWellDefined ((init false false).initializeIndex (fun _ => 0)
      (some (serializeEnvelopes twoEnvelopes ++ [0x0D]))).index := by
  refine (cacheLevel_wellDefined_iff (fun _ => 0) incompleteFrame_magic fitsFrame_two
    (by decide) false false).mpr ?_
  exact ⟨_, List.mem_cons_of_mem _ List.mem_cons_self, _, List.mem_cons_self, by decide⟩

/-- The divisor is zero for every recording of a single envelope. -/
theorem not_levelWellDefined :
    ¬ LevelWellDefined ((init false false).initializeIndex (fun _ => 0)
        (some (serializeEnvelopes [Envelope.initial] ++ [0x0D]))).index := by
  intro wellDefined
  have fits : ∀ e ∈ [Envelope.initial], FitsFrame e := by simp [fitsFrame_initial]
  obtain ⟨recFile, _, built⟩ :=
    initializeIndex_recordingOf (fun _ => 0) incompleteFrame_magic fits false false
  have divisor := wellDefined.divisor_ne
  have file : serializeEnvelopes [Envelope.initial] ++ [0x0D] =
      (recordingOf [Envelope.initial] [0x0D] fits).file := rfl
  rw [file, built] at divisor
  exact divisor rfl

end Player

end Cluon
