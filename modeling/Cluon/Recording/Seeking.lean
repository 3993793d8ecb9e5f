import Cluon.Recording.Delay
import Cluon.Recording.Refilling
import Mathlib.Data.Rat.Floor
import Mathlib.Tactic.Linarith

/-!
# Seeking in a recording

`seekTo` moves a player to the place in the recording that a ratio between zero and one stands
for. It empties the cache, moves the current entry forward from the beginning, fills the cache
from there on, and returns one envelope, unless the ratio is zero or one. The number of entries
to move forward is one less than the product of ratio and number of entries, computed in 32 bits:
if the product is less than one, it becomes 2^32 - 1, and the iterator is moved past the end of
the index.

Whatever the player did before, seeking leads to the envelope asked for exactly if the ratio is
zero or the product is at least one (`seekTo_iff`), apart from recordings of 2^32 envelopes or
more, whose number does not fit into 32 bits.
-/

set_option autoImplicit false

namespace Cluon

open Library InputStream TransitionSystem

namespace Player

variable (uninit : Nat → Byte) (entriesPerSecond : Multimap Int IndexEntry → BitVec 32)

/-! ## The method -/

/-- The bound of the loop of `seekTo`: what the product of ratio and number of entries is in 32
bits, less one. The product is exact here, where the program rounds a `float`. -/
def seekBound (numberOfEntries : Nat) (ratio : ℚ) : Nat :=
  (BitVec.ofInt 32 ⌊((BitVec.ofNat 32 numberOfEntries).toNat : ℚ) * ratio⌋ - 1#32).toNat

/-- The loop that moves the current envelope forward. It is undefined if the iterator is moved
past the end of the index. -/
def fastForward : (rounds : Nat) → Player → Option Player
  | 0, p => some p
  | rounds + 1, p =>
      if p.currentEnvelopeToReplay < p.index.length then
        fastForward rounds
          { p with
            currentEnvelopeToReplay := p.currentEnvelopeToReplay + 1
            numberOfReturnedEnvelopesInTotal := p.numberOfReturnedEnvelopesInTotal + 1 }
      else none

/-- The player at the beginning of the index, for a ratio that is not zero moved forward. -/
def moveTo (ratio : ℚ) (p : Player) : Option Player :=
  let p₁ := { p with threading := false }.resetCaches.resetIterators
  if 0 < ratio then fastForward (seekBound p₁.index.length ratio) p₁ else some p₁

/-- The cache is filled anew from the current entry on, with three tenths of the initial level. -/
def refillFromCurrent (fuel : Nat) (p : Player) : Option Player :=
  (fillEnvelopeCache uninit fuel (p.desiredInitialLevel.toNat * 3 / 10)
    { p with
      nextEntryToReadFromRecFile := p.currentEnvelopeToReplay
      previousEnvelopeAlreadyReplayed := p.currentEnvelopeToReplay
      envelopeCache := [] }).map Prod.snd

/-- The iterators are corrected if not at the beginning: an envelope is returned. -/
def correctIterators (fuel : Nat) (ratio : ℚ) (p : Player) : Option Player :=
  if 0 < ratio ∧ ratio < 1 then
    (getNextEnvelopeToBeReplayed uninit entriesPerSecond fuel p).map Prod.snd
  else some p

/-- `seekTo(ratio)`, without stopping and starting the background thread. -/
def seekTo (fuel : Nat) (ratio : ℚ) (p : Player) : Option Player :=
  if ¬ ratio < 0 ∧ ¬ ratio > 1 then do
    let p₁ ← moveTo ratio p
    let p₂ ← refillFromCurrent uninit fuel p₁
    let p₃ ← correctIterators uninit entriesPerSecond fuel ratio p₂
    some { p₃ with threading := p.threading }
  else some p

/-! ## What no operation changes -/

/-- The player has the recording open, and if there is something to replay, the initial level of
its cache is at least 5000. -/
structure OpenedOn (R : Recording) (p : Player) : Prop where
  valid : p.recFileValid = true
  data_eq : p.recFile.data = R.file
  index_eq : p.index = R.index
  level : 0 < R.entries.length → 5000 ≤ p.desiredInitialLevel.toNat

theorem data_seekg (is : InputStream) (p : Nat) : (is.seekg p).data = is.data := by
  rw [seekg]
  split <;> rfl

theorem toNat_initialLevel_ge (entriesToReadPerSecond : BitVec 32) :
    5000 ≤ (initialLevel entriesToReadPerSecond).toNat := by
  have least : minEntriesForLookAhead.toNat = 5000 := rfl
  rw [initialLevel]
  split
  case isTrue => exact least.ge
  case isFalse enough => exact least ▸ BitVec.le_def.mp (BitVec.not_lt.mp enough)

namespace OpenedOn

variable {R : Recording}

theorem fillEnvelopeCacheLoop {max fuel : Nat} :
    ∀ {entriesRead read : Nat} {p p' : Player}, OpenedOn R p →
      fillEnvelopeCacheLoop uninit max fuel entriesRead p = some (read, p') → OpenedOn R p' := by
  induction fuel with
  | zero => intro _ _ _ _ _ h; cases h
  | succ fuel ih =>
      intro entriesRead read p p' opened h
      rw [Player.fillEnvelopeCacheLoop] at h
      cases hp : p.index[p.nextEntryToReadFromRecFile]? with
      | none =>
          rw [hp] at h
          obtain ⟨-, rfl⟩ := Prod.mk.inj (Option.some.inj h)
          exact opened
      | some entry =>
          have data : (extractEnvelope uninit
              (p.recFile.seekg entry.2.filePosition)).2.data = R.file := by
            rw [data_extractEnvelope, data_seekg, opened.data_eq]
          simp only [hp] at h
          split at h
          · split at h
            · refine ih ?_ h
              exact ⟨opened.valid, data, opened.index_eq, opened.level⟩
            · refine ih ?_ h
              exact ⟨opened.valid, data, opened.index_eq, opened.level⟩
          · obtain ⟨-, rfl⟩ := Prod.mk.inj (Option.some.inj h)
            exact opened

theorem fillEnvelopeCache {max fuel read : Nat} {p p' : Player} (opened : OpenedOn R p)
    (h : fillEnvelopeCache uninit fuel max p = some (read, p')) : OpenedOn R p' := by
  rw [Player.fillEnvelopeCache] at h
  split at h
  · refine fillEnvelopeCacheLoop uninit ?_ h
    exact ⟨opened.valid, opened.data_eq, opened.index_eq, opened.level⟩
  · obtain ⟨-, rfl⟩ := Prod.mk.inj (Option.some.inj h)
    exact opened

/-- The beginning of a pass sets the initial level. -/
theorem computeInitialCacheLevelAndFillCache {fuel : Nat} {p p' : Player}
    (valid : p.recFileValid = true) (data : p.recFile.data = R.file) (index : p.index = R.index)
    (h : p.computeInitialCacheLevelAndFillCache uninit entriesPerSecond fuel = some p') :
    OpenedOn R p' := by
  rw [Player.computeInitialCacheLevelAndFillCache] at h
  split at h
  case isTrue started =>
      simp only [Option.bind_eq_bind, Option.bind_eq_some_iff, Option.some.injEq] at h
      obtain ⟨⟨read, p₁⟩, filled, rfl⟩ := h
      refine OpenedOn.fillEnvelopeCache uninit ?_ filled
      exact ⟨valid, data, index, fun _ => toNat_initialLevel_ge _⟩
  case isFalse empty =>
      obtain rfl := Option.some.inj h
      refine ⟨valid, data, index, fun positive => absurd ?_ empty⟩
      rw [valid, index, Recording.length_index, Bool.true_and]
      exact decide_eq_true positive

theorem replayCurrentEnvelope {p p' : Player} {e : Envelope.Values} (opened : OpenedOn R p)
    (h : p.replayCurrentEnvelope = some (e, p')) : OpenedOn R p' := by
  simp only [Player.replayCurrentEnvelope, Option.bind_eq_bind, Option.bind_eq_some_iff,
    Option.some.injEq, Prod.mk.injEq] at h
  obtain ⟨_, _, _, _, -, rfl⟩ := h
  exact ⟨opened.valid, opened.data_eq, opened.index_eq, opened.level⟩

theorem replayNextEnvelope {fuel : Nat} {p p' : Player} {result : Bool × Envelope.Values}
    (opened : OpenedOn R p) (h : replayNextEnvelope uninit fuel p = some (result, p')) :
    OpenedOn R p' := by
  rw [Player.replayNextEnvelope] at h
  split at h
  · simp only [Option.bind_eq_bind, Option.bind_eq_some_iff] at h
    obtain ⟨-, -, ⟨e, p₁⟩, returned, h⟩ := h
    have opened₁ := opened.replayCurrentEnvelope returned
    split at h
    · obtain ⟨-, rfl⟩ := Prod.mk.inj (Option.some.inj h)
      exact opened₁
    · simp only [Option.bind_eq_some_iff, Option.some.injEq, Prod.mk.injEq] at h
      obtain ⟨⟨read, p₂⟩, filled, -, rfl⟩ := h
      exact opened₁.fillEnvelopeCache uninit filled
  · obtain ⟨-, rfl⟩ := Prod.mk.inj (Option.some.inj h)
    exact opened

theorem getNextEnvelopeToBeReplayed {fuel : Nat} {p p' : Player}
    {result : Bool × Envelope.Values} (opened : OpenedOn R p)
    (h : getNextEnvelopeToBeReplayed uninit entriesPerSecond fuel p = some (result, p')) :
    OpenedOn R p' := by
  rw [Player.getNextEnvelopeToBeReplayed] at h
  split at h
  · split at h
    · simp only [Option.bind_eq_bind, Option.bind_eq_some_iff] at h
      obtain ⟨p₁, rewound, h⟩ := h
      exact (OpenedOn.computeInitialCacheLevelAndFillCache uninit entriesPerSecond opened.valid
        opened.data_eq opened.index_eq rewound).replayNextEnvelope uninit h
    · obtain ⟨-, rfl⟩ := Prod.mk.inj (Option.some.inj h)
      exact opened
  · exact opened.replayNextEnvelope uninit h

theorem fastForward {rounds : Nat} :
    ∀ {p p' : Player}, OpenedOn R p → p.fastForward rounds = some p' → OpenedOn R p' := by
  induction rounds with
  | zero =>
      intro p p' opened h
      obtain rfl := Option.some.inj h
      exact opened
  | succ rounds ih =>
      intro p p' opened h
      rw [Player.fastForward] at h
      split at h
      · refine ih ?_ h
        exact ⟨opened.valid, opened.data_eq, opened.index_eq, opened.level⟩
      · cases h

theorem seekTo {fuel : Nat} {ratio : ℚ} {p p' : Player} (opened : OpenedOn R p)
    (h : seekTo uninit entriesPerSecond fuel ratio p = some p') : OpenedOn R p' := by
  rw [Player.seekTo] at h
  split at h
  · simp only [Option.bind_eq_bind, Option.bind_eq_some_iff, Option.some.injEq] at h
    obtain ⟨p₁, moved, p₂, refilled, p₃, corrected, rfl⟩ := h
    have start : OpenedOn R { p with threading := false }.resetCaches.resetIterators :=
      ⟨opened.valid, opened.data_eq, opened.index_eq, opened.level⟩
    have opened₁ : OpenedOn R p₁ := by
      rw [moveTo] at moved
      split at moved
      · exact start.fastForward moved
      · obtain rfl := Option.some.inj moved
        exact start
    have opened₂ : OpenedOn R p₂ := by
      obtain ⟨⟨read, q⟩, filled, rfl⟩ := Option.map_eq_some_iff.mp refilled
      refine OpenedOn.fillEnvelopeCache uninit ?_ filled
      exact ⟨opened₁.valid, opened₁.data_eq, opened₁.index_eq, opened₁.level⟩
    have opened₃ : OpenedOn R p₃ := by
      rw [correctIterators] at corrected
      split at corrected
      · obtain ⟨⟨result, q⟩, got, rfl⟩ := Option.map_eq_some_iff.mp corrected
        exact opened₂.getNextEnvelopeToBeReplayed uninit entriesPerSecond got
      · obtain rfl := Option.some.inj corrected
        exact opened₂
    exact ⟨opened₃.valid, opened₃.data_eq, opened₃.index_eq, opened₃.level⟩
  · obtain rfl := Option.some.inj h
    exact opened

end OpenedOn

/-! ## Where seeking leads -/

/-- The place in the recording that a ratio stands for. -/
def seekPosition (n : Nat) (ratio : ℚ) : Nat := min ⌊(n : ℚ) * ratio⌋.toNat (n - 1)

/-- The ratio is zero, or the product of ratio and number of entries is at least one and the
number has 32 bits; or the number is greater, and the product with what it is in 32 bits is less
than one while the product itself is between 2^32 and 2^32 + 1. -/
def SeekDefined (n : Nat) (ratio : ℚ) : Prop :=
  ratio = 0 ∨ (n < 2 ^ 32 ∧ 1 ≤ (n : ℚ) * ratio) ∨
    (((n % 2 ^ 32 : Nat) : ℚ) * ratio < 1 ∧ ⌊(n : ℚ) * ratio⌋ = 2 ^ 32)

theorem seekPosition_mono (n : Nat) {r r' : ℚ} (le : r ≤ r') :
    seekPosition n r ≤ seekPosition n r' := by
  have product : (n : ℚ) * r ≤ n * r' := mul_le_mul_of_nonneg_left le (Nat.cast_nonneg n)
  exact min_le_min_right _ (Int.toNat_le_toNat (Int.floor_le_floor product))

theorem seekPosition_lt {n : Nat} (positive : 0 < n) (ratio : ℚ) : seekPosition n ratio < n := by
  have le := Nat.min_le_right ⌊(n : ℚ) * ratio⌋.toNat (n - 1)
  rw [seekPosition]
  omega

section Arithmetic

variable {n : Nat} {r : ℚ}

/-- The floor of a product with a ratio is between zero and the number. -/
theorem floor_mul_bounds (m : Nat) (h₀ : 0 ≤ r) (h₁ : r ≤ 1) :
    0 ≤ ⌊(m : ℚ) * r⌋ ∧ ⌊(m : ℚ) * r⌋ ≤ m := by
  have m₀ : (0 : ℚ) ≤ m := Nat.cast_nonneg m
  constructor
  · exact Int.floor_nonneg.mpr (mul_nonneg m₀ h₀)
  · have le : (m : ℚ) * r ≤ m := mul_le_of_le_one_right m₀ h₁
    have floored := Int.floor_le_floor le
    rwa [Int.floor_natCast] at floored

/-- The bound of the loop: the floor of the product less one, or 2^32 - 1. -/
theorem seekBound_eq (h₀ : 0 ≤ r) (h₁ : r ≤ 1) :
    (seekBound n r : Int) =
      if ⌊((n % 2 ^ 32 : Nat) : ℚ) * r⌋ = 0 then 2 ^ 32 - 1
      else ⌊((n % 2 ^ 32 : Nat) : ℚ) * r⌋ - 1 := by
  obtain ⟨lower, upper⟩ := floor_mul_bounds (n % 2 ^ 32) h₀ h₁
  have small : n % 2 ^ 32 < 2 ^ 32 := Nat.mod_lt _ (by norm_num)
  rw [seekBound, BitVec.toNat_ofNat]
  generalize ⌊((n % 2 ^ 32 : Nat) : ℚ) * r⌋ = k at lower upper ⊢
  rw [BitVec.toNat_sub, BitVec.toNat_ofInt]
  have one : (1#32).toNat = 1 := rfl
  rw [one]
  split <;> omega

/-- A ratio less than one stands for a place before the last entry or at it. -/
theorem floor_mul_lt (positive : 0 < n) (less : r < 1) : ⌊(n : ℚ) * r⌋ < n := by
  have n₀ : (0 : ℚ) < n := Nat.cast_pos.mpr positive
  rw [Int.floor_lt]
  exact mul_lt_of_lt_one_right n₀ less

/-- If the loop would move past the end, the condition does not hold. -/
theorem not_seekDefined_of_le (positive : 0 < r) (h₁ : r ≤ 1) (le : n ≤ seekBound n r) :
    ¬ SeekDefined n r := by
  have bound := seekBound_eq (n := n) positive.le h₁
  obtain ⟨_, upper⟩ := floor_mul_bounds (r := r) (n % 2 ^ 32) positive.le h₁
  obtain ⟨_, upper'⟩ := floor_mul_bounds (r := r) n positive.le h₁
  have reduced := Nat.mod_le n (2 ^ 32)
  rintro (zero | ⟨small, one⟩ | ⟨_, large⟩)
  · exact positive.ne' zero
  · rw [Nat.mod_eq_of_lt small] at bound upper
    have atLeast : 1 ≤ ⌊(n : ℚ) * r⌋ := Int.le_floor.mpr (by exact_mod_cast one)
    rw [if_neg (by omega)] at bound
    omega
  · split at bound <;> omega

/-- If the loop moves exactly to the end, the ratio stands for the beginning. -/
theorem seekPosition_of_eq (positive : 0 < r) (h₁ : r ≤ 1) (eq : seekBound n r = n) :
    seekPosition n r = 0 ∧ 0 < n := by
  have bound := seekBound_eq (n := n) positive.le h₁
  obtain ⟨_, upper⟩ := floor_mul_bounds (r := r) (n % 2 ^ 32) positive.le h₁
  have reduced := Nat.mod_le n (2 ^ 32)
  split at bound
  case isTrue zero =>
      have size : n = 2 ^ 32 - 1 := by omega
      rw [Nat.mod_eq_of_lt (by omega)] at zero
      rw [seekPosition, zero]
      exact ⟨by simp, by omega⟩
  case isFalse => omega

/-- Beyond 32 bits, the product with what the number is in 32 bits is at most half the product. -/
theorem floor_mod_mul_le (positive : 0 < r) (large : 2 ^ 32 ≤ n) :
    2 * ⌊((n % 2 ^ 32 : Nat) : ℚ) * r⌋ ≤ ⌊(n : ℚ) * r⌋ := by
  have twice : 2 * ((n % 2 ^ 32 : Nat) : ℚ) ≤ (n : ℚ) := by
    have le : 2 * (n % 2 ^ 32) ≤ n := by omega
    exact_mod_cast le
  have scaled := mul_le_mul_of_nonneg_right twice positive.le
  have floored := Int.floor_le (((n % 2 ^ 32 : Nat) : ℚ) * r)
  rw [Int.le_floor, Int.cast_mul, Int.cast_ofNat]
  linarith

/-- A product with a ratio is less than one exactly if its floor is zero. -/
theorem mul_lt_one_iff (m : Nat) (h₀ : 0 ≤ r) (h₁ : r ≤ 1) :
    (m : ℚ) * r < 1 ↔ ⌊(m : ℚ) * r⌋ = 0 := by
  have bounds := floor_mul_bounds (r := r) m h₀ h₁
  have less := Int.floor_lt (z := 1) (a := (m : ℚ) * r)
  rw [Int.cast_one] at less
  rw [← less]
  omega

/-- **Where the loop leads** is the place the ratio stands for exactly under the condition. -/
theorem reached_eq_seekPosition_iff (positive : 0 < r) (h₁ : r ≤ 1) (inside : seekBound n r < n) :
    (if r < 1 then seekBound n r + 1 else seekBound n r) = seekPosition n r ↔ SeekDefined n r := by
  have bound := seekBound_eq (n := n) positive.le h₁
  obtain ⟨lower, upper⟩ := floor_mul_bounds (r := r) (n % 2 ^ 32) positive.le h₁
  obtain ⟨lower', upper'⟩ := floor_mul_bounds (r := r) n positive.le h₁
  have below : r < 1 → ⌊(n : ℚ) * r⌋ < n := floor_mul_lt (by omega)
  have whole (m : Nat) : ¬ r < 1 → ⌊(m : ℚ) * r⌋ = m := by
    intro notLess
    rw [le_antisymm h₁ (not_lt.mp notLess), mul_one, Int.floor_natCast]
  have whole' := whole (n % 2 ^ 32)
  have whole := whole n
  have half := floor_mod_mul_le (n := n) positive
  have same : n < 2 ^ 32 → ⌊((n % 2 ^ 32 : Nat) : ℚ) * r⌋ = ⌊(n : ℚ) * r⌋ := by
    intro fits
    rw [Nat.mod_eq_of_lt fits]
  have one_le_iff : 1 ≤ (n : ℚ) * r ↔ 1 ≤ ⌊(n : ℚ) * r⌋ := by
    rw [← not_lt, mul_lt_one_iff n positive.le h₁]
    omega
  rw [SeekDefined, or_iff_right positive.ne', mul_lt_one_iff _ positive.le h₁, one_le_iff,
    seekPosition]
  generalize ⌊((n % 2 ^ 32 : Nat) : ℚ) * r⌋ = product at *
  generalize ⌊(n : ℚ) * r⌋ = product' at *
  generalize seekBound n r = bound' at *
  by_cases less : r < 1
  · have below := below less
    rw [if_pos less]
    split at bound <;> omega
  · have whole := whole less
    have whole' := whole' less
    rw [if_neg less]
    split at bound <;> omega

end Arithmetic

/-! ## What the parts of the method do -/

section Parts

variable {R : Recording}

/-- The loop moves the current envelope as many entries forward as it has rounds, or past the
end. -/
theorem fastForward_eq (rounds : Nat) : ∀ p : Player,
    fastForward rounds p =
      if p.currentEnvelopeToReplay + rounds ≤ p.index.length ∨ rounds = 0 then
        some { p with
          currentEnvelopeToReplay := p.currentEnvelopeToReplay + rounds
          numberOfReturnedEnvelopesInTotal :=
            p.numberOfReturnedEnvelopesInTotal + BitVec.ofNat 64 rounds }
      else none := by
  induction rounds with
  | zero => intro p; simp [fastForward]
  | succ rounds ih =>
      intro p
      rw [fastForward]
      by_cases inside : p.currentEnvelopeToReplay < p.index.length
      · have counted : p.numberOfReturnedEnvelopesInTotal + 1 + BitVec.ofNat 64 rounds =
            p.numberOfReturnedEnvelopesInTotal + BitVec.ofNat 64 (rounds + 1) := by
          rw [BitVec.ofNat_add, BitVec.add_assoc, BitVec.add_comm (BitVec.ofNat 64 rounds)]
          rfl
        rw [if_pos inside, ih]
        simp only [counted, Nat.add_assoc, Nat.add_comm 1]
        exact if_congr (by omega) rfl rfl
      · rw [if_neg inside, if_neg (by omega)]

/-- The cache has been filled from the current entry on, and no envelope returned yet. -/
structure Arrived (R : Recording) (cursor : Nat) (p : Player) : Prop where
  caching : p.Caching R cursor
  current_eq : p.currentEnvelopeToReplay = cursor
  previous_eq : p.previousEnvelopeAlreadyReplayed = cursor
  previousPrevious_eq : p.previousPreviousEnvelopeAlreadyReplayed = R.entries.length

theorem Arrived.find_current {cursor : Nat} {p : Player} (arrived : p.Arrived R cursor)
    (inside : cursor < R.entries.length) (filled : cursor < p.nextEntryToReadFromRecFile) :
    p.envelopeCache.find R.entries[cursor].1 = some R.entries[cursor].2 := by
  rw [arrived.caching.cached cursor inside]
  exact if_pos ⟨le_rfl, filled⟩

/-- The section under the mutex returns the current entry and drops none. -/
theorem Arrived.replayCurrentEnvelope_spec {cursor : Nat} {p : Player}
    (arrived : p.Arrived R cursor) (inside : cursor < R.entries.length)
    (filled : cursor < p.nextEntryToReadFromRecFile) :
    ∃ p', p.replayCurrentEnvelope = some (R.entries[cursor].2, p') ∧
      p'.Positioned R (cursor + 1) ∧ p'.threading = p.threading ∧
      p'.nextEntryToReadFromRecFile = p.nextEntryToReadFromRecFile := by
  have caching := arrived.caching
  have present := arrived.find_current inside filled
  have current := getElem_index inside
  rw [← caching.index_eq] at current
  have unchanged : p.envelopeCache.getOrInsert R.entries[cursor].1 Envelope.initial =
      (R.entries[cursor].2, p.envelopeCache) := by
    rw [KeyValueMap.getOrInsert, KeyValueMap.emplace_present present, present]
    rfl
  have noneDropped : p.previousPreviousEnvelopeAlreadyReplayed = p.index.length := by
    rw [arrived.previousPrevious_eq, caching.index_eq, Recording.length_index]
  simp only [replayCurrentEnvelope, arrived.current_eq, arrived.previous_eq, current,
    Option.bind_eq_bind, Option.bind_some, unchanged, noneDropped, ne_eq, not_true_eq_false,
    if_false]
  refine ⟨_, rfl, ⟨⟨caching.valid, caching.data_eq, caching.index_eq, caching.first_le,
    caching.next_le, caching.cached⟩, inside, rfl, rfl, ?_⟩, rfl, rfl⟩
  simp only
  omega

/-- The current entry is in the cache, and is what is returned next. -/
structure Ready (R : Recording) (cursor : Nat) (p : Player) : Prop where
  index_eq : p.index = R.index
  current_eq : p.currentEnvelopeToReplay = cursor
  returns : ∃ (inside : cursor < R.entries.length) (p' : Player),
    p.envelopeCache.find R.entries[cursor].1 = some R.entries[cursor].2 ∧
      p.replayCurrentEnvelope = some (R.entries[cursor].2, p') ∧ p'.Positioned R (cursor + 1)

theorem Arrived.ready {cursor : Nat} {p : Player} (arrived : p.Arrived R cursor)
    (inside : cursor < R.entries.length) (filled : cursor < p.nextEntryToReadFromRecFile) :
    p.Ready R cursor := by
  obtain ⟨p', returned, positioned, _⟩ := arrived.replayCurrentEnvelope_spec inside filled
  exact ⟨arrived.caching.index_eq, arrived.current_eq, inside, p',
    arrived.find_current inside filled, returned, positioned⟩

theorem Positioned.ready {cursor : Nat} {p : Player} (positioned : p.Positioned R cursor)
    (inside : cursor < R.entries.length) (filled : cursor < p.nextEntryToReadFromRecFile) :
    p.Ready R cursor := by
  obtain ⟨p', returned, positioned', _⟩ := positioned.replayCurrentEnvelope_spec inside filled
  exact ⟨positioned.caching.index_eq, positioned.current_eq, inside, p',
    positioned.find_current inside filled, returned, positioned'⟩

/-- The next call returns the current entry. -/
theorem Ready.getNext {cursor fuel : Nat} {p : Player} (ready : p.Ready R cursor)
    (enough : R.entries.length < fuel) :
    ∃ (inside : cursor < R.entries.length) (p' : Player),
      getNextEnvelopeToBeReplayed uninit entriesPerSecond fuel p =
        some ((true, R.entries[cursor].2), p') := by
  obtain ⟨inside, p₁, present, returned, positioned⟩ := ready.returns
  have notAtEnd : p.currentEnvelopeToReplay ≠ p.index.length := by
    rw [ready.current_eq, ready.index_eq, Recording.length_index]
    omega
  obtain ⟨p', ran, _⟩ :=
    replayNextEnvelope_of_returned uninit notAtEnd present returned positioned enough
  refine ⟨inside, p', ?_⟩
  rw [getNextEnvelopeToBeReplayed, if_neg notAtEnd, ran]

/-- **Filling the cache from the current entry on.** -/
theorem refillFromCurrent_spec {cursor fuel : Nat} {p : Player} (opened : OpenedOn R p)
    (current : p.currentEnvelopeToReplay = cursor) (le : cursor ≤ R.entries.length)
    (previousPrevious : p.previousPreviousEnvelopeAlreadyReplayed = R.entries.length)
    (enough : R.entries.length < fuel) :
    ∃ p', refillFromCurrent uninit fuel p = some p' ∧ p'.Arrived R cursor ∧
      p'.threading = p.threading ∧ p'.autoRewind = p.autoRewind ∧
      (cursor < R.entries.length → cursor < p'.nextEntryToReadFromRecFile) := by
  subst current
  have caching : Caching R p.currentEnvelopeToReplay
      { p with
        nextEntryToReadFromRecFile := p.currentEnvelopeToReplay
        previousEnvelopeAlreadyReplayed := p.currentEnvelopeToReplay
        envelopeCache := [] } :=
    ⟨opened.valid, opened.data_eq, opened.index_eq, le_rfl, le,
      fun i h => (if_neg (by simp only; omega)).symm⟩
  obtain ⟨read, p', run, caching', filled, next⟩ :=
    fillEnvelopeCache_spec uninit caching ((Nat.sub_le _ _).trans_lt enough)
      (p.desiredInitialLevel.toNat * 3 / 10)
  refine ⟨p', ?_, ⟨caching', filled.current_eq, filled.previous_eq,
    filled.previousPrevious_eq.trans previousPrevious⟩, filled.threading_eq,
    filled.autoRewind_eq, fun inside => ?_⟩
  · rw [refillFromCurrent, run]
    rfl
  · have level := opened.level (by omega)
    simp only at next
    omega

end Parts

/-! ## Seeking -/

section Seek

variable {R : Recording}

/-- The player when it is moved forward. -/
theorem moveTo_spec {ratio : ℚ} {p : Player} (opened : OpenedOn R p) {rounds : Nat}
    (bound : rounds = if 0 < ratio then seekBound R.entries.length ratio else 0) :
    if rounds ≤ R.entries.length then
      ∃ p', moveTo ratio p = some p' ∧ OpenedOn R p' ∧ p'.currentEnvelopeToReplay = rounds ∧
        p'.previousPreviousEnvelopeAlreadyReplayed = R.entries.length ∧ p'.threading = false ∧
        p'.autoRewind = p.autoRewind
    else moveTo ratio p = none := by
  have length : p.index.length = R.entries.length := by
    rw [opened.index_eq, Recording.length_index]
  have start : OpenedOn R { p with threading := false }.resetCaches.resetIterators :=
    ⟨opened.valid, opened.data_eq, opened.index_eq, opened.level⟩
  rw [moveTo]
  by_cases positive : 0 < ratio
  · rw [if_pos positive] at bound
    have forward := fastForward_eq rounds
      { p with threading := false }.resetCaches.resetIterators
    simp only [if_pos positive]
    have sameIndex : ({ p with threading := false }.resetCaches.resetIterators).index.length =
        R.entries.length := length
    rw [sameIndex, ← bound, forward, sameIndex]
    by_cases inside : rounds ≤ R.entries.length
    · rw [if_pos inside, if_pos (.inl (by simpa [resetIterators] using inside))]
      refine ⟨_, rfl, ⟨start.valid, start.data_eq, start.index_eq, start.level⟩, ?_, length, rfl,
        rfl⟩
      exact Nat.zero_add rounds
    · rw [if_neg inside, if_neg]
      simp only [resetIterators]
      omega
  · rw [if_neg positive] at bound
    subst bound
    simp only [if_neg positive, Nat.zero_le, if_true]
    exact ⟨_, rfl, start, rfl, length, rfl, rfl⟩

/-- Beyond the end the iterator cannot be moved. -/
theorem seekTo_none {ratio : ℚ} {fuel : Nat} {p : Player} (opened : OpenedOn R p)
    (positive : 0 < ratio) (h₁ : ratio ≤ 1)
    (past : R.entries.length < seekBound R.entries.length ratio) :
    seekTo uninit entriesPerSecond fuel ratio p = none := by
  have bound : seekBound R.entries.length ratio =
      if 0 < ratio then seekBound R.entries.length ratio else 0 := (if_pos positive).symm
  have moved := moveTo_spec opened bound
  rw [if_neg (by omega)] at moved
  rw [seekTo, if_pos ⟨not_lt.mpr positive.le, not_lt.mpr h₁⟩, moved]
  rfl

/-- **What seeking does** if the iterator is not moved past the end: the cache is filled from the
place where the loop ends, and between zero and one an envelope is returned. -/
theorem seekTo_spec {ratio : ℚ} {fuel rounds : Nat} {p : Player} (opened : OpenedOn R p)
    (h₀ : 0 ≤ ratio) (h₁ : ratio ≤ 1)
    (bound : rounds = if 0 < ratio then seekBound R.entries.length ratio else 0)
    (inside : rounds ≤ R.entries.length) (enough : R.entries.length < fuel) :
    ∃ p₂, p₂.Arrived R rounds ∧ p₂.threading = false ∧
      (rounds < R.entries.length → rounds < p₂.nextEntryToReadFromRecFile) ∧
      seekTo uninit entriesPerSecond fuel ratio p =
        (correctIterators uninit entriesPerSecond fuel ratio p₂).map fun p₃ =>
          { p₃ with threading := p.threading } := by
  have moved := moveTo_spec opened bound
  rw [if_pos inside] at moved
  obtain ⟨p₁, moved, opened₁, current, previousPrevious, notThreading, _⟩ := moved
  obtain ⟨p₂, refilled, arrived, threading, _, ahead⟩ :=
    refillFromCurrent_spec uninit opened₁ current inside previousPrevious enough
  refine ⟨p₂, arrived, threading.trans notThreading, ahead, ?_⟩
  rw [seekTo, if_pos ⟨not_lt.mpr h₀, not_lt.mpr h₁⟩, moved]
  simp only [Option.bind_eq_bind, Option.bind_some, refilled]
  cases correctIterators uninit entriesPerSecond fuel ratio p₂ <;> rfl

/-- At zero and one no envelope is returned. -/
theorem seekTo_whole {ratio : ℚ} {fuel rounds : Nat} {p : Player} (opened : OpenedOn R p)
    (h₀ : 0 ≤ ratio) (h₁ : ratio ≤ 1) (whole : ¬ (0 < ratio ∧ ratio < 1))
    (bound : rounds = if 0 < ratio then seekBound R.entries.length ratio else 0)
    (inside : rounds ≤ R.entries.length) (enough : R.entries.length < fuel) :
    ∃ p', seekTo uninit entriesPerSecond fuel ratio p = some p' ∧
      p'.currentEnvelopeToReplay = rounds ∧ (rounds < R.entries.length → p'.Ready R rounds) := by
  obtain ⟨p₂, arrived, _, ahead, run⟩ :=
    seekTo_spec uninit entriesPerSecond opened h₀ h₁ bound inside enough
  rw [correctIterators, if_neg whole] at run
  have arrived' : Arrived R rounds { p₂ with threading := p.threading } :=
    ⟨⟨arrived.caching.valid, arrived.caching.data_eq, arrived.caching.index_eq,
      arrived.caching.first_le, arrived.caching.next_le, arrived.caching.cached⟩,
      arrived.current_eq, arrived.previous_eq, arrived.previousPrevious_eq⟩
  exact ⟨_, run, arrived.current_eq, fun within => arrived'.ready within (ahead within)⟩

/-- Between zero and one the envelope at the place where the loop ends is returned. -/
theorem seekTo_between {ratio : ℚ} {fuel : Nat} {p : Player} (opened : OpenedOn R p)
    (positive : 0 < ratio) (less : ratio < 1)
    (inside : seekBound R.entries.length ratio < R.entries.length)
    (enough : R.entries.length < fuel) :
    ∃ p', seekTo uninit entriesPerSecond fuel ratio p = some p' ∧
      p'.currentEnvelopeToReplay = seekBound R.entries.length ratio + 1 ∧
      (seekBound R.entries.length ratio + 1 < R.entries.length →
        p'.Ready R (seekBound R.entries.length ratio + 1)) := by
  obtain ⟨p₂, arrived, notThreading, ahead, run⟩ :=
    seekTo_spec uninit entriesPerSecond opened positive.le less.le (if_pos positive).symm inside.le
      enough
  have filled := ahead inside
  obtain ⟨p₁, returned, positioned, threading, next⟩ :=
    arrived.replayCurrentEnvelope_spec inside filled
  have notAtEnd : p₂.currentEnvelopeToReplay ≠ p₂.index.length := by
    rw [arrived.current_eq, arrived.caching.index_eq, Recording.length_index]
    omega
  obtain ⟨p₃, ran, positioned₃, _, next₃⟩ :=
    replayNextEnvelope_of_returned uninit notAtEnd (arrived.find_current inside filled) returned
      positioned enough
  rw [threading, notThreading, if_neg Bool.false_ne_true, next] at next₃
  have got : getNextEnvelopeToBeReplayed uninit entriesPerSecond fuel p₂ =
      some ((true, R.entries[seekBound R.entries.length ratio].2), p₃) := by
    rw [getNextEnvelopeToBeReplayed, if_neg notAtEnd, ran]
  rw [correctIterators, if_pos ⟨positive, less⟩, got] at run
  have positioned' : Positioned R (seekBound R.entries.length ratio + 1)
      { p₃ with threading := p.threading } :=
    ⟨⟨positioned₃.caching.valid, positioned₃.caching.data_eq, positioned₃.caching.index_eq,
      positioned₃.caching.first_le, positioned₃.caching.next_le, positioned₃.caching.cached⟩,
      positioned₃.cursor_le, positioned₃.current_eq, positioned₃.previous_eq,
      positioned₃.previousPrevious_iff⟩
  refine ⟨_, run, positioned₃.current_eq, fun within => positioned'.ready within ?_⟩
  simp only
  omega

/-- Where a call leads from the end: it stays there, or returns the first entry. -/
theorem current_of_getNext_end {fuel : Nat} {p p' : Player} {result : Bool × Envelope.Values}
    (arrived : p.Arrived R R.entries.length) (positive : 0 < R.entries.length)
    (h : getNextEnvelopeToBeReplayed uninit entriesPerSecond fuel p = some (result, p')) :
    p'.currentEnvelopeToReplay ≠ 0 := by
  have stays : p.currentEnvelopeToReplay = p.index.length := by
    rw [arrived.current_eq, arrived.caching.index_eq, Recording.length_index]
  have atEnd := arrived.current_eq
  rw [getNextEnvelopeToBeReplayed, if_pos stays] at h
  split at h
  case isFalse =>
      obtain ⟨-, rfl⟩ := Prod.mk.inj (Option.some.inj h)
      omega
  case isTrue =>
      simp only [Option.bind_eq_bind, Option.bind_eq_some_iff] at h
      obtain ⟨p₁, rewound, h⟩ := h
      rw [replayNextEnvelope] at h
      split at h
      case isTrue =>
          simp only [Option.bind_eq_bind, Option.bind_eq_some_iff] at h
          obtain ⟨-, -, ⟨e, p₂⟩, returned, h⟩ := h
          have moved : p₂.currentEnvelopeToReplay = p₁.currentEnvelopeToReplay + 1 := by
            simp only [replayCurrentEnvelope, Option.bind_eq_bind, Option.bind_eq_some_iff,
              Option.some.injEq, Prod.mk.injEq] at returned
            obtain ⟨_, _, _, _, -, rfl⟩ := returned
            rfl
          split at h
          · obtain ⟨-, rfl⟩ := Prod.mk.inj (Option.some.inj h)
            show p₂.currentEnvelopeToReplay ≠ 0
            omega
          · simp only [Option.bind_eq_some_iff, Option.some.injEq, Prod.mk.injEq] at h
            obtain ⟨⟨read, p₃⟩, filled, -, rfl⟩ := h
            have kept := (filled_of_fillEnvelopeCache uninit filled).current_eq
            simp only at kept ⊢
            omega
      case isFalse ended =>
          obtain ⟨-, rfl⟩ := Prod.mk.inj (Option.some.inj h)
          rw [not_not] at ended
          have opened₁ := OpenedOn.computeInitialCacheLevelAndFillCache uninit entriesPerSecond
            arrived.caching.valid arrived.caching.data_eq arrived.caching.index_eq rewound
          rw [ended, opened₁.index_eq, Recording.length_index]
          omega

/-- Moved exactly to the end, the player is not at the beginning afterwards. -/
theorem current_of_seekTo_end {ratio : ℚ} {fuel : Nat} {p p' : Player} (opened : OpenedOn R p)
    (positive : 0 < ratio) (h₁ : ratio ≤ 1)
    (atEnd : seekBound R.entries.length ratio = R.entries.length)
    (nonempty : 0 < R.entries.length) (enough : R.entries.length < fuel)
    (h : seekTo uninit entriesPerSecond fuel ratio p = some p') :
    p'.currentEnvelopeToReplay ≠ 0 := by
  obtain ⟨p₂, arrived, _, _, run⟩ := seekTo_spec uninit entriesPerSecond opened positive.le h₁
    (if_pos positive).symm atEnd.le enough
  rw [atEnd] at arrived
  obtain ⟨p₃, corrected, rfl⟩ := Option.map_eq_some_iff.mp (run.symm.trans h)
  rw [correctIterators] at corrected
  split at corrected
  · obtain ⟨⟨result, q⟩, got, rfl⟩ := Option.map_eq_some_iff.mp corrected
    have moved := current_of_getNext_end uninit entriesPerSecond arrived nonempty got
    exact moved
  · obtain rfl := Option.some.inj corrected
    show p₂.currentEnvelopeToReplay ≠ 0
    rw [arrived.current_eq]
    exact nonempty.ne'

end Seek

/-! ## What is returned next -/

/-- The envelope is returned by the next call of `getNextEnvelopeToBeReplayed`, also if a
background thread is started before, whatever it does in between. -/
structure ReturnsNext (fuel : Nat) (p : Player) (e : Envelope.Values) : Prop where
  alone : ∃ p', getNextEnvelopeToBeReplayed uninit entriesPerSecond fuel p = some ((true, e), p')
  threaded : ∀ results s,
    Relation.ReflTransGen (ThreadedPlayer.Step uninit entriesPerSecond)
        ⟨p, .idle, .checkRunning, true, results⟩ s →
      (s.results = results ∧ (s.replayThread = .replayCurrent →
        ∃ p', s.player.replayCurrentEnvelope = some (e, p'))) ∨
      ∃ later, s.results = results ++ (true, e) :: later

/-- Seeking is defined, and the envelope returned next is the one the ratio stands for. -/
def SeeksTo (fuel : Nat) (order : List Envelope.Values) (ratio : ℚ) (p : Player) : Prop :=
  ∃ p', seekTo uninit entriesPerSecond fuel ratio p = some p' ∧
    (order ≠ [] → p'.currentEnvelopeToReplay = seekPosition order.length ratio ∧
      ∃ e, order[seekPosition order.length ratio]? = some e ∧
        ReturnsNext uninit entriesPerSecond fuel p' e)

/-- The iterators are at entries, and the cache has an envelope for the current one. -/
def Holds (p : Player) (e : Envelope.Values) : Prop :=
  ∃ current previous, p.index[p.currentEnvelopeToReplay]? = some current ∧
    p.index[p.previousEnvelopeAlreadyReplayed]? = some previous ∧
    p.envelopeCache.find current.2.filePosition = some e

theorem Holds.current_ne_length {p : Player} {e : Envelope.Values} (holds : p.Holds e) :
    p.currentEnvelopeToReplay ≠ p.index.length := by
  obtain ⟨_, _, here, _⟩ := holds
  obtain ⟨inside, _⟩ := List.getElem?_eq_some_iff.mp here
  exact inside.ne

/-- The section under the mutex returns the envelope. -/
theorem Holds.replayCurrentEnvelope {p : Player} {e : Envelope.Values} (holds : p.Holds e) :
    ∃ p', p.replayCurrentEnvelope = some (e, p') := by
  obtain ⟨current, previous, here, there, present⟩ := holds
  simp only [Player.replayCurrentEnvelope, here, there, Option.bind_eq_bind, Option.bind_some,
    KeyValueMap.getOrInsert, KeyValueMap.emplace_present present, present]
  exact ⟨_, rfl⟩

end Player

namespace ThreadedPlayer

section Next

variable {uninit : Nat → Byte} {entriesPerSecond : Multimap Int IndexEntry → BitVec 32}

/-- The calls only add results. -/
theorem Step.results_grow {s s' : ThreadedPlayer} (step : Step uninit entriesPerSecond s s') :
    ∃ later, s'.results = s.results ++ later := by
  have answered (t : ThreadedPlayer) :
      ∃ later, t.replayUnlessAtEnd.results = t.results ++ later := by
    rw [replayUnlessAtEnd]
    split
    · exact ⟨[], (List.append_nil _).symm⟩
    · exact ⟨_, rfl⟩
  cases step with
  | call => exact answered _
  | rewound => exact answered _
  | checkAvailability => split <;> exact ⟨[], (List.append_nil _).symm⟩
  | replayCurrent => exact ⟨_, rfl⟩
  | _ => exact ⟨[], (List.append_nil _).symm⟩

/-- Nothing more has been returned, and the entry to be returned next is in the cache. -/
structure Waiting (e : Envelope.Values) (results : List (Bool × Envelope.Values))
    (s : ThreadedPlayer) : Prop where
  results_eq : s.results = results
  notJoining : s.replayThread ≠ .joining
  holds : s.player.Holds e

/-- A step returns the entry, or is followed by more waiting. -/
theorem Waiting.step {e : Envelope.Values} {results : List (Bool × Envelope.Values)}
    {s s' : ThreadedPlayer} (waiting : s.Waiting e results)
    (step : Step uninit entriesPerSecond s s') :
    s'.Waiting e results ∨ s'.results = results ++ [(true, e)] := by
  have same {t : ThreadedPlayer} (results_eq : t.results = s.results)
      (replayThread : t.replayThread ≠ .joining) (player : t.player.Holds e) :
      t.Waiting e results := ⟨results_eq.trans waiting.results_eq, replayThread, player⟩
  obtain ⟨current, previous, here, there, present⟩ := waiting.holds
  have notAtEnd := waiting.holds.current_ne_length
  cases step with
  | call =>
      rw [replayUnlessAtEnd, if_pos notAtEnd]
      exact .inl (same rfl (by simp) waiting.holds)
  | rewind _ atEnd => exact absurd atEnd notAtEnd
  | rewound joining => exact absurd joining waiting.notJoining
  | checkAvailability =>
      split
      · exact .inl waiting
      · exact .inl (same rfl (by simp) waiting.holds)
  | replayCurrent _ returned =>
      obtain ⟨p, returned'⟩ := waiting.holds.replayCurrentEnvelope
      rw [returned', Option.some.injEq, Prod.mk.injEq] at returned
      obtain ⟨rfl, -⟩ := returned
      exact .inr (congrArg (· ++ [(true, e)]) waiting.results_eq)
  | store =>
      refine .inl (same rfl waiting.notJoining ⟨current, previous, here, there, ?_⟩)
      rw [Player.cacheEnvelope, KeyValueMap.find_emplace]
      split
      case isTrue same => rw [same, present, Option.getD_some]
      case isFalse => exact present
  | _ => exact .inl (same rfl waiting.notJoining ⟨current, previous, here, there, present⟩)

/-- **What is returned next** is the current entry, if it is in the cache. -/
theorem Waiting.run {e : Envelope.Values} {results : List (Bool × Envelope.Values)}
    {s s' : ThreadedPlayer} (waiting : s.Waiting e results)
    (run : Relation.ReflTransGen (Step uninit entriesPerSecond) s s') :
    s'.Waiting e results ∨ ∃ later, s'.results = results ++ (true, e) :: later := by
  induction run with
  | refl => exact .inl waiting
  | tail _ step ih =>
      rcases ih with waiting | ⟨later, returned⟩
      · rcases waiting.step step with waiting | returned
        · exact .inl waiting
        · exact .inr ⟨[], returned⟩
      · obtain ⟨more, grown⟩ := step.results_grow
        refine .inr ⟨later ++ more, ?_⟩
        rw [grown, returned, List.append_assoc, List.cons_append]

end Next

end ThreadedPlayer

namespace Player

section Seeks

variable {uninit : Nat → Byte} {entriesPerSecond : Multimap Int IndexEntry → BitVec 32}
  {R : Recording}

theorem Ready.holds {cursor : Nat} {p : Player} (ready : p.Ready R cursor) :
    ∃ inside : cursor < R.entries.length, p.Holds R.entries[cursor].2 := by
  obtain ⟨inside, p', present, returned, _⟩ := ready.returns
  obtain ⟨current, previous, here, there, _⟩ := replayCurrentEnvelope_cases returned
  have entry := here
  rw [ready.index_eq, ready.current_eq, getElem_index inside, Option.some.injEq] at entry
  exact ⟨inside, current, previous, here, there, entry ▸ present⟩

/-- The current entry is returned next. -/
theorem Ready.returnsNext {cursor fuel : Nat} {p : Player} (ready : p.Ready R cursor)
    (enough : R.entries.length < fuel) :
    ∃ e, R.envelopes[cursor]? = some e ∧ ReturnsNext uninit entriesPerSecond fuel p e := by
  obtain ⟨inside, holds⟩ := ready.holds
  obtain ⟨_, p', got⟩ := ready.getNext uninit entriesPerSecond enough
  refine ⟨_, getElem_envelopes inside, ⟨p', got⟩, ?_⟩
  intro results s run
  have start : ThreadedPlayer.Waiting R.entries[cursor].2 results
      ⟨p, .idle, .checkRunning, true, results⟩ := ⟨rfl, nofun, holds⟩
  rcases start.run run with waiting | returned
  · exact .inl ⟨waiting.results_eq, fun _ => waiting.holds.replayCurrentEnvelope⟩
  · exact .inr returned

/-- Seeking that ends at the entry the ratio stands for is as it should be. -/
theorem seeksTo_of_ready {ratio : ℚ} {fuel : Nat} {p p' : Player}
    (sought : seekTo uninit entriesPerSecond fuel ratio p = some p')
    (ready : 0 < R.entries.length → p'.Ready R (seekPosition R.entries.length ratio))
    (enough : R.entries.length < fuel) :
    SeeksTo uninit entriesPerSecond fuel R.envelopes ratio p := by
  refine ⟨p', sought, fun nonempty => ?_⟩
  have positive := List.length_pos_iff.mpr nonempty
  rw [Recording.length_envelopes] at positive ⊢
  have ready := ready positive
  exact ⟨ready.current_eq, ready.returnsNext enough⟩

/-- Seeking that ends at another entry is not. -/
theorem not_seeksTo_of_current {ratio : ℚ} {fuel : Nat} {p p' : Player}
    (sought : seekTo uninit entriesPerSecond fuel ratio p = some p')
    (positive : 0 < R.entries.length)
    (other : p'.currentEnvelopeToReplay ≠ seekPosition R.entries.length ratio) :
    ¬ SeeksTo uninit entriesPerSecond fuel R.envelopes ratio p := by
  rintro ⟨q, sought', right⟩
  obtain rfl := Option.some.inj (sought.symm.trans sought')
  have nonempty : R.envelopes ≠ [] := List.length_pos_iff.mp (by simpa using positive)
  have right := (right nonempty).1
  rw [Recording.length_envelopes] at right
  exact other right

/-- **Seeking with a player that has the recording open.** -/
theorem OpenedOn.seeksTo_iff {ratio : ℚ} {fuel : Nat} {p : Player} (opened : OpenedOn R p)
    (h₀ : 0 ≤ ratio) (h₁ : ratio ≤ 1) (enough : R.entries.length < fuel) :
    SeeksTo uninit entriesPerSecond fuel R.envelopes ratio p ↔
      SeekDefined R.entries.length ratio := by
  rcases h₀.eq_or_lt with rfl | positive
  · have defined : SeekDefined R.entries.length 0 := .inl rfl
    obtain ⟨p', sought, _, ready⟩ := seekTo_whole uninit entriesPerSecond opened le_rfl
      zero_le_one (fun h => lt_irrefl _ h.1) (if_neg (lt_irrefl _)).symm (Nat.zero_le _) enough
    have start : seekPosition R.entries.length 0 = 0 := by simp [seekPosition]
    refine iff_of_true (seeksTo_of_ready sought (fun nonempty => ?_) enough) defined
    rw [start]
    exact ready nonempty
  rcases lt_trichotomy (seekBound R.entries.length ratio) R.entries.length with
    inside | atEnd | past
  · rw [← reached_eq_seekPosition_iff positive h₁ inside]
    have nonempty : 0 < R.entries.length := by omega
    by_cases less : ratio < 1
    · obtain ⟨p', sought, current, ready⟩ :=
        seekTo_between uninit entriesPerSecond opened positive less inside enough
      rw [if_pos less]
      constructor
      · intro seeks
        by_contra other
        exact not_seeksTo_of_current sought nonempty (current ▸ other) seeks
      · intro reached
        refine seeksTo_of_ready sought (fun _ => ?_) enough
        have before := seekPosition_lt nonempty ratio
        rw [← reached] at before ⊢
        exact ready before
    · obtain ⟨p', sought, current, ready⟩ := seekTo_whole uninit entriesPerSecond opened
        positive.le h₁ (fun h => less h.2) (if_pos positive).symm inside.le enough
      rw [if_neg less]
      constructor
      · intro seeks
        by_contra other
        exact not_seeksTo_of_current sought nonempty (current ▸ other) seeks
      · intro reached
        exact seeksTo_of_ready sought (fun _ => reached ▸ ready inside) enough
  · refine iff_of_false (fun seeks => ?_) (not_seekDefined_of_le positive h₁ atEnd.ge)
    obtain ⟨start, nonempty⟩ := seekPosition_of_eq positive h₁ atEnd
    obtain ⟨p', sought, right⟩ := seeks
    have position := (right (List.length_pos_iff.mp (by simpa using nonempty))).1
    rw [Recording.length_envelopes, start] at position
    exact current_of_seekTo_end uninit entriesPerSecond opened positive h₁ atEnd nonempty enough
      sought position
  · refine iff_of_false ?_ (not_seekDefined_of_le positive h₁ past.le)
    rintro ⟨p', sought, _⟩
    rw [seekTo_none uninit entriesPerSecond opened positive h₁ past] at sought
    cases sought

end Seeks

end Player

/-! ## Players that seek -/

/-- An operation on a player. -/
inductive PlayerOp where
  | getNextEnvelopeToBeReplayed
  | rewind
  | seekTo (ratio : ℚ)

/-- A player without a background thread after some operations. -/
def Player.perform (uninit : Nat → Byte) (entriesPerSecond : Multimap Int IndexEntry → BitVec 32)
    (fuel : Nat) : Player → List PlayerOp → Option Player
  | p, [] => some p
  | p, .getNextEnvelopeToBeReplayed :: ops => do
      let (_, p') ← getNextEnvelopeToBeReplayed uninit entriesPerSecond fuel p
      perform uninit entriesPerSecond fuel p' ops
  | p, .rewind :: ops => do
      let p' ← rewind uninit entriesPerSecond fuel p
      perform uninit entriesPerSecond fuel p' ops
  | p, .seekTo ratio :: ops => do
      let p' ← seekTo uninit entriesPerSecond fuel ratio p
      perform uninit entriesPerSecond fuel p' ops

/-- A player with a background thread, and the ratio of the call of `seekTo` that joins this
thread. -/
structure SeekingPlayer where
  threads : ThreadedPlayer
  seeking : Option ℚ

namespace SeekingPlayer

variable (uninit : Nat → Byte) (entriesPerSecond : Multimap Int IndexEntry → BitVec 32)

/-- A step of one of the two threads. -/
inductive Step : SeekingPlayer → SeekingPlayer → Prop where
  /-- outside `seekTo` -/
  | play {t t' : ThreadedPlayer} : ThreadedPlayer.Step uninit entriesPerSecond t t' →
      Step ⟨t, none⟩ ⟨t', none⟩
  /-- a call of `seekTo` with a ratio between zero and one, which ends the background thread -/
  | seek {t : ThreadedPlayer} {ratio : ℚ} : t.replayThread = .idle → ¬ ratio < 0 → ¬ ratio > 1 →
      Step ⟨t, none⟩ ⟨{ t with cacheFillingRunning := false, replayThread := .joining }, some ratio⟩
  /-- the background thread while it is joined -/
  | join {t t' : ThreadedPlayer} {ratio : ℚ} : ThreadedPlayer.Step uninit entriesPerSecond t t' →
      t'.replayThread = .joining → Step ⟨t, some ratio⟩ ⟨t', some ratio⟩
  /-- the rest of `seekTo`, which starts the background thread again -/
  | sought {t : ThreadedPlayer} {ratio : ℚ} {fuel : Nat} {p : Player} :
      t.cacheThread = .exited →
      t.player.seekTo uninit entriesPerSecond fuel ratio = some p →
      Step ⟨t, some ratio⟩ ⟨{ t with
        player := p
        replayThread := .idle
        cacheFillingRunning := true
        cacheThread := .checkRunning }, none⟩

/-- The players of a file that seek. -/
def system (file : Option Bytes) (autoRewind : Bool) : TransitionSystem SeekingPlayer where
  init s := (ThreadedPlayer.system uninit entriesPerSecond file autoRewind).init s.threads ∧
    s.seeking = none
  step := Step uninit entriesPerSecond

end SeekingPlayer

section Prior

variable {uninit : Nat → Byte} {entriesPerSecond : Multimap Int IndexEntry → BitVec 32}
  {R : Recording}

theorem Player.OpenedOn.perform {fuel : Nat} (ops : List PlayerOp) :
    ∀ {p p' : Player}, OpenedOn R p → p.perform uninit entriesPerSecond fuel ops = some p' →
      OpenedOn R p' := by
  induction ops with
  | nil =>
      intro p p' opened h
      obtain rfl := Option.some.inj h
      exact opened
  | cons op ops ih =>
      intro p p' opened h
      cases op with
      | getNextEnvelopeToBeReplayed =>
          obtain ⟨⟨result, q⟩, got, h⟩ := Option.bind_eq_some_iff.mp h
          exact ih (opened.getNextEnvelopeToBeReplayed uninit entriesPerSecond got) h
      | rewind =>
          obtain ⟨q, rewound, h⟩ := Option.bind_eq_some_iff.mp h
          exact ih (OpenedOn.computeInitialCacheLevelAndFillCache uninit entriesPerSecond
            opened.valid opened.data_eq opened.index_eq rewound) h
      | seekTo ratio =>
          obtain ⟨q, sought, h⟩ := Option.bind_eq_some_iff.mp h
          exact ih (opened.seekTo uninit entriesPerSecond sought) h

theorem Player.OpenedOn.threadedStep {t t' : ThreadedPlayer} (opened : OpenedOn R t.player)
    (step : ThreadedPlayer.Step uninit entriesPerSecond t t') : OpenedOn R t'.player := by
  have unless_atEnd (s : ThreadedPlayer) (h : OpenedOn R s.player) :
      OpenedOn R s.replayUnlessAtEnd.player := by
    rw [ThreadedPlayer.replayUnlessAtEnd]
    split <;> exact h
  cases step with
  | call => exact unless_atEnd _ opened
  | rewind => exact opened
  | rewound _ _ rewound =>
      apply unless_atEnd _
      exact OpenedOn.computeInitialCacheLevelAndFillCache uninit entriesPerSecond opened.valid
        opened.data_eq opened.index_eq rewound
  | checkAvailability => split <;> exact opened
  | replayCurrent _ returned => exact opened.replayCurrentEnvelope returned
  | refill => exact ⟨opened.valid, opened.data_eq, opened.index_eq, opened.level⟩
  | @read _ _ entry _ recFile _ _ _ extracted =>
      have data : recFile.data = R.file := by
        have same := congrArg (fun x => x.2.data) extracted
        rw [data_extractEnvelope, Player.data_seekg, opened.data_eq] at same
        exact same.symm
      exact ⟨opened.valid, data, opened.index_eq, opened.level⟩
  | store => exact ⟨opened.valid, opened.data_eq, opened.index_eq, opened.level⟩
  | advance => exact ⟨opened.valid, opened.data_eq, opened.index_eq, opened.level⟩
  | _ => exact opened

theorem Player.OpenedOn.seekingStep {s s' : SeekingPlayer} (opened : OpenedOn R s.threads.player)
    (step : SeekingPlayer.Step uninit entriesPerSecond s s') : OpenedOn R s'.threads.player := by
  cases step with
  | play step => exact opened.threadedStep step
  | seek => exact opened
  | join step => exact opened.threadedStep step
  | sought _ sought => exact opened.seekTo uninit entriesPerSecond sought

/-- The constructor opens the recording. -/
theorem Player.openedOn_of_construct {es : List Envelope.Values} (fits : ∀ e ∈ es, FitsFrame e)
    {tail : Bytes} (incomplete : IncompleteFrame tail) {autoRewind threading : Bool} {fuel : Nat}
    {p : Player} (h : construct uninit entriesPerSecond fuel
      (some (serializeEnvelopes es ++ tail)) autoRewind threading = some p) :
    OpenedOn (recordingOf es tail fits) p := by
  obtain ⟨recFile, data, built⟩ :=
    initializeIndex_recordingOf uninit incomplete fits autoRewind threading
  rw [show serializeEnvelopes es ++ tail = (recordingOf es tail fits).file from rfl, construct,
    built] at h
  exact OpenedOn.computeInitialCacheLevelAndFillCache uninit entriesPerSecond rfl data rfl h

variable (uninit entriesPerSecond)

/-- A player of a file when it begins to seek: without a background thread behind operations of
any kind, and with one behind any steps of the two threads. -/
inductive Seeks (file : Option Bytes) (autoRewind : Bool) : Player → Prop where
  | alone {fuel : Nat} {p p' : Player} {ops : List PlayerOp} :
      Player.construct uninit entriesPerSecond fuel file autoRewind false = some p →
      p.perform uninit entriesPerSecond fuel ops = some p' → Seeks file autoRewind p'
  | threaded {t : ThreadedPlayer} {ratio : ℚ} :
      (SeekingPlayer.system uninit entriesPerSecond file autoRewind).Reachable ⟨t, some ratio⟩ →
      t.cacheThread = .exited → Seeks file autoRewind t.player

variable {uninit entriesPerSecond}

/-- Whatever a player did, it still has the recording open when it seeks. -/
theorem Seeks.openedOn {es : List Envelope.Values} (fits : ∀ e ∈ es, FitsFrame e) {tail : Bytes}
    (incomplete : IncompleteFrame tail) {autoRewind : Bool} {p : Player}
    (h : Seeks uninit entriesPerSecond (some (serializeEnvelopes es ++ tail)) autoRewind p) :
    Player.OpenedOn (recordingOf es tail fits) p := by
  cases h with
  | alone constructed performed =>
      exact (Player.openedOn_of_construct fits incomplete constructed).perform _ performed
  | @threaded t ratio reachable _ =>
      refine Reachable.invariant
        (I := fun s => Player.OpenedOn (recordingOf es tail fits) s.threads.player) ?_ ?_ reachable
      · rintro ⟨_, _⟩ ⟨⟨fuel, p, constructed, rfl⟩, _⟩
        exact Player.openedOn_of_construct fits incomplete constructed
      · intro s s' opened step
        exact opened.seekingStep step

/-- A player on the file of any envelopes can seek. -/
theorem exists_seeks (uninit : Nat → Byte)
    (entriesPerSecond : Multimap Int IndexEntry → BitVec 32) {es : List Envelope.Values}
    (fits : ∀ e ∈ es, FitsFrame e) {tail : Bytes} (incomplete : IncompleteFrame tail)
    (autoRewind : Bool) : ∃ p, Seeks uninit entriesPerSecond
      (some (serializeEnvelopes es ++ tail)) autoRewind p := by
  obtain ⟨p, constructed, _⟩ := Player.construct_spec uninit entriesPerSecond incomplete fits
    (Nat.lt_succ_self _) autoRewind false
  have performed : p.perform uninit entriesPerSecond (es.length + 1) [] = some p := rfl
  exact ⟨p, .alone constructed performed⟩

/-- **Seeking in a recording.** For the file of any envelopes and an incomplete tail, with or
without automatic rewinding and a background thread, and whatever the player did before: seeking
to a ratio between zero and one is defined and leads to the envelope the ratio stands for if and
only if the ratio is zero or its product with the number of envelopes is at least one (for less
than 2^32 envelopes); and greater ratios lead to later places. -/
theorem seekTo_iff {es : List Envelope.Values} (fits : ∀ e ∈ es, FitsFrame e) {tail : Bytes}
    (incomplete : IncompleteFrame tail) (autoRewind : Bool) {p : Player}
    (seeks : Seeks uninit entriesPerSecond (some (serializeEnvelopes es ++ tail)) autoRewind p)
    {ratio : ℚ} (h₀ : 0 ≤ ratio) (h₁ : ratio ≤ 1) {fuel : Nat} (enough : es.length < fuel) :
    (p.SeeksTo uninit entriesPerSecond fuel (replayOrder es) ratio ↔
      Player.SeekDefined es.length ratio) ∧
    ∀ q ratio', Seeks uninit entriesPerSecond (some (serializeEnvelopes es ++ tail)) autoRewind q →
      ratio ≤ ratio' → ratio' ≤ 1 → Player.SeekDefined es.length ratio →
      Player.SeekDefined es.length ratio' → es ≠ [] →
      ∃ p' q', p.seekTo uninit entriesPerSecond fuel ratio = some p' ∧
        q.seekTo uninit entriesPerSecond fuel ratio' = some q' ∧
        p'.currentEnvelopeToReplay ≤ q'.currentEnvelopeToReplay := by
  have length := length_recordingOf es tail fits
  have order : (replayOrder es).length = es.length := (replayOrder_perm es).length_eq
  rw [← length] at enough
  have seeksTo_iff {q : Player} {r : ℚ}
      (seeks : Seeks uninit entriesPerSecond (some (serializeEnvelopes es ++ tail)) autoRewind q)
      (r₀ : 0 ≤ r) (r₁ : r ≤ 1) : q.SeeksTo uninit entriesPerSecond fuel (replayOrder es) r ↔
        Player.SeekDefined es.length r := by
    rw [← length, ← envelopes_recordingOf es tail fits]
    exact (seeks.openedOn fits incomplete).seeksTo_iff r₀ r₁ enough
  refine ⟨seeksTo_iff seeks h₀ h₁, ?_⟩
  intro q ratio' seeks' le h₁' defined defined' nonempty
  obtain ⟨p', sought, position⟩ := (seeksTo_iff seeks h₀ h₁).mpr defined
  obtain ⟨q', sought', position'⟩ := (seeksTo_iff seeks' (h₀.trans le) h₁').mpr defined'
  have some : replayOrder es ≠ [] := by
    rw [← List.length_pos_iff, order]
    exact List.length_pos_iff.mpr nonempty
  refine ⟨p', q', sought, sought', ?_⟩
  rw [(position some).1, (position' some).1]
  exact Player.seekPosition_mono _ le

end Prior

theorem seekTo_half : ∃ p, Seeks (fun _ => 0) (fun _ => 1)
    (some (serializeEnvelopes [Envelope.initial, sampledLate] ++ [0x0D])) false p ∧
    (p.SeeksTo (fun _ => 0) (fun _ => 1) 3 (replayOrder [Envelope.initial, sampledLate]) (1 / 2) ↔
      Player.SeekDefined 2 (1 / 2)) := by
  obtain ⟨p, seeks⟩ := exists_seeks (fun _ => 0) (fun _ => 1) fitsFrame_late
    incompleteFrame_magic false
  exact ⟨p, seeks, (seekTo_iff fitsFrame_late incompleteFrame_magic false seeks (by norm_num)
    (by norm_num) (Nat.lt_succ_self 2)).1⟩

/-- To the first quarter of two envelopes, a player moves an iterator past the end. -/
theorem not_seeksTo : ∃ p, Seeks (fun _ => 0) (fun _ => 1)
    (some (serializeEnvelopes [Envelope.initial, sampledLate] ++ [0x0D])) false p ∧
    ∀ fuel, p.seekTo (fun _ => 0) (fun _ => 1) fuel (1 / 4) = none ∧
      ¬ p.SeeksTo (fun _ => 0) (fun _ => 1) fuel
        (replayOrder [Envelope.initial, sampledLate]) (1 / 4) := by
  obtain ⟨p, seeks⟩ := exists_seeks (fun _ => 0) (fun _ => 1) fitsFrame_late
    incompleteFrame_magic false
  have opened := seeks.openedOn fitsFrame_late incompleteFrame_magic
  have past : (recordingOf _ [0x0D] fitsFrame_late).entries.length <
      Player.seekBound (recordingOf _ [0x0D] fitsFrame_late).entries.length (1 / 4) := by
    rw [length_recordingOf]
    decide +kernel
  refine ⟨p, seeks, fun fuel => ?_⟩
  have undefined : p.seekTo (fun _ => 0) (fun _ => 1) fuel (1 / 4) = none :=
    Player.seekTo_none _ _ opened (by norm_num) (by norm_num) past
  refine ⟨undefined, ?_⟩
  rintro ⟨p', sought, _⟩
  rw [undefined] at sought
  cases sought

end Cluon
