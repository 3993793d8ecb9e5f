import Cluon.Recording.Player
import Cluon.Session.OD4Session

/-!
# Time stamps and microseconds

A time stamp has seconds and microseconds of 32 bits each. A number of microseconds that is
split into a time stamp can be put together again if and only if its seconds fit into 32 bits, and
a time stamp can be restored from its microseconds if and only if there is less than a second of
them, with the sign of the seconds (`fromMicroseconds_iff`). A time point of the system clock is
converted to the time stamp of its microseconds, also when its seconds do not fit into 32 bits
(`convert_eq`).
-/

set_option autoImplicit false

namespace Cluon

namespace time

/-- `fromMicroseconds(tp)`. -/
def fromMicroseconds (tp : Int) : TimeStamp.Values :=
  TimeStamp.of (BitVec.ofInt 32 (tp.tdiv 1000000)) (BitVec.ofInt 32 (tp.tmod 1000000))

/-- `deltaInMicroseconds(AFTER, BEFORE)`. -/
def deltaInMicroseconds (after before : TimeStamp.Values) : Int :=
  toMicroseconds after - toMicroseconds before

/-- The seconds of a number of microseconds fit into 32 bits. -/
def FitsSeconds (tp : Int) : Prop := -2 ^ 31 ≤ tp.tdiv 1000000 ∧ tp.tdiv 1000000 < 2 ^ 31

/-- Less than a second of microseconds, with the sign of the seconds. -/
def Normalized (ts : TimeStamp.Values) : Prop :=
  (TimeStamp.microseconds ts).toInt.natAbs < 1000000 ∧
    (0 < (TimeStamp.seconds ts).toInt → 0 ≤ (TimeStamp.microseconds ts).toInt) ∧
    ((TimeStamp.seconds ts).toInt < 0 → (TimeStamp.microseconds ts).toInt ≤ 0)

/-! ## Division that truncates -/

/-- The quotient is truncated towards zero. -/
theorem tdiv_eq (x k : Int) : x.tdiv k = if 0 ≤ x then x / k else -(-x / k) := by
  split
  case isTrue h => exact Int.tdiv_eq_ediv_of_nonneg h
  case isFalse h =>
    have opposite : 0 ≤ -x := by omega
    calc x.tdiv k = (-(-x)).tdiv k := by rw [neg_neg]
      _ = -((-x).tdiv k) := Int.neg_tdiv _ _
      _ = -(-x / k) := by rw [Int.tdiv_eq_ediv_of_nonneg opposite]

theorem tmod_eq (x k : Int) : x.tmod k = x - k * x.tdiv k := Int.tmod_def x k

/-- The microseconds of a second fit into 32 bits. -/
theorem toInt_tmod (tp : Int) :
    (BitVec.ofInt 32 (tp.tmod 1000000)).toInt = tp.tmod 1000000 := by
  have below := Int.tmod_lt_of_pos tp (b := 1000000) (by norm_num)
  have above := Int.lt_tmod_of_pos tp (b := 1000000) (by norm_num)
  exact BitVec.toInt_ofInt_eq_self (by norm_num) (by norm_num; omega) (by norm_num; omega)

/-! ## The results -/

theorem seconds_of (s us : BitVec 32) : TimeStamp.seconds (TimeStamp.of s us) = s := rfl

theorem microseconds_of (s us : BitVec 32) : TimeStamp.microseconds (TimeStamp.of s us) = us := rfl

/-- A time stamp is its seconds and its microseconds. -/
theorem of_eq_iff (s us : BitVec 32) (ts : TimeStamp.Values) :
    TimeStamp.of s us = ts ↔ s = TimeStamp.seconds ts ∧ us = TimeStamp.microseconds ts := by
  constructor
  · rintro rfl
    exact ⟨rfl, rfl⟩
  · rintro ⟨rfl, rfl⟩
    rfl

/-- The seconds are read back if and only if they fit. -/
theorem toInt_seconds_iff (tp : Int) :
    (BitVec.ofInt 32 (tp.tdiv 1000000)).toInt = tp.tdiv 1000000 ↔ FitsSeconds tp := by
  constructor
  · intro same
    have below := (BitVec.ofInt 32 (tp.tdiv 1000000)).toInt_lt
    have above := (BitVec.ofInt 32 (tp.tdiv 1000000)).le_toInt
    rw [same] at below above
    exact ⟨above, below⟩
  · rintro ⟨above, below⟩
    exact BitVec.toInt_ofInt_eq_self (by norm_num) (by norm_num; omega) (by norm_num; omega)

/-- What is put together again. -/
theorem toMicroseconds_fromMicroseconds (tp : Int) :
    toMicroseconds (fromMicroseconds tp) =
      (BitVec.ofInt 32 (tp.tdiv 1000000)).toInt * 1000000 + tp.tmod 1000000 := by
  rw [toMicroseconds, fromMicroseconds, seconds_of, microseconds_of, toInt_tmod]

/-- **Time stamps and microseconds are exchangeable where they fit**: a number of microseconds
survives its conversion to a time stamp if and only if its seconds fit into 32 bits, and a time
stamp survives its conversion to microseconds if and only if it is normalized. -/
theorem fromMicroseconds_iff :
    (∀ tp, toMicroseconds (fromMicroseconds tp) = tp ↔ FitsSeconds tp) ∧
      ∀ ts, fromMicroseconds (toMicroseconds ts) = ts ↔ Normalized ts := by
  refine ⟨fun tp => ?_, fun ts => ?_⟩
  · rw [toMicroseconds_fromMicroseconds, ← toInt_seconds_iff, tmod_eq]
    constructor
    · intro same
      omega
    · intro same
      rw [same]
      omega
  · rw [fromMicroseconds, of_eq_iff, Normalized, toMicroseconds]
    generalize TimeStamp.seconds ts = seconds
    generalize TimeStamp.microseconds ts = microseconds
    have below := seconds.toInt_lt
    have above := seconds.le_toInt
    constructor
    · rintro ⟨_, same⟩
      have value := toInt_tmod (seconds.toInt * 1000000 + microseconds.toInt)
      rw [same, tmod_eq, tdiv_eq] at value
      split at value <;> refine ⟨?_, ?_, ?_⟩ <;> omega
    · rintro ⟨small, positive, negative⟩
      have quotient : (seconds.toInt * 1000000 + microseconds.toInt).tdiv 1000000 =
          seconds.toInt := by
        rw [tdiv_eq]
        split <;> omega
      rw [tmod_eq, quotient]
      refine ⟨BitVec.ofInt_toInt, ?_⟩
      rw [mul_comm, add_sub_cancel_left]
      exact BitVec.ofInt_toInt

/-- **A time point becomes the time stamp of its microseconds**, whatever the seconds are. -/
theorem convert_eq (tp : Int) : convert tp = fromMicroseconds (tp.tdiv 1000) := by
  have seconds : tp.tdiv 1000000000 = (tp.tdiv 1000).tdiv 1000000 := by
    rw [tdiv_eq, tdiv_eq, tdiv_eq tp]
    split_ifs <;> omega
  have opposite : ∀ x : Int, BitVec.ofInt 32 (-x) = -BitVec.ofInt 32 x := fun x => BitVec.ofInt_neg
  -- A multiple of 2^32 seconds has no effect on the lower 32 bits of the microseconds.
  have lower : BitVec.ofInt 32 (tp.tdiv 1000 -
      (BitVec.ofInt 32 ((tp.tdiv 1000).tdiv 1000000)).toInt * 1000000) =
      BitVec.ofInt 32 ((tp.tdiv 1000).tmod 1000000) := by
    rw [tmod_eq, Int.sub_eq_add_neg, Int.sub_eq_add_neg, BitVec.ofInt_add, BitVec.ofInt_add,
      opposite, opposite, BitVec.ofInt_mul, BitVec.ofInt_mul, BitVec.ofInt_toInt, BitVec.mul_comm]
  rw [convert, fromMicroseconds, seconds, lower]

end time

end Cluon
