import Cluon.Library.ByteOrder
import Mathlib.Algebra.Order.Floor.Ring
import Mathlib.Data.Int.Log
import Mathlib.Data.List.TakeWhile
import Mathlib.Data.Nat.Digits.Lemmas
import Mathlib.Data.Rat.Floor

/-!
# Decimal numbers

Integers are printed in decimal (`decimalInt`), and numbers in decimal notation are read as
floating-point numbers of double precision (`readDouble`). A floating-point number is its value;
of two floating-point numbers at the same distance the even one is taken. Integers of up to
53 bits are represented exactly, so they are read back (`readDouble_decimalInt`).
-/

set_option autoImplicit false

namespace Cluon.Library

/-! ## Printing -/

/-- The byte of a digit. -/
def digitByte (d : Nat) : Byte := BitVec.ofNat 8 (d + 48)

def isDigit (c : Byte) : Bool := decide (48 ≤ c.toNat ∧ c.toNat ≤ 57)

/-- A natural number in decimal. -/
def decimal (n : Nat) : Bytes :=
  if n = 0 then [digitByte 0] else (Nat.digits 10 n).reverse.map digitByte

/-- An integer in decimal. -/
def decimalInt (v : Int) : Bytes :=
  if v < 0 then 45#8 :: decimal v.natAbs else decimal v.natAbs

/-! ## Floating-point numbers -/

/-- The integer nearest to a number; halves are rounded to even. -/
def roundHalfEven (q : ℚ) : ℤ :=
  let r := q - ⌊q⌋
  if r < 1 / 2 then ⌊q⌋
  else if 1 / 2 < r then ⌊q⌋ + 1
  else if ⌊q⌋ % 2 = 0 then ⌊q⌋
  else ⌊q⌋ + 1

/-- The distance of the floating-point numbers of double precision around a number. -/
def ulp (q : ℚ) : ℚ := 2 ^ (max (Int.log 2 |q|) (-1022) - 52)

/-- The largest floating-point number of double precision. -/
def maxDouble : ℚ := (2 ^ 53 - 1) * 2 ^ 971

/-- The floating-point number of double precision for a number. -/
def toDouble (q : ℚ) : ℚ :=
  let d := roundHalfEven (q / ulp q) * ulp q
  max (-maxDouble) (min maxDouble d)

/-! ## Reading -/

/-- The natural number of a list of digits, the first of which counts most. -/
def ofDecimal (s : Bytes) : Nat := s.foldl (fun n c => 10 * n + (c.toNat - 48)) 0

/-- An optional sign: whether the number is negative, and what follows. -/
def readSign : Bytes → Bool × Bytes
  | c :: s => if c = 45#8 then (true, s) else if c = 43#8 then (false, s) else (false, c :: s)
  | [] => (false, [])

/-- An optional exponent, which must have digits. -/
def readExponent : Bytes → Option ℤ
  | c :: s =>
      if c = 101#8 ∨ c = 69#8 then
        let (negative, s') := readSign s
        let digits := s'.takeWhile isDigit
        if digits = [] then none
        else some (if negative then -(ofDecimal digits : ℤ) else ofDecimal digits)
      else some 0
  | [] => some 0

/-- The digits of a number behind an optional point, and what follows. -/
def readFraction : Bytes → Bytes × Bytes
  | c :: s => if c = 46#8 then (s.takeWhile isDigit, s.dropWhile isDigit) else ([], c :: s)
  | [] => ([], [])

/-- `in >> v` for a `double`: the longest beginning of the text that may be a number; zero if it
is none. -/
def readDouble (text : Bytes) : ℚ :=
  let (negative, s) := readSign text
  let whole := s.takeWhile isDigit
  let (fraction, s') := readFraction (s.dropWhile isDigit)
  if whole = [] ∧ fraction = [] then 0
  else
    match readExponent s' with
    | none => 0
    | some e =>
        let value : ℚ := ofDecimal (whole ++ fraction) * 10 ^ (e - fraction.length)
        toDouble (if negative then -value else value)

/-- The integer part of a number. -/
def truncate (q : ℚ) : ℤ := if q < 0 then -⌊-q⌋ else ⌊q⌋

/-! ## Integers are represented -/

theorem roundHalfEven_intCast (n : ℤ) : roundHalfEven n = n := by
  simp [roundHalfEven]

/-- **An integer of up to 53 bits is a floating-point number of double precision.** -/
theorem toDouble_intCast {n : ℤ} (small : |n| < 2 ^ 53) : toDouble n = n := by
  have log : Int.log 2 |(n : ℚ)| ≤ 52 := by
    rcases eq_or_ne n 0 with rfl | some
    · simp
    · have positive : (0 : ℚ) < |(n : ℚ)| := abs_pos.mpr (Int.cast_ne_zero.mpr some)
      have below : |(n : ℚ)| < (2 : ℕ) ^ (53 : ℤ) := by
        have cast : |(n : ℚ)| < 2 ^ 53 := by exact_mod_cast small
        exact_mod_cast cast
      have bound := (Int.lt_zpow_iff_log_lt (by norm_num) positive).mp below
      exact Int.lt_add_one_iff.mp bound
  obtain ⟨k, hk⟩ : ∃ k : ℕ, ulp n = 1 / 2 ^ k := by
    have exponent : max (Int.log 2 |(n : ℚ)|) (-1022) ≤ 52 := max_le log (by norm_num)
    refine ⟨(52 - max (Int.log 2 |(n : ℚ)|) (-1022)).toNat, ?_⟩
    rw [ulp, one_div, ← zpow_natCast, ← zpow_neg, Int.toNat_of_nonneg (by omega), neg_sub]
  have whole : (n : ℚ) / ulp n = ((n * 2 ^ k : ℤ) : ℚ) := by
    rw [hk]
    push_cast
    field_simp
  have rounded : (roundHalfEven ((n : ℚ) / ulp n) : ℚ) * ulp n = n := by
    rw [whole, roundHalfEven_intCast, hk]
    push_cast
    field_simp
  have limit : |(n : ℚ)| ≤ maxDouble := by
    have cast : |(n : ℚ)| < 2 ^ 53 := by exact_mod_cast small
    calc |(n : ℚ)| ≤ 2 ^ 53 := cast.le
      _ ≤ (2 ^ 53 - 1) * 2 ^ 1 := by norm_num
      _ ≤ maxDouble := by
        rw [maxDouble]
        gcongr
        · norm_num
        · norm_num
  simp only [toDouble, rounded]
  rw [min_eq_right (abs_le.mp limit).2, max_eq_right (abs_le.mp limit).1]

theorem truncate_intCast (n : ℤ) : truncate n = n := by
  rw [truncate]
  split
  · rw [← Int.cast_neg, Int.floor_intCast, neg_neg]
  · exact Int.floor_intCast n

/-! ## Integers are read back -/

theorem isDigit_digitByte {d : Nat} (h : d < 10) : isDigit (digitByte d) := by
  revert d
  decide

theorem toNat_digitByte {d : Nat} (h : d < 10) : (digitByte d).toNat - 48 = d := by
  revert d
  decide

theorem all_isDigit_decimal (n : Nat) : ∀ c ∈ decimal n, isDigit c := by
  intro c hc
  rw [decimal] at hc
  split at hc
  · obtain rfl := List.mem_singleton.mp hc
    decide
  · obtain ⟨d, hd, rfl⟩ := List.mem_map.mp hc
    exact isDigit_digitByte (Nat.digits_lt_base (by norm_num) (List.mem_reverse.mp hd))

theorem decimal_ne_nil (n : Nat) : decimal n ≠ [] := by
  rw [decimal]
  split
  · exact List.cons_ne_nil _ _
  · rename_i some
    intro empty
    exact some (Nat.digits_eq_nil_iff_eq_zero.mp
      (List.reverse_eq_nil_iff.mp (List.map_eq_nil_iff.mp empty)))

/-- A number does not get smaller with more digits. -/
theorem ofDecimal_le_append (ds ds' : Bytes) : ofDecimal ds ≤ ofDecimal (ds ++ ds') := by
  have grows : ∀ (ds : Bytes) (n : Nat), n ≤ ds.foldl (fun n c => 10 * n + (c.toNat - 48)) n := by
    intro ds
    induction ds with
    | nil => intro n; exact le_rfl
    | cons d ds ih => intro n; exact (by omega : n ≤ 10 * n + (d.toNat - 48)).trans (ih _)
  rw [ofDecimal, ofDecimal, List.foldl_append]
  exact grows _ _

/-- A positive number gets greater with more digits. -/
theorem ofDecimal_lt_append {ds : Bytes} (positive : 0 < ofDecimal ds) {ds' : Bytes}
    (more : ds' ≠ []) : ofDecimal ds < ofDecimal (ds ++ ds') := by
  obtain ⟨d, ds', rfl⟩ := List.exists_cons_of_ne_nil more
  have next : ofDecimal (ds ++ [d]) = 10 * ofDecimal ds + (d.toNat - 48) := by
    rw [ofDecimal, List.foldl_append]
    rfl
  have rest := ofDecimal_le_append (ds ++ [d]) ds'
  rw [List.append_assoc] at rest
  exact (by omega : ofDecimal ds < ofDecimal (ds ++ [d])).trans_le rest

/-- Reading digits from the back. -/
theorem ofDecimal_digits (ds : List Nat) :
    (∀ d ∈ ds, d < 10) → ofDecimal (ds.reverse.map digitByte) = Nat.ofDigits 10 ds := by
  induction ds with
  | nil => intro _; rfl
  | cons d ds ih =>
      intro small
      have others := ih fun d hd => small d (List.mem_cons_of_mem _ hd)
      rw [List.reverse_cons, List.map_append, ofDecimal, List.foldl_append]
      rw [ofDecimal] at others
      rw [others, Nat.ofDigits_cons]
      simp only [List.map_cons, List.map_nil, List.foldl_cons, List.foldl_nil,
        toNat_digitByte (small d List.mem_cons_self)]
      exact Nat.add_comm _ _

/-- A natural number is printed without a sign. -/
theorem decimalInt_natCast (n : Nat) : decimalInt n = decimal n := by
  rw [decimalInt, if_neg (by omega), Int.natAbs_natCast]

theorem ofDecimal_decimal (n : Nat) : ofDecimal (decimal n) = n := by
  rw [decimal]
  split
  · rename_i zero
    rw [zero]
    rfl
  · rw [ofDecimal_digits _ fun d hd => Nat.digits_lt_base (by norm_num) hd,
      Nat.ofDigits_digits]

theorem decimal_injective : Function.Injective decimal :=
  Function.LeftInverse.injective ofDecimal_decimal

theorem minus_notMem_decimal (n : Nat) : (45#8 : Byte) ∉ decimal n := fun member =>
  absurd (all_isDigit_decimal n _ member) (by decide)

/-- Different integers are printed differently: the sign is not a digit. -/
theorem decimalInt_injective : Function.Injective decimalInt := by
  intro v w same
  have noSign (n : Nat) (s : Bytes) : 45#8 :: s ≠ decimal n := fun eq =>
    minus_notMem_decimal n (eq ▸ List.mem_cons_self)
  simp only [decimalInt] at same
  split_ifs at same with negative negative' negative'
  · have digits := decimal_injective (List.cons.inj same).2
    omega
  · exact absurd same (noSign _ _)
  · exact absurd same.symm (noSign _ _)
  · have digits := decimal_injective same
    omega

/-- The digits of a number are all that is read. -/
theorem readDouble_sign {text : Bytes} {negative : Bool} {n : Nat}
    (sign : readSign text = (negative, decimal n)) :
    readDouble text = toDouble (if negative then -(n : ℚ) else n) := by
  have digits := List.takeWhile_eq_self_iff.mpr (all_isDigit_decimal n)
  have others := List.dropWhile_eq_nil_iff.mpr (all_isDigit_decimal n)
  simp only [readDouble, sign, digits, others, readFraction, decimal_ne_nil n, false_and,
    if_false, readExponent, List.append_nil, ofDecimal_decimal, List.length_nil, Nat.cast_zero,
    sub_zero, zpow_zero, mul_one]

theorem readSign_of_isDigit {s : Bytes} (h : ∀ c ∈ s.head?, isDigit c) :
    readSign s = (false, s) := by
  cases s with
  | nil => rfl
  | cons c s =>
      have digit : isDigit c := h c rfl
      have minus : c ≠ 45#8 := by rintro rfl; exact absurd digit (by decide)
      have plus : c ≠ 43#8 := by rintro rfl; exact absurd digit (by decide)
      rw [readSign, if_neg minus, if_neg plus]

/-- **An integer of up to 53 bits is read back.** -/
theorem readDouble_decimalInt {v : ℤ} (small : |v| < 2 ^ 53) : readDouble (decimalInt v) = v := by
  rw [decimalInt]
  by_cases negative : v < 0
  · have sign : readSign (45#8 :: decimal v.natAbs) = (true, decimal v.natAbs) := rfl
    rw [if_pos negative, readDouble_sign sign, if_pos rfl]
    have value : -((v.natAbs : ℕ) : ℚ) = v := by
      rw [Nat.cast_natAbs, abs_of_neg negative]
      push_cast
      exact neg_neg _
    rw [value, toDouble_intCast small]
  · have sign : readSign (decimal v.natAbs) = (false, decimal v.natAbs) :=
      readSign_of_isDigit fun c hc => all_isDigit_decimal _ c (List.mem_of_mem_head? hc)
    have value : ((v.natAbs : ℕ) : ℚ) = v := by
      rw [Nat.cast_natAbs, abs_of_nonneg (not_lt.mp negative)]
    rw [if_neg negative, readDouble_sign sign, if_neg Bool.false_ne_true, value,
      toDouble_intCast small]

end Cluon.Library
