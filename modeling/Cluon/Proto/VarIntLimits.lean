import Cluon.Proto.VarInt
import Mathlib.Data.Nat.Digits.Defs
import Mathlib.Tactic.IntervalCases
import Mathlib.Tactic.Ring

/-!
# The limits of reading varints

The loop of `fromVarInt` shifts the seven lower bits of what `in.get()` returns by seven more
bits in every round, and leaves only behind a byte without continuation bit or at the end of
the stream. It always ends. Its first ten rounds shift by at most 63 bits; so all shifts stay
below the 64 bits of the operand, and the value is that of the groups modulo 2^64, exactly if
the next ten bytes of the stream are not all continuation bytes (`fromVarInt_within_iff`).

At the end of the stream, `in.get()` returns `-1`, whose lower seven bits count as a group of
the value although no byte has been read.
-/

set_option autoImplicit false

namespace Cluon

open Library InputStream

/-- A byte that announces a further byte. -/
def Continues (b : Byte) : Prop := b &&& 0x80#8 ≠ 0

instance (b : Byte) : Decidable (Continues b) := inferInstanceAs (Decidable (_ ≠ _))

/-- The lower seven bits of what `in.get()` returns in the rounds of `fromVarInt`. -/
def varIntGroups : Bytes → List Nat
  | [] => [0x7f]
  | b :: bs => b.toNat % 128 :: if Continues b then varIntGroups bs else []

/-- The lower seven bits of the bytes that `fromVarInt` reads. -/
def varIntByteGroups : Bytes → List Nat
  | [] => []
  | b :: bs => b.toNat % 128 :: if Continues b then varIntByteGroups bs else []

/-- Reading a varint stays within its operand: every shift is by less than 64 bits, the loop
ends, and the value is that of the groups modulo 2^64. -/
structure WithinOperand (groups : Bytes → List Nat) (is : InputStream) : Prop where
  shifts : ∀ (s : BitVec 64 × Nat) (js : InputStream),
    Reaches fromVarIntBody (0, 0) is s js → js.good → 7 * s.2 < 64
  ends : Ends fromVarIntBody (0, 0) is ((fromVarInt is).1, (fromVarInt is).2.1) (fromVarInt is).2.2
  value_eq : (fromVarInt is).1.toNat =
    Nat.ofDigits 128 (if is.good then groups is.rest else []) % 2 ^ 64

/-- The next ten bytes are continuation bytes. -/
def Overlong (is : InputStream) : Prop :=
  is.good ∧ 10 ≤ is.rest.length ∧ ∀ b ∈ is.rest.take 10, Continues b

/-- The stream ends within a varint of fewer than ten bytes, or before it. -/
def CutVarInt (is : InputStream) : Prop :=
  is.good ∧ is.rest.length < 10 ∧ ∀ b ∈ is.rest, Continues b

/-! ## Rounds and groups -/

theorem length_varIntGroups_pos (bs : Bytes) : 0 < (varIntGroups bs).length := by
  cases bs <;> simp [varIntGroups]

/-- More groups than `n` are read if the first `n` bytes are continuation bytes. -/
theorem lt_length_varIntGroups (n : Nat) (bs : Bytes) :
    n < (varIntGroups bs).length ↔ n ≤ bs.length ∧ ∀ b ∈ bs.take n, Continues b := by
  induction bs generalizing n with
  | nil => simp [varIntGroups]
  | cons b bs ih =>
      cases n with
      | zero => simp [varIntGroups]
      | succ n =>
          have more := ih n
          by_cases continues : Continues b
          · simp [varIntGroups, continues, more]
          · simp [varIntGroups, continues]

/-- The lower seven bits of a byte in 64 bits. -/
theorem toNat_group (b : Byte) : (b.setWidth 64 &&& 0x7f#64).toNat = b.toNat % 128 := by
  have ones : (127 : Nat) = 2 ^ 7 - 1 := rfl
  simp only [BitVec.toNat_and, BitVec.toNat_setWidth, BitVec.toNat_ofNat]
  norm_num
  rw [ones, Nat.and_two_pow_sub_one_eq_mod]
  omega

/-- Adding a group above the groups read so far. -/
theorem toNat_or_group {value group : BitVec 64} {size : Nat} (h : size ≤ 9)
    (below : value.toNat < 2 ^ (7 * size)) :
    (value ||| (group <<< (7 * size))).toNat =
      (value.toNat + 2 ^ (7 * size) * group.toNat) % 2 ^ 64 := by
  have split : (2 : Nat) ^ 64 = 2 ^ (7 * size) * 2 ^ (64 - 7 * size) := by
    rw [← pow_add]
    congr 1
    omega
  rw [BitVec.toNat_or, BitVec.toNat_shiftLeft, Nat.shiftLeft_eq, Nat.mul_comm group.toNat, split,
    Nat.mul_mod_mul_left, Nat.or_comm, ← Nat.two_pow_add_eq_or_of_lt below]
  have room : 2 ^ (7 * size) * (group.toNat % 2 ^ (64 - 7 * size)) + value.toNat <
      2 ^ (7 * size) * 2 ^ (64 - 7 * size) := by
    have least := Nat.mod_lt group.toNat (Nat.two_pow_pos (64 - 7 * size))
    calc 2 ^ (7 * size) * (group.toNat % 2 ^ (64 - 7 * size)) + value.toNat
        < 2 ^ (7 * size) * (group.toNat % 2 ^ (64 - 7 * size)) + 2 ^ (7 * size) :=
          Nat.add_lt_add_left below _
      _ = 2 ^ (7 * size) * (group.toNat % 2 ^ (64 - 7 * size) + 1) := (Nat.mul_succ _ _).symm
      _ ≤ _ := Nat.mul_le_mul_left _ least
  rw [← Nat.mod_eq_of_lt room, Nat.add_comm value.toNat, Nat.add_mod, ← Nat.mul_mod_mul_left]
  simp [Nat.add_mod]

/-- A continuation byte is one of the first nine, so its group fits completely. -/
theorem toNat_or_group_lt {value group : BitVec 64} {size : Nat} (h : size ≤ 8)
    (below : value.toNat < 2 ^ (7 * size)) (small : group.toNat < 128) :
    (value ||| (group <<< (7 * size))).toNat = value.toNat + 2 ^ (7 * size) * group.toNat ∧
      value.toNat + 2 ^ (7 * size) * group.toNat < 2 ^ (7 * (size + 1)) := by
  have next : value.toNat + 2 ^ (7 * size) * group.toNat < 2 ^ (7 * (size + 1)) := by
    calc value.toNat + 2 ^ (7 * size) * group.toNat
        < 2 ^ (7 * size) + 2 ^ (7 * size) * group.toNat := Nat.add_lt_add_right below _
      _ = 2 ^ (7 * size) * (group.toNat + 1) := by ring
      _ ≤ 2 ^ (7 * size) * 128 := Nat.mul_le_mul_left _ small
      _ = 2 ^ (7 * (size + 1)) := by rw [Nat.mul_succ 7 size, pow_add]; rfl
  refine ⟨?_, next⟩
  rw [toNat_or_group (by omega) below]
  exact Nat.mod_eq_of_lt (next.trans_le (Nat.pow_le_pow_right (by omega) (by omega)))

/-- The round at the end of the stream. -/
theorem fromVarIntBody_nil (value : BitVec 64) (size : Nat) {is : InputStream} (hg : is.good)
    (hr : is.rest = []) :
    fromVarIntBody (value, size) is =
      (true, (value ||| (0x7f#64 <<< (7 * size)), size + 1), is.exhausted) := by
  simp [fromVarIntBody, get_nil hg hr]

/-- **What the loop computes** if it runs for at most ten rounds. -/
theorem toNat_whileGood_fromVarIntBody (bs : Bytes) :
    ∀ (value : BitVec 64) (size : Nat) {is : InputStream}, is.good → is.rest = bs →
      size + (varIntGroups bs).length ≤ 10 → value.toNat < 2 ^ (7 * size) →
      (whileGood fromVarIntBody (value, size) is).1.1.toNat =
        (value.toNat + 2 ^ (7 * size) * Nat.ofDigits 128 (varIntGroups bs)) % 2 ^ 64 := by
  induction bs with
  | nil =>
      intro value size is hg hr rounds below
      have ones : (0x7f#64).toNat = 0x7f := rfl
      rw [varIntGroups, List.length_singleton] at rounds
      rw [whileGood_again consumes_fromVarIntBody hg (fromVarIntBody_nil value size hg hr),
        whileGood_spoiled _ _ (good_exhausted is), toNat_or_group (by omega) below, ones,
        varIntGroups, Nat.ofDigits_singleton]
  | cons b bs ih =>
      intro value size is hg hr rounds below
      by_cases continues : Continues b
      · simp only [varIntGroups, if_pos continues, List.length_cons] at rounds ⊢
        have more := length_varIntGroups_pos bs
        have small : (b.setWidth 64 &&& 0x7f#64).toNat < 128 := by
          rw [toNat_group]
          exact Nat.mod_lt _ (by omega)
        obtain ⟨added, next⟩ := toNat_or_group_lt (by omega : size ≤ 8) below small
        rw [whileGood_again consumes_fromVarIntBody hg
          (fromVarIntBody_more continues value size hg hr)]
        rw [ih _ _ (good_advance_of hg 1) (by rw [rest_advance, hr]; rfl) (by omega)
          (added ▸ next), added, toNat_group, Nat.ofDigits_cons]
        congr 1
        have step : 2 ^ (7 * (size + 1)) = 2 ^ (7 * size) * 128 := by
          rw [Nat.mul_succ, pow_add]
          rfl
        rw [step]
        ring
      · simp only [varIntGroups, if_neg continues, List.length_singleton] at rounds ⊢
        rw [whileGood_break consumes_fromVarIntBody hg
          (fromVarIntBody_last (not_not.mp continues) value size hg hr)]
        rw [toNat_or_group (by omega) below, toNat_group, Nat.ofDigits_singleton]

/-- The shifts of the rounds: one for every group. -/
theorem forall_shifts_iff (bs : Bytes) :
    ∀ (value : BitVec 64) (size : Nat) {is : InputStream}, is.good → is.rest = bs →
      ((∀ (s : BitVec 64 × Nat) (js : InputStream),
          Reaches fromVarIntBody (value, size) is s js → js.good → 7 * s.2 < 64) ↔
        size + (varIntGroups bs).length ≤ 10) := by
  induction bs with
  | nil =>
      intro value size is hg hr
      rw [forall_reaches_iff (P := fun s _ => 7 * s.2 < 64) hg
        (fromVarIntBody_nil value size hg hr), varIntGroups, List.length_singleton]
      constructor
      · rintro ⟨first, _⟩
        omega
      · intro few
        refine ⟨by omega, fun s js reaches good => ?_⟩
        have spoiled := Reaches.of_spoiled (good_exhausted is) reaches
        exact absurd good (by rw [spoiled]; exact Bool.false_ne_true)
  | cons b bs ih =>
      intro value size is hg hr
      by_cases continues : Continues b
      · have more := length_varIntGroups_pos bs
        rw [forall_reaches_iff (P := fun s _ => 7 * s.2 < 64) hg
          (fromVarIntBody_more continues value size hg hr),
          ih _ _ (good_advance_of hg 1) (by rw [rest_advance, hr]; rfl)]
        simp only [varIntGroups, if_pos continues, List.length_cons]
        omega
      · have last := fromVarIntBody_last (not_not.mp continues) value size hg hr
        simp only [varIntGroups, if_neg continues, List.length_singleton]
        constructor
        · intro every
          have first := every _ _ .start hg
          simp only at first
          omega
        · intro few s js reaches _
          obtain ⟨rfl, rfl⟩ := reaches.of_break (by rw [last])
          omega

/-! ## The limit -/

theorem overlong_iff {is : InputStream} (hg : is.good) :
    Overlong is ↔ 10 < (varIntGroups is.rest).length := by
  rw [lt_length_varIntGroups, Overlong]
  exact and_iff_right hg

/-- The loop ends with what `fromVarInt` returns. -/
theorem ends_fromVarInt (is : InputStream) :
    Ends fromVarIntBody (0, 0) is ((fromVarInt is).1, (fromVarInt is).2.1) (fromVarInt is).2.2 :=
  ends_whileGood consumes_fromVarIntBody (0, 0) is

/-- The value of at most ten groups. -/
theorem toNat_fromVarInt {is : InputStream} (hg : is.good)
    (few : (varIntGroups is.rest).length ≤ 10) :
    (fromVarInt is).1.toNat = Nat.ofDigits 128 (varIntGroups is.rest) % 2 ^ 64 := by
  have computed := toNat_whileGood_fromVarIntBody is.rest 0 0 hg rfl (by omega) (by simp)
  simpa [fromVarInt] using computed

theorem withinOperand_groups_iff (is : InputStream) :
    WithinOperand varIntGroups is ↔ ¬ Overlong is := by
  by_cases hg : is.good
  · have shifts := forall_shifts_iff is.rest 0 0 hg rfl
    rw [overlong_iff hg, Nat.not_lt]
    constructor
    · intro within
      have := shifts.mp within.shifts
      omega
    · intro few
      refine ⟨shifts.mpr (by omega), ends_fromVarInt is, ?_⟩
      rw [toNat_fromVarInt hg few, if_pos hg]
  · have spoiled : is.good = false := by simpa using hg
    refine iff_of_true ⟨fun s js reaches good => ?_, ends_fromVarInt is, ?_⟩ fun long => hg long.1
    · exact absurd good (by rw [Reaches.of_spoiled spoiled reaches]; exact Bool.false_ne_true)
    · rw [fromVarInt_spoiled spoiled, if_neg hg]
      rfl

/-- Only at the end of the stream there is a group that is not one of a byte. -/
theorem varIntGroups_eq (bs : Bytes) :
    varIntGroups bs =
      varIntByteGroups bs ++ if ∀ b ∈ bs, Continues b then [0x7f] else [] := by
  induction bs with
  | nil => rfl
  | cons b bs ih =>
      by_cases continues : Continues b
      · simp [varIntGroups, varIntByteGroups, continues, ih]
      · simp [varIntGroups, varIntByteGroups, continues]

theorem length_varIntByteGroups_of_forall {bs : Bytes} (h : ∀ b ∈ bs, Continues b) :
    (varIntByteGroups bs).length = bs.length := by
  induction bs with
  | nil => rfl
  | cons b bs ih =>
      obtain ⟨continues, others⟩ := List.forall_mem_cons.mp h
      rw [varIntByteGroups, if_pos continues, List.length_cons, ih others, List.length_cons]

/-- The group of ones at the end of the stream changes the value. -/
theorem ofDigits_ones_ne (v : Nat) {n : Nat} (h : n ≤ 9) :
    (v + 128 ^ n * 0x7f) % 2 ^ 64 ≠ v % 2 ^ 64 := by
  intro same
  interval_cases n <;> omega

/-- **The limits of reading a varint.** Reading stays within its operand if and only if the next
ten bytes of the good stream are not all continuation bytes. If the group taken at the end of
the stream does not count as one that was read, the stream must not end within the varint
either. -/
theorem fromVarInt_within_iff (is : InputStream) :
    (WithinOperand varIntGroups is ↔ ¬ Overlong is) ∧
      (WithinOperand varIntByteGroups is ↔ ¬ Overlong is ∧ ¬ CutVarInt is) := by
  refine ⟨withinOperand_groups_iff is, ?_⟩
  have groups := withinOperand_groups_iff is
  constructor
  · intro within
    by_cases hg : is.good
    · have notLong : ¬ Overlong is := by
        rw [overlong_iff hg, Nat.not_lt]
        have := (forall_shifts_iff is.rest 0 0 hg rfl).mp within.shifts
        omega
      refine ⟨notLong, fun cut => ?_⟩
      obtain ⟨_, few, continue_⟩ := cut
      have same := within.value_eq
      rw [(groups.mpr notLong).value_eq, if_pos hg, if_pos hg, varIntGroups_eq,
        if_pos continue_, Nat.ofDigits_append, length_varIntByteGroups_of_forall continue_,
        Nat.ofDigits_singleton] at same
      exact ofDigits_ones_ne _ (by omega) same
    · exact ⟨fun long => hg long.1, fun cut => hg cut.1⟩
  · rintro ⟨notLong, notCut⟩
    have within := groups.mpr notLong
    refine ⟨within.shifts, within.ends, ?_⟩
    rw [within.value_eq]
    by_cases hg : is.good
    · have complete : ¬ ∀ b ∈ is.rest, Continues b := by
        intro continue_
        by_cases few : is.rest.length < 10
        · exact notCut ⟨hg, few, continue_⟩
        · exact notLong ⟨hg, by omega, fun b hb => continue_ b (List.mem_of_mem_take hb)⟩
      rw [if_pos hg, if_pos hg, varIntGroups_eq, if_neg complete, List.append_nil]
    · rw [if_neg hg, if_neg hg]

/-- Eleven continuation bytes make the loop shift by 70 bits. -/
theorem not_withinOperand :
    ¬ WithinOperand varIntGroups (ofBytes (List.replicate 11 0x80#8)) ∧
      ¬ WithinOperand varIntByteGroups (ofBytes (List.replicate 11 0x80#8)) := by
  have many : ¬ 0 + (varIntGroups (List.replicate 11 0x80#8)).length ≤ 10 := by decide
  constructor <;>
    exact fun within => many ((forall_shifts_iff _ 0 0 rfl rfl).mp within.shifts)

end Cluon
