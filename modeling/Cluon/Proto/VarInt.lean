import Cluon.Library.InputStream
import Mathlib.Tactic.NormNum

/-!
# Variable-length integers

`toVarInt` writes a 64-bit number in groups of seven bits, lowest group first, with
the most significant bit of a byte announcing a further byte. `fromVarInt` reads
bytes until one without that bit. At the end of a stream `in.get()` returns `-1`,
whose lower seven bits are all set, so a read at the end contributes a group of ones
and spoils the stream.

A complete varint is a sequence of bytes of which exactly the last has no
continuation bit (`IsVarInt`). `fromVarInt` consumes exactly such a sequence
(`fromVarInt_append`), and the sequence `toVarInt` writes for `v` is one with value
`v` (`isVarInt_toVarInt`, `varIntValue_toVarInt`).
-/

set_option autoImplicit false

namespace Cluon

open Library InputStream

/-! ## Varints -/

/-- `toVarInt(out, v)`: the bytes put to `out`. -/
def toVarInt (v : BitVec 64) : Bytes :=
  if 0x7f#64 < v then
    ((v &&& 0x7f#64).setWidth 8 ||| 0x80#8) :: toVarInt (v >>> 7)
  else [v.setWidth 8 &&& 0x7f#8]
termination_by v.toNat
decreasing_by
  rename_i h
  have big : 0x7f < v.toNat := by simpa [BitVec.lt_def] using h
  simp only [BitVec.toNat_ushiftRight, Nat.shiftRight_eq_div_pow]
  omega

/-- A number below 128 is its own varint. -/
theorem toVarInt_of_lt {v : BitVec 64} (h : v < 0x80#64) : toVarInt v = [v.setWidth 8] := by
  have below : v.toNat < 128 := h
  have small : ¬ 0x7f#64 < v := Nat.not_lt.mpr (Nat.le_of_lt_succ below)
  have low : (v.setWidth 8).toNat = v.toNat := by
    rw [BitVec.toNat_setWidth, Nat.mod_eq_of_lt (by omega)]
  rw [toVarInt, if_neg small]
  congr 1
  apply BitVec.eq_of_toNat_eq
  rw [BitVec.toNat_and, low]
  exact (Nat.and_two_pow_sub_one_eq_mod v.toNat 7).trans (Nat.mod_eq_of_lt below)

/-- One round of the loop of `fromVarInt`, on the value and the size read so far. -/
def fromVarIntBody : Body (BitVec 64 × Nat) := fun (value, size) is =>
  let (x, is') := is.get
  -- `static_cast<uint64_t>(in.get())`, where `in.get()` is `-1` at the end of the stream.
  let C : BitVec 64 := match x with
    | some b => b.setWidth 64
    | none => BitVec.allOnes 64
  (decide (C &&& 0x80#64 ≠ 0), (value ||| ((C &&& 0x7f#64) <<< (7 * size)), size + 1), is')

/-- `fromVarInt(in, value)`: the value, the number of bytes read, and the stream. -/
def fromVarInt (is : InputStream) : BitVec 64 × Nat × InputStream :=
  let ((value, size), is') := whileGood fromVarIntBody (0, 0) is
  (value, size, is')

/-- A complete varint: the last byte, and only the last, has no continuation bit. -/
inductive IsVarInt : Bytes → Prop where
  | last {b : Byte} : b &&& 0x80#8 = 0 → IsVarInt [b]
  | more {b : Byte} {bs : Bytes} : b &&& 0x80#8 ≠ 0 → IsVarInt bs → IsVarInt (b :: bs)

/-- The value of the bytes of a varint, continuing after `size` groups with value `value`. -/
def varIntValueFrom : BitVec 64 → Nat → Bytes → BitVec 64
  | value, _, [] => value
  | value, size, b :: bs =>
      varIntValueFrom (value ||| ((b.setWidth 64 &&& 0x7f#64) <<< (7 * size))) (size + 1) bs

/-- The value of the bytes of a varint. -/
def varIntValue (bs : Bytes) : BitVec 64 := varIntValueFrom 0 0 bs

theorem IsVarInt.ne_nil {bs : Bytes} (h : IsVarInt bs) : bs ≠ [] := by
  cases h <;> simp

theorem IsVarInt.length_pos {bs : Bytes} (h : IsVarInt bs) : 0 < bs.length :=
  List.length_pos_iff.mpr h.ne_nil

/-! ### Reading a varint -/

/-- The stream after an operation is not good, or was good before and is not longer. -/
def NotLonger (is is' : InputStream) : Prop :=
  is'.good → is.good ∧ is'.rest.length ≤ is.rest.length

theorem NotLonger.refl (is : InputStream) : NotLonger is is := fun h => ⟨h, Nat.le_refl _⟩

theorem NotLonger.trans {is is' is'' : InputStream} (first : NotLonger is is')
    (second : NotLonger is' is'') : NotLonger is is'' := by
  intro h
  obtain ⟨good', le'⟩ := second h
  obtain ⟨good, le⟩ := first good'
  exact ⟨good, le'.trans le⟩

theorem notLonger_read (is : InputStream) (n : Nat) : NotLonger is (is.read n).2 := by
  intro h
  by_cases hg : is.good
  · by_cases hn : n ≤ is.rest.length
    · rw [read_of_le hg hn] at h ⊢
      simp only [rest_advance, List.length_drop]
      exact ⟨hg, Nat.sub_le _ _⟩
    · rw [read_short hg (by omega)] at h
      simp at h
  · rw [read_spoiled (by simpa using hg)] at h
    simp [good] at h

/-- Getting a byte from a good stream shortens it or spoils it. -/
theorem get_shortens {is : InputStream} (hg : is.good) (h : is.get.2.good) :
    is.get.2.rest.length < is.rest.length := by
  cases hr : is.rest with
  | nil => simp [get_nil hg hr] at h
  | cons b t => simp [get_cons hg hr, hr]

theorem consumes_fromVarIntBody : Consumes fromVarIntBody := by
  intro s is hg _ h
  exact get_shortens hg h

theorem and_msb_setWidth (b : Byte) : b.setWidth 64 &&& 0x80#64 = 0 ↔ b &&& 0x80#8 = 0 := by
  decide +revert

theorem fromVarIntBody_last {b : Byte} (h : b &&& 0x80#8 = 0) (value : BitVec 64) (size : Nat)
    {is : InputStream} {t : Bytes} (hg : is.good) (hr : is.rest = b :: t) :
    fromVarIntBody (value, size) is =
      (false, (value ||| ((b.setWidth 64 &&& 0x7f#64) <<< (7 * size)), size + 1),
        is.advance 1) := by
  have stop : b.setWidth 64 &&& 0x80#64 = 0 := (and_msb_setWidth b).mpr h
  simp only [fromVarIntBody, get_cons hg hr, stop, ne_eq, not_true_eq_false, decide_false]

theorem fromVarIntBody_more {b : Byte} (h : b &&& 0x80#8 ≠ 0) (value : BitVec 64) (size : Nat)
    {is : InputStream} {t : Bytes} (hg : is.good) (hr : is.rest = b :: t) :
    fromVarIntBody (value, size) is =
      (true, (value ||| ((b.setWidth 64 &&& 0x7f#64) <<< (7 * size)), size + 1),
        is.advance 1) := by
  have goOn : b.setWidth 64 &&& 0x80#64 ≠ 0 := fun e => h ((and_msb_setWidth b).mp e)
  simp only [fromVarIntBody, get_cons hg hr, goOn, ne_eq, not_false_eq_true, decide_true]

theorem whileGood_fromVarIntBody {bs t : Bytes} (h : IsVarInt bs) :
    ∀ (value : BitVec 64) (size : Nat) {is : InputStream}, is.good → is.rest = bs ++ t →
      whileGood fromVarIntBody (value, size) is =
        ((varIntValueFrom value size bs, size + bs.length), is.advance bs.length) := by
  induction h with
  | @last b hb =>
      intro value size is hg hr
      rw [whileGood_break consumes_fromVarIntBody hg (fromVarIntBody_last hb value size hg hr)]
      rfl
  | @more b bs hb _ ih =>
      intro value size is hg hr
      rw [whileGood_again consumes_fromVarIntBody hg (fromVarIntBody_more hb value size hg hr)]
      rw [ih _ _ (by simpa using hg) (by rw [rest_advance, hr]; rfl)]
      simp only [varIntValueFrom, List.length_cons, advance_advance]
      rw [Nat.add_right_comm, Nat.add_comm 1 bs.length, Nat.add_assoc]

/-- **Reading a complete varint** returns its value and its length and consumes exactly it. -/
theorem fromVarInt_append {bs t : Bytes} (h : IsVarInt bs) {is : InputStream} (hg : is.good)
    (hr : is.rest = bs ++ t) :
    fromVarInt is = (varIntValue bs, bs.length, is.advance bs.length) := by
  simp only [fromVarInt, whileGood_fromVarIntBody h 0 0 hg hr, Nat.zero_add, varIntValue]

/-- Reading a varint at the end of a stream: one group of ones. -/
theorem fromVarInt_nil {is : InputStream} (hg : is.good) (hr : is.rest = []) :
    fromVarInt is = (0x7f#64, 1, is.exhausted) := by
  have round : fromVarIntBody (0, 0) is = (true, (0x7f#64, 1), is.exhausted) := by
    simp [fromVarIntBody, get_nil hg hr]
  simp only [fromVarInt]
  rw [whileGood_again consumes_fromVarIntBody hg round,
    whileGood_spoiled _ _ (good_exhausted is)]

theorem fromVarInt_spoiled {is : InputStream} (h : is.good = false) :
    fromVarInt is = (0, 0, is) := by
  simp only [fromVarInt, whileGood_spoiled _ _ h]

theorem notLonger_fromVarInt (is : InputStream) : NotLonger is (fromVarInt is).2.2 := by
  have step : ∀ (s : BitVec 64 × Nat) (js : InputStream), js.good → NotLonger is js →
      NotLonger is (fromVarIntBody s js).2.2 := fun s js hg before =>
    before.trans fun h => ⟨hg, (get_shortens hg h).le⟩
  exact whileGood_invariant (fun _ js => NotLonger is js) step (NotLonger.refl is)

/-- Reading a varint from a good stream shortens it or spoils it. -/
theorem fromVarInt_shortens {is : InputStream} (hg : is.good) (h : (fromVarInt is).2.2.good) :
    (fromVarInt is).2.2.rest.length < is.rest.length := by
  have unfolded := whileGood_unfold consumes_fromVarIntBody (0, 0) is
  rw [if_pos hg] at unfolded
  have shorter : (fromVarIntBody (0, 0) is).2.2.good →
      (fromVarIntBody (0, 0) is).2.2.rest.length < is.rest.length := fun h' =>
    get_shortens hg h'
  rcases hb : fromVarIntBody (0, 0) is with ⟨again, s, js⟩
  rw [hb] at unfolded shorter
  cases again with
  | false =>
      have result : (fromVarInt is).2.2 = js := by simp only [fromVarInt, unfolded]
      rw [result] at h ⊢
      exact shorter h
  | true =>
      have result : (fromVarInt is).2.2 = (whileGood fromVarIntBody s js).2 := by
        simp only [fromVarInt, unfolded]
      rw [result] at h ⊢
      have step : ∀ (s' : BitVec 64 × Nat) (ks : InputStream), ks.good → NotLonger js ks →
          NotLonger js (fromVarIntBody s' ks).2.2 := fun s' ks hk before =>
        before.trans fun h => ⟨hk, (get_shortens hk h).le⟩
      have later := whileGood_invariant (fun _ ks => NotLonger js ks) step (NotLonger.refl js)
        (s := s)
      obtain ⟨good', le⟩ := later h
      exact le.trans_lt (shorter good')

/-! ### Writing a varint -/

theorem getLsbD_mask7 (w i : Nat) (h : 7 ≤ w) :
    (BitVec.ofNat w 0x7f).getLsbD i = decide (i < 7) := by
  have ones : (0x7f : Nat) = 2 ^ 7 - 1 := rfl
  rw [BitVec.getLsbD_ofNat, ones, Nat.testBit_two_pow_sub_one]
  by_cases hi : i < 7 <;> simp [hi]
  omega

theorem getLsbD_msb7 (w i : Nat) (h : 8 ≤ w) :
    (BitVec.ofNat w 0x80).getLsbD i = decide (i = 7) := by
  have one : (0x80 : Nat) = 2 ^ 7 := rfl
  rw [BitVec.getLsbD_ofNat, one, Nat.testBit_two_pow]
  by_cases hi : i = 7 <;> simp [hi, eq_comm]
  omega

/-- The seven bits of a byte that announces a further byte. -/
theorem group_more (v : BitVec 64) :
    (((v &&& 0x7f#64).setWidth 8 ||| 0x80#8).setWidth 64) &&& 0x7f#64 = v &&& 0x7f#64 := by
  apply BitVec.eq_of_getLsbD_eq
  intro i hi
  simp only [BitVec.getLsbD_and, BitVec.getLsbD_or, BitVec.getLsbD_setWidth,
    getLsbD_mask7 64 i (by omega), getLsbD_msb7 8 i (by omega)]
  by_cases h : i < 7
  · have notMsb : i ≠ 7 := by omega
    have inByte : i < 8 := by omega
    simp [h, notMsb, inByte, hi]
  · simp [h]

/-- The seven bits of the last byte. -/
theorem group_last (v : BitVec 64) (h : ¬ 0x7f#64 < v) :
    ((v.setWidth 8 &&& 0x7f#8).setWidth 64) &&& 0x7f#64 = v := by
  have small : v.toNat < 128 := by
    simp only [BitVec.lt_def, BitVec.toNat_ofNat] at h
    omega
  apply BitVec.eq_of_toNat_eq
  have ones : (127 : Nat) = 2 ^ 7 - 1 := rfl
  simp only [BitVec.toNat_and, BitVec.toNat_setWidth, BitVec.toNat_ofNat]
  norm_num
  rw [ones, Nat.and_two_pow_sub_one_eq_mod, Nat.and_two_pow_sub_one_eq_mod]
  omega

/-- A number is its lowest group and the number of its further groups. -/
theorem group_split (v : BitVec 64) (s : Nat) :
    (v &&& 0x7f#64) <<< s ||| (v >>> 7) <<< (s + 7) = v <<< s := by
  apply BitVec.eq_of_getLsbD_eq
  intro i hi
  simp only [BitVec.getLsbD_or, BitVec.getLsbD_shiftLeft, BitVec.getLsbD_ushiftRight,
    BitVec.getLsbD_and, getLsbD_mask7 64 _ (by omega : 7 ≤ 64)]
  by_cases below : i < s
  · have alsoBelow : i < s + 7 := by omega
    simp [below, alsoBelow]
  · by_cases lowest : i - s < 7
    · have alsoBelow : i < s + 7 := by omega
      simp [below, lowest, alsoBelow]
    · have above : ¬ i < s + 7 := by omega
      have same : 7 + (i - (s + 7)) = i - s := by omega
      simp [below, lowest, above, same]

theorem msb_or_msb (b : Byte) : (b ||| 0x80#8) &&& 0x80#8 ≠ 0 := by decide +revert

theorem msb_and_mask (b : Byte) : (b &&& 0x7f#8) &&& 0x80#8 = 0 := by decide +revert

/-- **What `toVarInt` writes is a complete varint.** -/
theorem isVarInt_toVarInt (v : BitVec 64) : IsVarInt (toVarInt v) := by
  induction v using toVarInt.induct with
  | case1 v big ih =>
      rw [toVarInt, if_pos big]
      exact .more (msb_or_msb _) ih
  | case2 v small =>
      rw [toVarInt, if_neg small]
      exact .last (msb_and_mask _)

theorem varIntValueFrom_toVarInt (v : BitVec 64) : ∀ (value : BitVec 64) (size : Nat),
    varIntValueFrom value size (toVarInt v) = value ||| (v <<< (7 * size)) := by
  induction v using toVarInt.induct with
  | case1 v big ih =>
      intro value size
      rw [toVarInt, if_pos big, varIntValueFrom, ih, group_more, BitVec.or_assoc, Nat.mul_succ,
        group_split]
  | case2 v small =>
      intro value size
      rw [toVarInt, if_neg small, varIntValueFrom, varIntValueFrom, group_last v small]

/-- **The varint written for `v` has value `v`.** -/
theorem varIntValue_toVarInt (v : BitVec 64) : varIntValue (toVarInt v) = v := by
  rw [varIntValue, varIntValueFrom_toVarInt]
  simp

theorem length_toVarInt_le (v : BitVec 64) : ∀ k, v.toNat < 2 ^ (7 * (k + 1)) →
    (toVarInt v).length ≤ k + 1 := by
  induction v using toVarInt.induct with
  | case1 v big ih =>
      intro k hv
      rw [toVarInt, if_pos big, List.length_cons]
      have large : 0x7f < v.toNat := by simpa [BitVec.lt_def] using big
      have shifted : (v >>> 7).toNat = v.toNat / 128 := by
        simp [BitVec.toNat_ushiftRight, Nat.shiftRight_eq_div_pow]
      cases k with
      | zero =>
          simp only [Nat.zero_add, Nat.mul_one] at hv
          omega
      | succ k =>
          have pow : 2 ^ (7 * (k + 1 + 1)) = 2 ^ (7 * (k + 1)) * 128 := by
            rw [Nat.mul_succ 7 (k + 1), pow_add]
            rfl
          have := ih k (by rw [shifted]; omega)
          omega
  | case2 v small =>
      intro k _
      rw [toVarInt, if_neg small]
      simp

/-- A 64-bit number takes at most ten bytes. -/
theorem length_toVarInt (v : BitVec 64) : (toVarInt v).length ≤ 10 :=
  length_toVarInt_le v 9 (by have := v.isLt; omega)

end Cluon
