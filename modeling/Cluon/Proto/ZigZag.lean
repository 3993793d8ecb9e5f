import Cluon.Library.ByteOrder

/-!
# ZigZag

ZigZag maps signed numbers of small magnitude to small unsigned numbers. C++ computes
`(v << 1) ^ (v >> (N - 1))` and `(v >> 1) ^ -(v & 1)` on operands promoted to `int` when
the type is narrower than `int`, and narrows the result. Promotion makes no difference:
bit `i` of the ZigZag value is bit `i - 1` of the number flipped by the sign
(`getLsbD_toZigZag`), so the two functions are inverse for every width
(`fromZigZag_toZigZag`).
-/

set_option autoImplicit false

namespace Cluon

/-- `(v << 1) ^ (v >> (w - 1))` computed in `p` bits, for a signed `v` of `w` bits. -/
def toZigZag (p w : Nat) (v : BitVec w) : BitVec w :=
  let q := v.signExtend p
  ((q <<< 1) ^^^ q.sshiftRight (w - 1)).setWidth w

/-- `(v >> 1) ^ -(v & 1)` computed in `p` bits, for an unsigned `v` of `w` bits. -/
def fromZigZag (p w : Nat) (v : BitVec w) : BitVec w :=
  let q := v.setWidth p
  ((q >>> 1) ^^^ -(q &&& 1#p)).setWidth w

def toZigZag8 : BitVec 8 → BitVec 8 := toZigZag 32 8

def toZigZag16 : BitVec 16 → BitVec 16 := toZigZag 32 16

def toZigZag32 : BitVec 32 → BitVec 32 := toZigZag 32 32

def toZigZag64 : BitVec 64 → BitVec 64 := toZigZag 64 64

def fromZigZag8 : BitVec 8 → BitVec 8 := fromZigZag 32 8

def fromZigZag16 : BitVec 16 → BitVec 16 := fromZigZag 32 16

def fromZigZag32 : BitVec 32 → BitVec 32 := fromZigZag 32 32

def fromZigZag64 : BitVec 64 → BitVec 64 := fromZigZag 64 64

theorem and_one_eq {p : Nat} (q : BitVec p) : q &&& 1#p = if q.getLsbD 0 then 1#p else 0#p := by
  apply BitVec.eq_of_getLsbD_eq
  intro j hj
  by_cases h0 : j = 0
  · subst h0
    cases h : q.getLsbD 0 <;> simp [h]
  · cases h : q.getLsbD 0 <;> simp [h0]

theorem getLsbD_neg_and_one {p : Nat} (q : BitVec p) (i : Nat) (hi : i < p) :
    (-(q &&& 1#p)).getLsbD i = q.getLsbD 0 := by
  rw [and_one_eq]
  cases q.getLsbD 0 with
  | false => simp
  | true => simp [hi, BitVec.neg_one_eq_allOnes]

section Width

variable {p w : Nat} (hw : 0 < w)
include hw

theorem getLsbD_signExtend_high (v : BitVec w) (j : Nat) (hj : w - 1 ≤ j) (hjp : j < p) :
    (v.signExtend p).getLsbD j = v.msb := by
  rw [BitVec.getLsbD_signExtend]
  by_cases h : j < w
  · have last : j = w - 1 := by omega
    subst last
    simp [hjp, h, BitVec.msb_eq_getLsbD_last]
  · simp [hjp, h]

variable (hp : w ≤ p)
include hp

theorem getLsbD_sign (v : BitVec w) (i : Nat) (hi : i < p) :
    ((v.signExtend p).sshiftRight (w - 1)).getLsbD i = v.msb := by
  have top : (v.signExtend p).msb = v.msb := by
    rw [BitVec.msb_eq_getLsbD_last, getLsbD_signExtend_high hw v _ (by omega) (by omega)]
  rw [BitVec.getLsbD_sshiftRight, top]
  by_cases inside : w - 1 + i < p
  · rw [getLsbD_signExtend_high hw v _ (by omega) inside]
    simp
    omega
  · simp [inside]
    omega

/-- **The bits of a ZigZag value.** -/
theorem getLsbD_toZigZag (v : BitVec w) (i : Nat) (hi : i < w) :
    (toZigZag p w v).getLsbD i = ((decide (0 < i) && v.getLsbD (i - 1)) ^^ v.msb) := by
  have inPromoted : i < p := by omega
  simp only [toZigZag, BitVec.getLsbD_setWidth, BitVec.getLsbD_xor,
    getLsbD_sign hw hp v i inPromoted, BitVec.getLsbD_shiftLeft, BitVec.getLsbD_signExtend]
  by_cases h0 : i = 0
  · simp [h0]
    omega
  · have positive : 0 < i := by omega
    have notBelow : ¬ i < 1 := by omega
    have shifted : i - 1 < p := by omega
    have shiftedIn : i - 1 < w := by omega
    simp [hi, inPromoted, positive, notBelow, shifted, shiftedIn]

/-- **ZigZag is invertible** for every width, also when computed in a wider type. -/
theorem fromZigZag_toZigZag (v : BitVec w) : fromZigZag p w (toZigZag p w v) = v := by
  apply BitVec.eq_of_getLsbD_eq
  intro i hi
  have inPromoted : i < p := by omega
  have nonempty : 0 < p := by omega
  simp only [fromZigZag, BitVec.getLsbD_setWidth, BitVec.getLsbD_xor, BitVec.getLsbD_ushiftRight,
    getLsbD_neg_and_one _ _ inPromoted, getLsbD_toZigZag hw hp v 0 hw]
  by_cases inner : i + 1 < w
  · have shifted : i + 1 < p := by omega
    rw [Nat.add_comm 1 i, getLsbD_toZigZag hw hp v _ inner]
    simp [hi, nonempty, shifted]
  · have last : i = w - 1 := by omega
    have beyond : (toZigZag p w v).getLsbD (1 + i) = false := BitVec.getLsbD_of_ge _ _ (by omega)
    rw [beyond]
    subst last
    simp [hi, nonempty, BitVec.msb_eq_getLsbD_last]

end Width

end Cluon
