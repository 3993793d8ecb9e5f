import Mathlib.Tactic.Common
import Mathlib.Tactic.Ring

/-!
# Bytes and byte order

A number occupies a fixed number of bytes, least significant byte first
(`leBytes`) or most significant byte first (`beBytes`). Reading the bytes back
in the same order returns the number modulo the range of the width
(`ofLeBytes_leBytes`, `ofBeBytes_beBytes`), so a machine word survives its own
byte representation (`word_leBytes`, `word_beBytes`).
-/

set_option autoImplicit false

namespace Cluon.Library

/-- An octet. -/
abbrev Byte := BitVec 8

/-- A finite sequence of octets. -/
abbrev Bytes := List Byte

/-- The bytes of an ASCII text. -/
def asciiBytes (text : String) : Bytes := text.toList.map fun c => BitVec.ofNat 8 c.toNat

/-- The lowest `n` bytes of a number, least significant byte first. -/
def leBytes : Nat → Nat → Bytes
  | 0, _ => []
  | n + 1, v => BitVec.ofNat 8 v :: leBytes n (v / 256)

/-- The number whose bytes are given least significant byte first. -/
def ofLeBytes : Bytes → Nat
  | [] => 0
  | b :: bs => b.toNat + 256 * ofLeBytes bs

/-- The lowest `n` bytes of a number, most significant byte first. -/
def beBytes (n v : Nat) : Bytes := (leBytes n v).reverse

/-- The number whose bytes are given most significant byte first. -/
def ofBeBytes (bs : Bytes) : Nat := ofLeBytes bs.reverse

/-- The bytes of a literal. -/
theorem asciiBytes_ofList (cs : List Char) :
    asciiBytes (String.ofList cs) = cs.map fun c => BitVec.ofNat 8 c.toNat := by
  rw [asciiBytes, String.toList_ofList]

@[simp] theorem leBytes_length (n v : Nat) : (leBytes n v).length = n := by
  induction n generalizing v with
  | zero => rfl
  | succ n ih => simp [leBytes, ih]

@[simp] theorem beBytes_length (n v : Nat) : (beBytes n v).length = n := by
  simp [beBytes]

theorem ofLeBytes_leBytes (n v : Nat) : ofLeBytes (leBytes n v) = v % 256 ^ n := by
  induction n generalizing v with
  | zero => simp [leBytes, ofLeBytes, Nat.mod_one]
  | succ n ih =>
      have split : v % 256 ^ (n + 1) = v % 256 + 256 * (v / 256 % 256 ^ n) := by
        rw [pow_succ', Nat.mod_mul]
      have low : (BitVec.ofNat 8 v).toNat = v % 256 := by simp
      rw [leBytes, ofLeBytes, ih, low, split]

theorem ofBeBytes_beBytes (n v : Nat) : ofBeBytes (beBytes n v) = v % 256 ^ n := by
  rw [ofBeBytes, beBytes, List.reverse_reverse, ofLeBytes_leBytes]

/-- A word of `n` bytes is its own little-endian representation read back. -/
theorem word_leBytes {w : Nat} (n : Nat) (hw : 2 ^ w = 256 ^ n) (v : BitVec w) :
    BitVec.ofNat w (ofLeBytes (leBytes n v.toNat)) = v := by
  rw [ofLeBytes_leBytes, ← hw, Nat.mod_eq_of_lt v.isLt, BitVec.ofNat_toNat, BitVec.setWidth_eq]

/-- A word of `n` bytes is its own big-endian representation read back. -/
theorem word_beBytes {w : Nat} (n : Nat) (hw : 2 ^ w = 256 ^ n) (v : BitVec w) :
    BitVec.ofNat w (ofBeBytes (beBytes n v.toNat)) = v := by
  rw [ofBeBytes_beBytes, ← hw, Nat.mod_eq_of_lt v.isLt, BitVec.ofNat_toNat, BitVec.setWidth_eq]

theorem ofLeBytes_lt (bs : Bytes) : ofLeBytes bs < 256 ^ bs.length := by
  induction bs with
  | nil => simp [ofLeBytes]
  | cons b bs ih =>
      have hb : b.toNat < 256 := b.isLt
      simp only [ofLeBytes, List.length_cons, pow_succ']
      omega

theorem ofLeBytes_append (a b : Bytes) :
    ofLeBytes (a ++ b) = ofLeBytes a + 256 ^ a.length * ofLeBytes b := by
  induction a with
  | nil => simp [ofLeBytes]
  | cons x a ih =>
      rw [List.cons_append, ofLeBytes, ih, ofLeBytes, List.length_cons]
      ring

theorem ofBeBytes_append (a b : Bytes) :
    ofBeBytes (a ++ b) = ofBeBytes a * 256 ^ b.length + ofBeBytes b := by
  rw [ofBeBytes, List.reverse_append, ofLeBytes_append, List.length_reverse, ofBeBytes, ofBeBytes]
  ring

theorem ofBeBytes_lt (bs : Bytes) : ofBeBytes bs < 256 ^ bs.length := by
  have less := ofLeBytes_lt bs.reverse
  rwa [List.length_reverse] at less

/-- Bytes stand for zero exactly if they all are zero. -/
theorem ofBeBytes_eq_zero_iff (bs : Bytes) : ofBeBytes bs = 0 ↔ ∀ b ∈ bs, b = 0 := by
  have zero (l : Bytes) : ofLeBytes l = 0 ↔ ∀ b ∈ l, b = 0 := by
    induction l with
    | nil => simp [ofLeBytes]
    | cons b l ih =>
        rw [ofLeBytes, Nat.add_eq_zero_iff, Nat.mul_eq_zero, ih, List.forall_mem_cons]
        refine and_congr ⟨fun h => BitVec.eq_of_toNat_eq h, fun h => h ▸ rfl⟩ ?_
        exact or_iff_right (by norm_num)
  rw [ofBeBytes, zero]
  simp

/-- Bytes are the little-endian representation of the number they stand for. -/
theorem leBytes_ofLeBytes (bs : Bytes) : leBytes bs.length (ofLeBytes bs) = bs := by
  induction bs with
  | nil => rfl
  | cons b bs ih =>
      have hb : b.toNat < 256 := b.isLt
      have high : (b.toNat + 256 * ofLeBytes bs) / 256 = ofLeBytes bs := by omega
      have low : BitVec.ofNat 8 (b.toNat + 256 * ofLeBytes bs) = b := by
        apply BitVec.eq_of_toNat_eq
        rw [BitVec.toNat_ofNat]
        omega
      rw [List.length_cons, ofLeBytes, leBytes, high, low, ih]

/-- Bytes are the little-endian representation of the word they are read into. -/
theorem leBytes_word {w : Nat} {bs : Bytes} (hw : 2 ^ w = 256 ^ bs.length) :
    leBytes bs.length (BitVec.ofNat w (ofLeBytes bs)).toNat = bs := by
  rw [BitVec.toNat_ofNat, hw, Nat.mod_eq_of_lt (ofLeBytes_lt bs), leBytes_ofLeBytes]

/-- Bytes are the big-endian representation of the word they are read into. -/
theorem beBytes_word {w : Nat} {bs : Bytes} (hw : 2 ^ w = 256 ^ bs.length) :
    beBytes bs.length (BitVec.ofNat w (ofBeBytes bs)).toNat = bs := by
  rw [← List.length_reverse] at hw
  rw [beBytes, ofBeBytes, ← List.length_reverse, leBytes_word hw, List.reverse_reverse]

end Cluon.Library
