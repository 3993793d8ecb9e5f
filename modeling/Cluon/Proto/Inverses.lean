import Cluon.Proto.VarInt
import Cluon.Proto.ZigZag

/-!
# Reading a number back

`toVarInt(out, v)` puts bytes to a stream and counts them in `size`, which starts at one
for the byte behind the loop (`toVarIntLoop`). It puts the bytes of `toVarInt v` behind
those already in the stream, and `size` is their number (`toVarIntLoop_eq`). A stream
positioned where these bytes begin is read by `fromVarInt` up to where they end, with the
number itself and the same `size` as results (`fromVarInt_writtenStream`).

A signed number is written as its ZigZag value, widened to 64 bits, and the value read is
narrowed to the width of the number before it is converted back. Widening loses nothing,
so the number comes back whenever its width is at most 64 (`fromZigZag_writtenStream`).
-/

set_option autoImplicit false

namespace Cluon

open Library InputStream

/-! ## Writing behind what is in a stream -/

/-- The loop of `toVarInt(out, v)` and the final byte: what is in the stream then, and
`size`. -/
def toVarIntLoop (out : Bytes) (v : BitVec 64) (size : Nat) : Bytes × Nat :=
  if 0x7f#64 < v then
    toVarIntLoop (out ++ [(v &&& 0x7f#64).setWidth 8 ||| 0x80#8]) (v >>> 7) (size + 1)
  else (out ++ [v.setWidth 8 &&& 0x7f#8], size)
termination_by v.toNat
decreasing_by
  rename_i h
  have big : 0x7f < v.toNat := by simpa [BitVec.lt_def] using h
  simp only [BitVec.toNat_ushiftRight, Nat.shiftRight_eq_div_pow]
  omega

/-- `toVarInt(out, v)`: what is in the stream then, and the size it returns. -/
def toVarIntOnto (out : Bytes) (v : BitVec 64) : Bytes × Nat := toVarIntLoop out v 1

/-- The loop puts the bytes of the varint and counts all of them but the first. -/
theorem toVarIntLoop_eq (out : Bytes) (v : BitVec 64) (size : Nat) :
    (toVarIntLoop out v size).1 = out ++ toVarInt v ∧
      (toVarIntLoop out v size).2 + 1 = size + (toVarInt v).length := by
  induction out, v, size using toVarIntLoop.induct with
  | case1 out v size big ih =>
      obtain ⟨written, counted⟩ := ih
      rw [toVarIntLoop, if_pos big, toVarInt, if_pos big]
      constructor
      · rw [written, List.append_assoc, List.singleton_append]
      · rw [counted, List.length_cons]
        omega
  | case2 out v size small =>
      rw [toVarIntLoop, if_neg small, toVarInt, if_neg small]
      exact ⟨rfl, rfl⟩

/-- `toVarInt` returns the number of bytes it puts. -/
theorem toVarIntOnto_eq (out : Bytes) (v : BitVec 64) :
    toVarIntOnto out v = (out ++ toVarInt v, (toVarInt v).length) := by
  obtain ⟨written, counted⟩ := toVarIntLoop_eq out v 1
  apply Prod.ext
  · exact written
  · exact Nat.add_right_cancel (counted.trans (Nat.add_comm 1 _))

/-! ## Reading where the bytes begin -/

/-- A stream positioned where `toVarInt` began to put the bytes of `v` behind `out`, with `t`
behind these bytes. -/
def writtenStream (out : Bytes) (v : BitVec 64) (t : Bytes) : InputStream :=
  ⟨(toVarIntOnto out v).1 ++ t, out.length, false, false⟩

theorem rest_writtenStream (out : Bytes) (v : BitVec 64) (t : Bytes) :
    (writtenStream out v t).rest = toVarInt v ++ t := by
  rw [writtenStream, rest, toVarIntOnto_eq, List.append_assoc, List.drop_left]

/-- **A number is read back** up to the end of its bytes. -/
theorem fromVarInt_writtenStream (out : Bytes) (v : BitVec 64) (t : Bytes) :
    fromVarInt (writtenStream out v t) =
      (v, (toVarIntOnto out v).2, (writtenStream out v t).advance (toVarIntOnto out v).2) := by
  rw [fromVarInt_append (isVarInt_toVarInt v) rfl (rest_writtenStream out v t),
    varIntValue_toVarInt, toVarIntOnto_eq]

/-- What is left behind the bytes of a number. -/
theorem rest_fromVarInt_writtenStream (out : Bytes) (v : BitVec 64) (t : Bytes) :
    (fromVarInt (writtenStream out v t)).2.2.rest = t := by
  rw [fromVarInt_writtenStream, toVarIntOnto_eq]
  exact rest_advance_append (rest_writtenStream out v t)

/-- **A signed number is read back** through the varint of its ZigZag value. -/
theorem fromZigZag_writtenStream {p w : Nat} (hw : 0 < w) (hp : w ≤ p) (fits : w ≤ 64)
    (x : BitVec w) (out t : Bytes) :
    fromZigZag p w
      ((fromVarInt (writtenStream out ((toZigZag p w x).setWidth 64) t)).1.setWidth w) = x := by
  have narrowed : ((toZigZag p w x).setWidth 64).setWidth w = toZigZag p w x := by
    rw [BitVec.setWidth_setWidth_of_le _ fits, BitVec.setWidth_eq]
  rw [fromVarInt_writtenStream, narrowed]
  exact fromZigZag_toZigZag hw hp x

/-- **Varints and ZigZag values are invertible.** -/
theorem varInt_zigZag_inverse (out t : Bytes) :
    (∀ v : BitVec 64,
      (toVarIntOnto out v).1.length = out.length + (toVarIntOnto out v).2 ∧
      (fromVarInt (writtenStream out v t)).1 = v ∧
      (fromVarInt (writtenStream out v t)).2.1 = (toVarIntOnto out v).2 ∧
      (fromVarInt (writtenStream out v t)).2.2 =
        (writtenStream out v t).advance (toVarIntOnto out v).2 ∧
      (fromVarInt (writtenStream out v t)).2.2.rest = t) ∧
    (∀ x : BitVec 8, fromZigZag8 (toZigZag8 x) = x ∧
      fromZigZag8
        ((fromVarInt (writtenStream out ((toZigZag8 x).setWidth 64) t)).1.setWidth 8) = x) ∧
    (∀ x : BitVec 16, fromZigZag16 (toZigZag16 x) = x ∧
      fromZigZag16
        ((fromVarInt (writtenStream out ((toZigZag16 x).setWidth 64) t)).1.setWidth 16) = x) ∧
    (∀ x : BitVec 32, fromZigZag32 (toZigZag32 x) = x ∧
      fromZigZag32
        ((fromVarInt (writtenStream out ((toZigZag32 x).setWidth 64) t)).1.setWidth 32) = x) ∧
    (∀ x : BitVec 64, fromZigZag64 (toZigZag64 x) = x ∧
      fromZigZag64 (fromVarInt (writtenStream out (toZigZag64 x) t)).1 = x) := by
  refine ⟨fun v => ?_, fun x => ?_, fun x => ?_, fun x => ?_, fun x => ?_⟩
  · refine ⟨?_, ?_, ?_, ?_, rest_fromVarInt_writtenStream out v t⟩
    · rw [toVarIntOnto_eq, List.length_append]
    · rw [fromVarInt_writtenStream]
    · rw [fromVarInt_writtenStream]
    · rw [fromVarInt_writtenStream]
  · have inverse : fromZigZag8 (toZigZag8 x) = x := fromZigZag_toZigZag (by omega) (by omega) x
    exact ⟨inverse, fromZigZag_writtenStream (by omega) (by omega) (by omega) x out t⟩
  · have inverse : fromZigZag16 (toZigZag16 x) = x := fromZigZag_toZigZag (by omega) (by omega) x
    exact ⟨inverse, fromZigZag_writtenStream (by omega) (by omega) (by omega) x out t⟩
  · have inverse : fromZigZag32 (toZigZag32 x) = x := fromZigZag_toZigZag (by omega) (by omega) x
    exact ⟨inverse, fromZigZag_writtenStream (by omega) (by omega) (by omega) x out t⟩
  · have inverse : fromZigZag64 (toZigZag64 x) = x := fromZigZag_toZigZag (by omega) (by omega) x
    have read : (fromVarInt (writtenStream out (toZigZag64 x) t)).1 = toZigZag64 x := by
      rw [fromVarInt_writtenStream]
    exact ⟨inverse, (congrArg fromZigZag64 read).trans inverse⟩

end Cluon
