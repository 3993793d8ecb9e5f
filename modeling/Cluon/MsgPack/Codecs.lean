import Cluon.MsgPack.Reading

/-!
# The codecs of strings and integers

What `ToMsgPackVisitor` writes for a string is read back by `readString`, and exactly what
follows it remains, unless the string has 31 bytes, whose first byte the decoder does not know
(`readString_readsBack_iff`). What it writes for an integer begins with a byte that has room for
it, and is read back for every width and sign (`integer_readsBack`).
-/

set_option autoImplicit false

namespace Cluon

open Library InputStream MsgPackConstants

/-! ## Strings -/

section Strings

variable (uninit : Nat → Byte)

/-- `readString` returns the string from its encoding and leaves what follows. -/
def ReadsBackString (s : Bytes) : Prop :=
  ∀ (is : InputStream) (t : Bytes), is.good →
    is.rest = ToMsgPackVisitor.encodeString s ++ t →
    (readString uninit is).1 = s ∧ (readString uninit is).2.rest = t

/-- **The codec of strings** is right exactly for strings that do not have 31 bytes. -/
theorem readString_readsBack_iff {s : Bytes} (short : s.length < 2 ^ 32) :
    ReadsBackString uninit s ↔ s.length ≠ 31 := by
  constructor
  · intro readsBack h
    obtain ⟨same, _⟩ := readsBack (ofBytes (ToMsgPackVisitor.encodeString s)) [] rfl (by simp)
    rw [readString_31 uninit h rfl (List.append_nil _).symm] at same
    rw [← same] at h
    simp at h
  · intro not31 is t hg hr
    rw [readString_encodeString uninit ⟨short, not31⟩ hg hr]
    exact ⟨rfl, rest_advance_append hr⟩

theorem readString_readsBack_32 :
    ReadsBackString (fun _ => 0) (List.replicate 32 0x61) ↔
      (List.replicate 32 (0x61 : Byte)).length ≠ 31 :=
  readString_readsBack_iff (fun _ => 0) (by decide)

theorem not_readsBackString : ¬ ReadsBackString (fun _ => 0) (List.replicate 31 0x61) := by
  intro readsBack
  obtain ⟨same, _⟩ := readsBack
    (ofBytes (ToMsgPackVisitor.encodeString (List.replicate 31 0x61))) [] rfl (by simp)
  rw [readString_31 (fun _ => 0) List.length_replicate rfl (List.append_nil _).symm] at same
  exact absurd same (by decide)

end Strings

/-! ## Integers -/

/-- The fields whose values are signed or unsigned integers. -/
def ScalarType.IsInteger : ScalarType → Prop
  | .uint8 | .int8 | .uint16 | .int16 | .uint32 | .int32 | .uint64 | .int64 => True
  | _ => False

instance (t : ScalarType) : Decidable t.IsInteger := by
  cases t <;> simp only [ScalarType.IsInteger] <;> infer_instance

/-- The integer that a value is. -/
def ScalarType.number : (t : ScalarType) → t.Value → Int
  | .uint8, v => BitVec.toNat v
  | .int8, v => BitVec.toInt v
  | .uint16, v => BitVec.toNat v
  | .int16, v => BitVec.toInt v
  | .uint32, v => BitVec.toNat v
  | .int32, v => BitVec.toInt v
  | .uint64, v => BitVec.toNat v
  | .int64, v => BitVec.toInt v
  | _, _ => 0

/-- The least and the greatest integer that the first byte of an integer announces. -/
def tagRange (c : Byte) : Int × Int :=
  if c ≤ 0x7F then (c.toNat, c.toNat)
  else if c = uint8 then (0, 2 ^ 8 - 1)
  else if c = uint16 then (0, 2 ^ 16 - 1)
  else if c = uint32 then (0, 2 ^ 32 - 1)
  else if c = uint64 then (0, 2 ^ 64 - 1)
  else if 0xE0 ≤ c then (c.toInt, c.toInt)
  else if c = int8 then (-2 ^ 7, 2 ^ 7 - 1)
  else if c = int16 then (-2 ^ 15, 2 ^ 15 - 1)
  else if c = int32 then (-2 ^ 31, 2 ^ 31 - 1)
  else if c = int64 then (-2 ^ 63, 2 ^ 63 - 1)
  else (0, -1)

/-- The first byte has room for the integer. -/
def HasRoom (c : Byte) (n : Int) : Prop := (tagRange c).1 ≤ n ∧ n ≤ (tagRange c).2

/-- A number up to 127 is its own first byte. -/
theorem hasRoom_fixint {c : Byte} (h : c ≤ 0x7F) : HasRoom c c.toNat := by
  rw [HasRoom, tagRange, if_pos h]
  exact ⟨le_rfl, le_rfl⟩

/-- A small negative number is its own first byte. -/
theorem hasRoom_negfixint {c : Byte} (h : 0xE0 ≤ c) : HasRoom c c.toInt := by
  have range : ∀ c : Byte, 0xE0 ≤ c → tagRange c = (c.toInt, c.toInt) := by decide
  rw [HasRoom, range c h]
  exact ⟨le_rfl, le_rfl⟩

theorem hasRoom_encodeUint (v : BitVec 64) :
    ∃ c hs, ToMsgPackVisitor.encodeUint v = c :: hs ∧ HasRoom c v.toNat := by
  have range : v.toNat < 2 ^ 64 := v.isLt
  rw [ToMsgPackVisitor.encodeUint]
  by_cases fix : v ≤ 0x7F
  · have small : v.toNat ≤ 0x7F := fix
    have low : (v.setWidth 8).toNat = v.toNat := toNat_setWidth_of_lt (by omega)
    have fix' : v.setWidth 8 ≤ 0x7F := by
      rw [BitVec.le_def, low]
      exact small
    rw [if_pos fix]
    exact ⟨_, _, rfl, low ▸ hasRoom_fixint fix'⟩
  rw [if_neg fix]
  by_cases one : v ≤ 0xFF
  · have small : v.toNat ≤ 0xFF := one
    have room : tagRange uint8 = (0, 2 ^ 8 - 1) := by decide
    rw [if_pos one]
    refine ⟨_, _, rfl, ?_⟩
    rw [HasRoom, room]
    exact ⟨by omega, by omega⟩
  rw [if_neg one]
  by_cases two : v ≤ 0xFFFF
  · have small : v.toNat ≤ 0xFFFF := two
    have room : tagRange uint16 = (0, 2 ^ 16 - 1) := by decide
    rw [if_pos two]
    refine ⟨_, _, rfl, ?_⟩
    rw [HasRoom, room]
    exact ⟨by omega, by omega⟩
  rw [if_neg two]
  by_cases four : v ≤ 0xFFFFFFFF
  · have small : v.toNat ≤ 0xFFFFFFFF := four
    have room : tagRange uint32 = (0, 2 ^ 32 - 1) := by decide
    rw [if_pos four]
    refine ⟨_, _, rfl, ?_⟩
    rw [HasRoom, room]
    exact ⟨by omega, by omega⟩
  · have room : tagRange uint64 = (0, 2 ^ 64 - 1) := by decide
    rw [if_neg four]
    refine ⟨_, _, rfl, ?_⟩
    rw [HasRoom, room]
    exact ⟨by omega, by omega⟩

theorem hasRoom_encodeInt {v : BitVec 64} (negative : v.toInt < 0) :
    ∃ c hs, ToMsgPackVisitor.encodeInt v = c :: hs ∧ HasRoom c v.toInt := by
  have least : -2 ^ 63 ≤ v.toInt := BitVec.le_toInt v
  rw [ToMsgPackVisitor.encodeInt]
  by_cases fix : -31 ≤ v.toInt
  · have same := signExtend_setWidth (w := 8) (by omega) v (by omega) (by omega)
    have negative8 : (v.setWidth 8).toInt = v.toInt := by
      rw [← BitVec.toInt_signExtend_of_le (by omega : 8 ≤ 64), same]
    have fix' : 0xE0 ≤ v.setWidth 8 := by
      have split := BitVec.toInt_eq_toNat_cond (v.setWidth 8)
      rw [BitVec.le_def]
      simp only [BitVec.reduceToNat]
      split at split
      all_goals omega
    rw [if_pos fix]
    exact ⟨_, _, rfl, negative8 ▸ hasRoom_negfixint fix'⟩
  rw [if_neg fix]
  by_cases one : -2 ^ 7 ≤ v.toInt
  · have room : tagRange int8 = (-2 ^ 7, 2 ^ 7 - 1) := by decide
    rw [if_pos one]
    refine ⟨_, _, rfl, ?_⟩
    rw [HasRoom, room]
    exact ⟨one, by omega⟩
  rw [if_neg one]
  by_cases two : -2 ^ 15 ≤ v.toInt
  · have room : tagRange int16 = (-2 ^ 15, 2 ^ 15 - 1) := by decide
    rw [if_pos two]
    refine ⟨_, _, rfl, ?_⟩
    rw [HasRoom, room]
    exact ⟨two, by omega⟩
  rw [if_neg two]
  by_cases four : -2 ^ 31 ≤ v.toInt
  · have room : tagRange int32 = (-2 ^ 31, 2 ^ 31 - 1) := by decide
    rw [if_pos four]
    refine ⟨_, _, rfl, ?_⟩
    rw [HasRoom, room]
    exact ⟨four, by omega⟩
  · have room : tagRange int64 = (-2 ^ 63, 2 ^ 63 - 1) := by decide
    rw [if_neg four]
    refine ⟨_, _, rfl, ?_⟩
    rw [HasRoom, room]
    exact ⟨least, by omega⟩

/-- The first byte of a word of at most 64 bits without sign. -/
theorem hasRoom_unsigned {w : Nat} (h : w ≤ 64) (v : BitVec w) :
    ∃ c hs, ToMsgPackVisitor.encodeUint (v.setWidth 64) = c :: hs ∧ HasRoom c v.toNat := by
  have same : (v.setWidth 64).toNat = v.toNat := by
    rw [BitVec.toNat_setWidth,
      Nat.mod_eq_of_lt (v.isLt.trans_le (Nat.pow_le_pow_right (by omega) h))]
  exact same ▸ hasRoom_encodeUint (v.setWidth 64)

/-- The first byte of a word of at most 64 bits with sign. -/
theorem hasRoom_signed {w : Nat} (h : w ≤ 64) (v : BitVec w) :
    ∃ c hs, ToMsgPackVisitor.encodeSigned v = c :: hs ∧ HasRoom c v.toInt := by
  rw [ToMsgPackVisitor.encodeSigned]
  by_cases negative : v.toInt < 0
  · have same : (v.signExtend 64).toInt = v.toInt := BitVec.toInt_signExtend_of_le h
    rw [if_pos negative]
    exact same ▸ hasRoom_encodeInt (v := v.signExtend 64) (by rwa [same])
  · have same : (v.toNat : Int) = v.toInt := by
      have split := BitVec.toInt_eq_toNat_cond v
      have range := v.isLt
      split at split
      all_goals omega
    rw [if_neg negative]
    exact same ▸ hasRoom_unsigned h v

theorem hasRoom_encode {t : ScalarType} (integer : t.IsInteger) (v : t.Value) :
    ∃ c hs, ToMsgPackVisitor.encode t v = c :: hs ∧ HasRoom c (t.number v) := by
  cases t with
  | int8 | int16 | int32 | int64 => exact hasRoom_signed (by omega) v
  | uint8 | uint16 | uint32 => exact hasRoom_unsigned (by omega) v
  | uint64 => exact hasRoom_encodeUint v
  | bool | char | float | double | bytes | string => exact integer.elim

/-- **The codec of integers.** For every value of every integer type of a field the first byte
written has room for the value, and from any stream that continues with what was written the
decoder reads an entry, leaving exactly what follows, from which the visit of a field finds the
value. -/
theorem integer_readsBack (uninit : Nat → Byte)
    (readKeyValues : InputStream → Option (KeyValueMap Bytes MsgPackAny × InputStream))
    {t : ScalarType} (integer : t.IsInteger) (v : t.Value) :
    (∃ c hs, ToMsgPackVisitor.encode t v = c :: hs ∧ HasRoom c (t.number v)) ∧
    ∀ (is : InputStream) (rest : Bytes), is.good →
      is.rest = ToMsgPackVisitor.encode t v ++ rest →
      ∃ any is', readValue uninit readKeyValues is = some (any, is') ∧ is'.rest = rest ∧
        ∀ (field : FieldInfo) (prior : t.Value) (d : FromMsgPackVisitor),
          d.terminated = false → d.keyValues.find field.name = some any →
          FromMsgPackVisitor.visitor.visit field t prior d = (v, d) := by
  refine ⟨hasRoom_encode integer v, fun is rest hg hr => ?_⟩
  have readable : t.MsgPackReadable v := by
    cases t with
    | bytes | string => exact integer.elim
    | _ => trivial
  refine ⟨_, _, readValue_encode uninit readKeyValues t v readable hg hr, rest_advance_append hr,
    fun field prior d running found => ?_⟩
  have cast := MsgPackAny.castTo_ofValue t v
  simp [FromMsgPackVisitor.visitor, KeyValueVisitor.visitor, KeyValueVisitor.visit, running,
    found, MsgPackAny.kind, cast]

/-- The least number of 16 bits needs three bytes. -/
theorem integer_readsBack_int16 :
    (∃ c hs, ToMsgPackVisitor.encode .int16 0x8000#16 = c :: hs ∧
      HasRoom c (ScalarType.int16.number 0x8000#16)) ∧
    ∀ (is : InputStream) (rest : Bytes), is.good →
      is.rest = ToMsgPackVisitor.encode .int16 0x8000#16 ++ rest →
      ∃ any is', readValue (fun _ => 0) (fun _ => none) is = some (any, is') ∧ is'.rest = rest ∧
        ∀ (field : FieldInfo) (prior : BitVec 16) (d : FromMsgPackVisitor),
          d.terminated = false → d.keyValues.find field.name = some any →
          FromMsgPackVisitor.visitor.visit field .int16 prior d = (0x8000#16, d) :=
  integer_readsBack (fun _ => 0) (fun _ => none) (t := .int16) trivial 0x8000#16

end Cluon
