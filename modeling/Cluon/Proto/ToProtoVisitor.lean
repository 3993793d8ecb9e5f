import Cluon.Message.DataStructures
import Cluon.Proto.VarInt
import Cluon.Proto.ZigZag

/-!
# Encoding messages in Proto format

`ToProtoVisitor` appends to its buffer, for every field it visits, a key made of the
field's identifier and wire type, and the value in the encoding of that wire type: a
varint, four or eight bytes in little-endian order, or a length followed by as many
bytes. A nested message is encoded by a visitor of its own and stored as bytes.
-/

set_option autoImplicit false

namespace Cluon

open Library

/-! ## Wire types and keys -/

/-- The wire types, `ProtoConstants` in the source. -/
inductive ProtoConstants where
  | varint
  | eightBytes
  | lengthDelimited
  | fourBytes
  deriving DecidableEq, Repr

namespace ProtoConstants

/-- The number of a wire type. -/
def code : ProtoConstants → BitVec 8
  | .varint => 0
  | .eightBytes => 1
  | .lengthDelimited => 2
  | .fourBytes => 5

/-- The wire type with a given number; `switch` has no case for the other numbers. -/
def ofCode (c : BitVec 8) : Option ProtoConstants :=
  if c = 0 then some .varint
  else if c = 1 then some .eightBytes
  else if c = 2 then some .lengthDelimited
  else if c = 5 then some .fourBytes
  else none

@[simp] theorem ofCode_code (t : ProtoConstants) : ofCode t.code = some t := by
  cases t <;> rfl

end ProtoConstants

/-- The wire type of a scalar field. -/
def ScalarType.protoType : ScalarType → ProtoConstants
  | .float => .fourBytes
  | .double => .eightBytes
  | .bytes | .string => .lengthDelimited
  | _ => .varint

/-- `encodeKey(fieldIdentifier, protoType)`: computed in 32 bits and then widened. -/
def encodeKey (fieldIdentifier : BitVec 32) (protoType : ProtoConstants) : BitVec 64 :=
  ((fieldIdentifier <<< 3) ||| protoType.code.setWidth 32).setWidth 64

/-- The wire type number a decoder takes from a key. -/
def keyProtoType (key : BitVec 64) : BitVec 8 := (key &&& 0x7#64).setWidth 8

/-- The field identifier a decoder takes from a key. -/
def keyFieldId (key : BitVec 64) : BitVec 32 := (key >>> 3).setWidth 32

/-- The shift drops the upper three bits of a field identifier. -/
theorem toNat_encodeKey_mod (id : BitVec 32) (t : ProtoConstants) :
    (encodeKey id t).toNat = 8 * (id.toNat % 2 ^ 29) + t.code.toNat := by
  have shifted : (id <<< 3).toNat = 2 ^ 3 * (id.toNat % 2 ^ 29) := by
    rw [BitVec.toNat_shiftLeft, Nat.shiftLeft_eq]
    omega
  have small : t.code.toNat < 2 ^ 3 := by cases t <;> decide
  have low : (t.code.setWidth 32).toNat = t.code.toNat := by cases t <;> rfl
  rw [encodeKey, BitVec.toNat_setWidth, BitVec.toNat_or, shifted, low,
    ← Nat.two_pow_add_eq_or_of_lt small]
  omega

theorem toNat_encodeKey {id : BitVec 32} (h : id.toNat < 2 ^ 29) (t : ProtoConstants) :
    (encodeKey id t).toNat = 8 * id.toNat + t.code.toNat := by
  rw [toNat_encodeKey_mod, Nat.mod_eq_of_lt h]

/-- **A key gives back its wire type.** -/
theorem keyProtoType_encodeKey (id : BitVec 32) (t : ProtoConstants) :
    keyProtoType (encodeKey id t) = t.code := by
  have small : t.code.toNat < 8 := by cases t <;> decide
  have ones : (7 : Nat) = 2 ^ 3 - 1 := rfl
  apply BitVec.eq_of_toNat_eq
  have seven : (0x7#64).toNat = 7 := rfl
  rw [keyProtoType, BitVec.toNat_setWidth, BitVec.toNat_and, toNat_encodeKey_mod, seven, ones,
    Nat.and_two_pow_sub_one_eq_mod]
  omega

/-- What a key gives back of its field identifier. -/
theorem toNat_keyFieldId_encodeKey (id : BitVec 32) (t : ProtoConstants) :
    (keyFieldId (encodeKey id t)).toNat = id.toNat % 2 ^ 29 := by
  have small : t.code.toNat < 8 := by cases t <;> decide
  rw [keyFieldId, BitVec.toNat_setWidth, BitVec.toNat_ushiftRight, toNat_encodeKey_mod,
    Nat.shiftRight_eq_div_pow]
  omega

/-- **A key below 2^32 gives back its field identifier.** -/
theorem keyFieldId_encodeKey {id : BitVec 32} (h : id.toNat < 2 ^ 29) (t : ProtoConstants) :
    keyFieldId (encodeKey id t) = id := by
  apply BitVec.eq_of_toNat_eq
  rw [toNat_keyFieldId_encodeKey, Nat.mod_eq_of_lt h]

/-! ## Values -/

namespace ToProtoVisitor

/-- `encode(o, v)` for `std::string`. -/
def encodeString (s : Bytes) : Bytes := toVarInt (BitVec.ofNat 64 s.length) ++ s

/-- `encode(o, v)`: the bytes written for a scalar value. -/
def encode : (t : ScalarType) → t.Value → Bytes
  | .bool, v => toVarInt (if v then 1 else 0)
  | .char, v => toVarInt (v.setWidth 64)
  | .uint8, v => toVarInt (v.setWidth 64)
  | .int8, v => toVarInt ((toZigZag8 v).setWidth 64)
  | .uint16, v => toVarInt (v.setWidth 64)
  | .int16, v => toVarInt ((toZigZag16 v).setWidth 64)
  | .uint32, v => toVarInt (v.setWidth 64)
  | .int32, v => toVarInt ((toZigZag32 v).setWidth 64)
  | .uint64, v => toVarInt v
  | .int64, v => toVarInt (toZigZag64 v)
  | .float, v => leBytes 4 v.toNat
  | .double, v => leBytes 8 v.toNat
  | .bytes, v => encodeString v
  | .string, v => encodeString v

/-- The visitor, with its buffer as the state. -/
def visitor : Visitor Bytes where
  preVisit _ buffer := buffer
  postVisit buffer := buffer
  visit field t v buffer :=
    (v, buffer ++ toVarInt (encodeKey field.fieldIdentifier t.protoType) ++ encode t v)
  visitMessage field obj v buffer :=
    let nested := obj.accept v []
    (nested.1, buffer ++ toVarInt (encodeKey field.fieldIdentifier .lengthDelimited) ++
      encodeString nested.2)

theorem visit_eq (field : FieldInfo) (t : ScalarType) (v : t.Value) (buffer : Bytes) :
    visitor.visit field t v buffer =
      (v, buffer ++ toVarInt (encodeKey field.fieldIdentifier t.protoType) ++ encode t v) := rfl

theorem visitMessage_eq {α : Type} (field : FieldInfo) (obj : Visitable Bytes α) (v : α)
    (buffer : Bytes) :
    visitor.visitMessage field obj v buffer =
      ((obj.accept v []).1,
        buffer ++ toVarInt (encodeKey field.fieldIdentifier .lengthDelimited) ++
          encodeString (obj.accept v []).2) := rfl

theorem acceptAll_eq {α : Type} (info : MessageInfo) (visitFields : α → Bytes → α × Bytes)
    (v : α) (buffer : Bytes) : acceptAll visitor info visitFields v buffer =
      visitFields v buffer := rfl

/-- `encodedData()` after an object accepted a fresh encoder. -/
def encodedDataOf {α : Type} (obj : Visitable Bytes α) (v : α) : Bytes := (obj.accept v []).2

/-- `encodedData()` after a message accepted a fresh encoder. -/
def encodedData (T : MessageType) (m : T.Values) : Bytes :=
  encodedDataOf (T.visitable visitor) m

end ToProtoVisitor

/-! ## The bytes of a message -/

/-- The bytes of the fields of a message, one after the other. -/
def Fields.protoBytes : (fs : Fields) → fs.Values → Bytes
  | .nil, _ => []
  | .scalar field t rest, v =>
      toVarInt (encodeKey field.fieldIdentifier t.protoType) ++ ToProtoVisitor.encode t v.1 ++
        rest.protoBytes v.2
  | .nested field _ fields rest, v =>
      toVarInt (encodeKey field.fieldIdentifier .lengthDelimited) ++
        ToProtoVisitor.encodeString (fields.protoBytes v.1) ++ rest.protoBytes v.2

/-- **An encoder appends the bytes of the fields and changes no value.** -/
theorem Fields.accept_toProto (fs : Fields) (m : fs.Values) (buffer : Bytes) :
    (fs.visitable ToProtoVisitor.visitor).accept m buffer = (m, buffer ++ fs.protoBytes m) := by
  induction fs generalizing buffer with
  | nil => simp [Fields.protoBytes]
  | scalar field t rest ih =>
      rw [Fields.accept_scalar]
      simp only [ToProtoVisitor.visit_eq, ih, Fields.protoBytes, List.append_assoc]
  | nested field info fields rest ihFields ih =>
      rw [Fields.accept_nested]
      simp only [ToProtoVisitor.visitMessage_eq, MessageType.accept_eq, ToProtoVisitor.acceptAll_eq,
        ihFields, ih, Fields.protoBytes, List.nil_append, List.append_assoc]

theorem ToProtoVisitor.encodedData_eq (T : MessageType) (m : T.Values) :
    ToProtoVisitor.encodedData T m = T.fields.protoBytes m := by
  rw [encodedData, encodedDataOf, MessageType.accept_eq, acceptAll_eq, Fields.accept_toProto,
    List.nil_append]

/-- Keys and integers take at most ten bytes each. -/
theorem length_timeStamp_le (ts : TimeStamp.Values) :
    (TimeStamp.fields.protoBytes ts).length ≤ 40 := by
  have key₁ := length_toVarInt (encodeKey 1#32 .varint)
  have key₂ := length_toVarInt (encodeKey 2#32 .varint)
  have value₁ := length_toVarInt ((toZigZag32 ts.1).setWidth 64)
  have value₂ := length_toVarInt ((toZigZag32 ts.2.1).setWidth 64)
  simp only [TimeStamp, FieldInfo.declared, ScalarType.protoType, Fields.protoBytes,
    ToProtoVisitor.encode, List.length_append, List.length_nil]
  omega

theorem length_encodedData_timeStamp (ts : TimeStamp.Values) :
    (ToProtoVisitor.encodedData TimeStamp ts).length < 2 ^ 64 := by
  rw [ToProtoVisitor.encodedData_eq]
  exact (length_timeStamp_le ts).trans_lt (by norm_num)

end Cluon
