import Cluon.Library.KeyValueMap
import Cluon.Proto.ToProtoVisitor

/-!
# Decoding messages from Proto format

`FromProtoVisitor` reads records, that is keys followed by payloads, in a loop that runs
while the stream is good. There are two ways to get the values into a message.
`decodeFrom(in)` first collects the payloads in a map from field identifiers, where a
message that accepts the decoder afterwards finds them. `decodeFrom(in, v)` lets `v`
accept the decoder for the field of each record as soon as the record is read, and
the visit methods take the payload from the members it was read into.

Strings are read into memory reserved for a vector, and a string is built from the first
`m_value` bytes of that memory, however many of them were read. The contents of memory
that was never written are a parameter (`uninit`) of everything that builds strings.
-/

set_option autoImplicit false

namespace Cluon

open Library InputStream

/-! ## Reading bytes -/

/-- One round of `readBytesFromStream`: a chunk of at most 1024 bytes is read behind the
bytes read so far. -/
def readBytesFromStreamBody : Body (Bytes × Nat) := fun (buffer, bytesToRead) is =>
  let (chunk, is') := is.read (if bytesToRead > 1024 then 1024 else bytesToRead)
  (decide (0 < bytesToRead - chunk.length), (buffer ++ chunk, bytesToRead - chunk.length), is')

/-- `readBytesFromStream(in, n, buffer)`: the bytes written to the buffer, and the stream. -/
def readBytesFromStream (is : InputStream) (n : Nat) : Bytes × InputStream :=
  if 0 < n then
    let ((bytes, _), is') := whileGood readBytesFromStreamBody ([], n) is
    (bytes, is')
  else ([], is)

/-! ## The decoder -/

/-- What a `linb::any` in the map of key/values holds. -/
inductive ProtoAny where
  | uint64 (v : BitVec 64)
  | double (v : BitVec 64)
  | float (v : BitVec 32)
  | string (s : Bytes)
  deriving DecidableEq, Repr

namespace ProtoAny

/-- The wire type whose payload a value holds. -/
def protoType : ProtoAny → ProtoConstants
  | .uint64 _ => .varint
  | .double _ => .eightBytes
  | .float _ => .fourBytes
  | .string _ => .lengthDelimited

/-- The value of a scalar field from the payload of its record; a failed `any_cast` gives
none. -/
def castTo : (t : ScalarType) → ProtoAny → Option t.Value
  | .bool, .uint64 v => some (decide (0 ≠ v))
  | .char, .uint64 v => some (v.setWidth 8)
  | .uint8, .uint64 v => some (v.setWidth 8)
  | .int8, .uint64 v => some (fromZigZag8 (v.setWidth 8))
  | .uint16, .uint64 v => some (v.setWidth 16)
  | .int16, .uint64 v => some (fromZigZag16 (v.setWidth 16))
  | .uint32, .uint64 v => some (v.setWidth 32)
  | .int32, .uint64 v => some (fromZigZag32 (v.setWidth 32))
  | .uint64, .uint64 v => some v
  | .int64, .uint64 v => some (fromZigZag64 v)
  | .float, .float v => some v
  | .double, .double v => some v
  | .bytes, .string s => some s
  | .string, .string s => some s
  | _, _ => none

/-- The cast succeeds exactly on payloads of the wire type of the field. -/
theorem castTo_isSome (t : ScalarType) (a : ProtoAny) :
    (castTo t a).isSome ↔ a.protoType = t.protoType := by
  cases t <;> cases a <;> simp [castTo, protoType, ScalarType.protoType]

end ProtoAny

/-- A union of a word of `n` bytes with a byte buffer, after bytes were read into the buffer
and the word was converted from little-endian order. -/
def overwriteBuffer {w : Nat} (n : Nat) (word : BitVec w) (bytes : Bytes) : BitVec w :=
  BitVec.ofNat w (ofLeBytes (bytes ++ (leBytes n word.toNat).drop bytes.length))

theorem overwriteBuffer_of_length {w n : Nat} (word : BitVec w) {bytes : Bytes}
    (h : bytes.length = n) : overwriteBuffer n word bytes = BitVec.ofNat w (ofLeBytes bytes) := by
  rw [overwriteBuffer, List.drop_of_length_le (by simp [h]), List.append_nil]

/-- The members of a decoder; the unions are given by their words. -/
structure FromProtoVisitor where
  callToDecodeFromWithDirectVisit : Bool
  mapOfKeyValues : KeyValueMap (BitVec 32) ProtoAny
  value : BitVec 64
  doubleValue : BitVec 64
  floatValue : BitVec 32
  stringValue : StringBuffer

namespace FromProtoVisitor

/-- A newly constructed decoder. -/
def init : FromProtoVisitor where
  callToDecodeFromWithDirectVisit := false
  mapOfKeyValues := []
  value := 0
  doubleValue := 0
  floatValue := 0
  stringValue := ⟨0, []⟩

/-- The member into which the payload of a wire type is read. -/
def member (uninit : Nat → Byte) (d : FromProtoVisitor) : ProtoConstants → ProtoAny
  | .varint => .uint64 d.value
  | .eightBytes => .double d.doubleValue
  | .fourBytes => .float d.floatValue
  | .lengthDelimited => .string (d.stringValue.str uninit d.value.toNat)

/-- The first stage of both decoding loops: a key, and the payload of its wire type. Returns
the wire type and the field identifier if `switch` has a case for the wire type. That no memory
can be reserved for a string, which ends the program, is left to those who read streams that may
declare any length. -/
def readRecord (d : FromProtoVisitor) (is : InputStream) :
    Option (ProtoConstants × BitVec 32) × FromProtoVisitor × InputStream :=
  let (keyFieldType, size, is₁) := fromVarInt is
  if 0 < size then
    match ProtoConstants.ofCode (keyProtoType keyFieldType) with
    | some .varint =>
        let (v, _, is₂) := fromVarInt is₁
        (some (.varint, keyFieldId keyFieldType), { d with value := v }, is₂)
    | some .eightBytes =>
        let (bytes, is₂) := readBytesFromStream is₁ 8
        (some (.eightBytes, keyFieldId keyFieldType),
          { d with doubleValue := overwriteBuffer 8 d.doubleValue bytes }, is₂)
    | some .fourBytes =>
        let (bytes, is₂) := readBytesFromStream is₁ 4
        (some (.fourBytes, keyFieldId keyFieldType),
          { d with floatValue := overwriteBuffer 4 d.floatValue bytes }, is₂)
    | some .lengthDelimited =>
        let (v, _, is₂) := fromVarInt is₁
        let (bytes, is₃) := readBytesFromStream is₂ v.toNat
        (some (.lengthDelimited, keyFieldId keyFieldType),
          { d with value := v, stringValue := (d.stringValue.reserve v.toNat).write bytes }, is₃)
    | none => (none, d, is₁)
  else (none, d, is₁)

section Decode

variable (uninit : Nat → Byte)

/-- One round of `decodeFrom(in)`. -/
def decodeFromBody : Body FromProtoVisitor := fun d is =>
  match d.readRecord is with
  | (some (protoType, fieldId), d', is') =>
      (true, { d' with
        mapOfKeyValues :=
          (d'.mapOfKeyValues.emplace fieldId (d'.member uninit protoType)).1 }, is')
  | (none, d', is') => (true, d', is')

/-- `decodeFrom(in)`: collects the records of the stream. -/
def decodeFrom (d : FromProtoVisitor) (is : InputStream) : FromProtoVisitor × InputStream :=
  whileGood (decodeFromBody uninit) { d with mapOfKeyValues := [] } is

section Into

variable {α : Type} (obj : Visitable FromProtoVisitor α)

/-- One round of `decodeFrom(in, v)`. -/
def decodeFromIntoBody : Body (α × FromProtoVisitor) := fun (v, d) is =>
  match d.readRecord is with
  | (some (_, fieldId), d', is') => (true, obj.acceptField fieldId v d', is')
  | (none, d', is') => (true, (v, d'), is')

/-- `decodeFrom(in, v)`: injects each record into `v` as soon as it is read. -/
def decodeFromInto (d : FromProtoVisitor) (is : InputStream) (v : α) :
    (α × FromProtoVisitor) × InputStream :=
  let ((v', d'), is') :=
    whileGood (decodeFromIntoBody obj) (v, { d with callToDecodeFromWithDirectVisit := true }) is
  ((v', { d' with callToDecodeFromWithDirectVisit := false }), is')

end Into

/-- `visit(id, typeName, name, v)` for scalars. -/
def visit (field : FieldInfo) (t : ScalarType) (v : t.Value) (d : FromProtoVisitor) : t.Value :=
  if d.callToDecodeFromWithDirectVisit then
    (ProtoAny.castTo t (d.member uninit t.protoType)).getD v
  else
    match d.mapOfKeyValues.find field.fieldIdentifier with
    | some any => (any.castTo t).getD v
    | none => v

/-- `visit(id, typeName, name, v)` for visitable types: a decoder of its own reads the bytes
of the nested message. -/
def visitMessage {α : Type} (field : FieldInfo) (obj : Visitable FromProtoVisitor α) (v : α)
    (d : FromProtoVisitor) : α :=
  if d.callToDecodeFromWithDirectVisit then
    (decodeFromInto obj init (ofBytes (d.stringValue.str uninit d.value.toNat)) v).1.1
  else
    match d.mapOfKeyValues.find field.fieldIdentifier with
    | some (.string s) => (obj.accept v (decodeFrom uninit init (ofBytes s)).1).1
    | _ => v

/-- The visitor, with the decoder as the state. -/
def visitor : Visitor FromProtoVisitor where
  preVisit _ d := d
  postVisit d := d
  visit field t v d := (visit uninit field t v d, d)
  visitMessage field obj v d := (visitMessage uninit field obj v d, d)

/-- `decodeFrom(in, v)` on a message. -/
def decodeDirect (T : MessageType) (d : FromProtoVisitor) (bytes : Bytes) (v : T.Values) :
    T.Values :=
  (decodeFromInto (T.visitable (visitor uninit)) d (ofBytes bytes) v).1.1

/-- `decodeFrom(in)` followed by `v.accept(decoder)`. -/
def decodeTwoStage (T : MessageType) (d : FromProtoVisitor) (bytes : Bytes) (v : T.Values) :
    T.Values :=
  ((T.visitable (visitor uninit)).accept v (decodeFrom uninit d (ofBytes bytes)).1).1

end Decode

end FromProtoVisitor

end Cluon
