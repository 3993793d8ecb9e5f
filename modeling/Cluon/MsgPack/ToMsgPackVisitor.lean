import Cluon.Message.Visitable

/-!
# Encoding messages in MsgPack format

`ToMsgPackVisitor` writes a message as a map from the names of its fields to their values.
The first byte of every string, integer, and map tells its format, of which there are several
for different sizes; the smallest one that fits is taken. A nested message is encoded by a
visitor of its own.
-/

set_option autoImplicit false

namespace Cluon

open Library

/-! ## Format bytes -/

namespace MsgPackConstants

def isFalse : Byte := 0xC2
def isTrue : Byte := 0xC3
def float : Byte := 0xCA
def double : Byte := 0xCB
def uint8 : Byte := 0xCC
def uint16 : Byte := 0xCD
def uint32 : Byte := 0xCE
def uint64 : Byte := 0xCF
def int8 : Byte := 0xD0
def int16 : Byte := 0xD1
def int32 : Byte := 0xD2
def int64 : Byte := 0xD3
def fixstr : Byte := 0xA0
def fixstrEnd : Byte := 0xBF
def str8 : Byte := 0xD9
def str16 : Byte := 0xDA
def str32 : Byte := 0xDB
def fixmap : Byte := 0x80
def fixmapEnd : Byte := 0x8F
def map16 : Byte := 0xDE
def map32 : Byte := 0xDF

end MsgPackConstants

/-- The members of an encoder. -/
structure ToMsgPackVisitor where
  numberOfFields : BitVec 32
  buffer : Bytes
  deriving DecidableEq, Repr

namespace ToMsgPackVisitor

open MsgPackConstants

/-- A newly constructed encoder. -/
def init : ToMsgPackVisitor := ⟨0#32, []⟩

/-- The bytes in front of the entries of a map. -/
def mapHeader (numberOfFields : BitVec 32) : Bytes :=
  if numberOfFields ≤ 0xF then [fixmap ||| numberOfFields.setWidth 8]
  else if numberOfFields ≤ 0xFFFF then map16 :: beBytes 2 (numberOfFields.setWidth 16).toNat
  else map32 :: beBytes 4 numberOfFields.toNat

/-- `encodedData()`. -/
def encodedData (e : ToMsgPackVisitor) : Bytes := mapHeader e.numberOfFields ++ e.buffer

/-- The bytes in front of a string. -/
def stringHeader (length : BitVec 32) : Bytes :=
  if length < 32 then [fixstr ||| length.setWidth 8]
  else if length ≤ 0xFF then [str8, length.setWidth 8]
  else if length ≤ 0xFFFF then str16 :: beBytes 2 (length.setWidth 16).toNat
  else str32 :: beBytes 4 length.toNat

/-- `encode(o, s)`: the length is computed in 32 bits. -/
def encodeString (s : Bytes) : Bytes :=
  let length : BitVec 32 := BitVec.ofNat 32 s.length
  stringHeader length ++ s.take length.toNat

/-- `encodeUint(o, v)`. -/
def encodeUint (v : BitVec 64) : Bytes :=
  if v ≤ 0x7F then [v.setWidth 8]
  else if v ≤ 0xFF then [uint8, v.setWidth 8]
  else if v ≤ 0xFFFF then uint16 :: beBytes 2 (v.setWidth 16).toNat
  else if v ≤ 0xFFFFFFFF then uint32 :: beBytes 4 (v.setWidth 32).toNat
  else uint64 :: beBytes 8 v.toNat

/-- `encodeInt(o, v)`. -/
def encodeInt (v : BitVec 64) : Bytes :=
  if -31 ≤ v.toInt then [v.setWidth 8]
  else if -2 ^ 7 ≤ v.toInt then [int8, v.setWidth 8]
  else if -2 ^ 15 ≤ v.toInt then int16 :: beBytes 2 (v.setWidth 16).toNat
  else if -2 ^ 31 ≤ v.toInt then int32 :: beBytes 4 (v.setWidth 32).toNat
  else int64 :: beBytes 8 v.toNat

/-- The bytes of a signed value: only a negative one is encoded as a signed integer. -/
def encodeSigned {w : Nat} (v : BitVec w) : Bytes :=
  if v.toInt < 0 then encodeInt (v.signExtend 64) else encodeUint (v.setWidth 64)

/-- The bytes written for the value of a scalar. -/
def encode : (t : ScalarType) → t.Value → Bytes
  | .bool, v => [if v then isTrue else isFalse]
  | .char, v => encodeString [v]
  | .int8, v => encodeSigned v
  | .uint8, v => encodeUint (v.setWidth 64)
  | .int16, v => encodeSigned v
  | .uint16, v => encodeUint (v.setWidth 64)
  | .int32, v => encodeSigned v
  | .uint32, v => encodeUint (v.setWidth 64)
  | .int64, v => encodeSigned v
  | .uint64, v => encodeUint v
  | .float, v => float :: beBytes 4 v.toNat
  | .double, v => double :: beBytes 8 v.toNat
  | .bytes, v => encodeString v
  | .string, v => encodeString v

/-- The visitor, with the encoder as the state. -/
def visitor : Visitor ToMsgPackVisitor where
  preVisit _ _ := init
  postVisit e := e
  visit field t v e :=
    (v, ⟨e.numberOfFields + 1#32, e.buffer ++ encodeString field.name ++ encode t v⟩)
  visitMessage field obj v e :=
    let nested := obj.accept v init
    let tmp := nested.2.encodedData
    let length : BitVec 32 := BitVec.ofNat 32 tmp.length
    (nested.1,
      ⟨e.numberOfFields + 1#32, e.buffer ++ encodeString field.name ++ tmp.take length.toNat⟩)

/-- `encodedData()` after a message accepted a fresh encoder. -/
def encoded (T : MessageType) (m : T.Values) : Bytes :=
  ((T.visitable visitor).accept m init).2.encodedData

end ToMsgPackVisitor

/-! ## The bytes of a message -/

open ToMsgPackVisitor

/-- The bytes of the entries of the map that is a message. -/
def Fields.msgPackEntries : (fs : Fields) → fs.Values → Bytes
  | .nil, _ => []
  | .scalar field t rest, m =>
      encodeString field.name ++ encode t m.1 ++ rest.msgPackEntries m.2
  | .nested field _ inner rest, m =>
      let tmp := mapHeader (BitVec.ofNat 32 inner.length) ++ inner.msgPackEntries m.1
      encodeString field.name ++ tmp.take (BitVec.ofNat 32 tmp.length).toNat ++
        rest.msgPackEntries m.2

/-- The bytes of a message: the header of a map, and its entries. -/
def Fields.msgPackBytes (fs : Fields) (m : fs.Values) : Bytes :=
  mapHeader (BitVec.ofNat 32 fs.length) ++ fs.msgPackEntries m

theorem ToMsgPackVisitor.acceptAll_eq {α : Type} (info : MessageInfo)
    (visitFields : α → ToMsgPackVisitor → α × ToMsgPackVisitor) (v : α) (e : ToMsgPackVisitor) :
    acceptAll visitor info visitFields v e = visitFields v init := rfl

theorem ToMsgPackVisitor.visit_eq (field : FieldInfo) (t : ScalarType) (v : t.Value)
    (e : ToMsgPackVisitor) :
    visitor.visit field t v e =
      (v, ⟨e.numberOfFields + 1#32, e.buffer ++ encodeString field.name ++ encode t v⟩) := rfl

theorem ToMsgPackVisitor.visitMessage_eq {α : Type} (field : FieldInfo)
    (obj : Visitable ToMsgPackVisitor α) (v : α) (e : ToMsgPackVisitor) :
    visitor.visitMessage field obj v e =
      let tmp := (obj.accept v init).2.encodedData
      ((obj.accept v init).1, ⟨e.numberOfFields + 1#32, e.buffer ++ encodeString field.name ++
        tmp.take (BitVec.ofNat 32 tmp.length).toNat⟩) := rfl

/-- Counting a field and then the others. -/
theorem count_succ (n : BitVec 32) (others : Nat) :
    n + 1#32 + BitVec.ofNat 32 others = n + BitVec.ofNat 32 (others + 1) := by
  rw [BitVec.ofNat_add, BitVec.add_assoc, BitVec.add_comm (BitVec.ofNat 32 others)]

/-- **An encoder appends the entries of the fields, counts them, and changes no value.** -/
theorem Fields.accept_toMsgPack (fs : Fields) :
    ∀ (m : fs.Values) (e : ToMsgPackVisitor),
      (fs.visitable ToMsgPackVisitor.visitor).accept m e =
        (m, ⟨e.numberOfFields + BitVec.ofNat 32 fs.length, e.buffer ++ fs.msgPackEntries m⟩) := by
  induction fs with
  | nil =>
      intro m e
      simp [Fields.msgPackEntries, Fields.length]
  | scalar field t rest ih =>
      intro m e
      rw [Fields.accept_scalar]
      simp only [ToMsgPackVisitor.visit_eq, ih, count_succ, Fields.length, Fields.msgPackEntries,
        List.append_assoc]
  | nested field info inner rest ihInner ih =>
      intro m e
      rw [Fields.accept_nested]
      simp only [ToMsgPackVisitor.visitMessage_eq, MessageType.accept_eq,
        ToMsgPackVisitor.acceptAll_eq, ihInner, ih, count_succ, Fields.length,
        Fields.msgPackEntries, ToMsgPackVisitor.encodedData, ToMsgPackVisitor.init,
        BitVec.zero_add, List.nil_append, List.append_assoc]

theorem ToMsgPackVisitor.encoded_eq (T : MessageType) (m : T.Values) :
    encoded T m = T.fields.msgPackBytes m := by
  simp only [encoded, MessageType.accept_eq, acceptAll_eq, Fields.accept_toMsgPack, encodedData,
    init, BitVec.zero_add, List.nil_append, Fields.msgPackBytes]

end Cluon
