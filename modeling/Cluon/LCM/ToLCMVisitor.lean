import Cluon.Message.Visitable

/-!
# Encoding messages in LCM format

`ToLCMVisitor` writes the values of the fields one after the other, without any tags:
integers and floating-point numbers in big-endian order, strings behind their length and
with a terminating zero. A nested message is encoded by a visitor of its own. In front of
the data goes a hash of the names and types of the fields, to which the hashes of the nested
messages are added.
-/

set_option autoImplicit false

namespace Cluon

open Library

namespace LCM

/-! ## Hashes -/

/-- The hash of a message without fields. -/
def initialHash : BitVec 64 := 0x12345678

/-- `calculateHash(c)`, from the hash before. -/
def calculateHashChar (hash : BitVec 64) (c : Byte) : BitVec 64 :=
  ((hash <<< 8) ^^^ (hash.sshiftRight 55)) + c.signExtend 64

/-- What `calculateHash(s)` puts in front of the characters: their number, at most 255. -/
def hashedLength (s : Bytes) : Byte := BitVec.ofNat 8 (s.take 255).length

/-- `hash()`: the hash of a message from that of its own fields and those of its nested
messages. -/
def hash (ownHash : BitVec 64) (hashes : List (BitVec 64)) : BitVec 64 :=
  let tmp := hashes.foldl (· + ·) ownHash
  (tmp <<< 1) + (tmp.sshiftRight 63 &&& 1)

/-- The name of a scalar type that goes into the hash. -/
def hashedType : ScalarType → Bytes
  | .bool => asciiBytes "boolean"
  | .char | .int8 | .uint8 => asciiBytes "int8_t"
  | .int16 | .uint16 => asciiBytes "int16_t"
  | .int32 | .uint32 => asciiBytes "int32_t"
  | .int64 | .uint64 => asciiBytes "int64_t"
  | .float => asciiBytes "float"
  | .double => asciiBytes "double"
  | .bytes | .string => asciiBytes "string"

end LCM

/-! ## The encoder -/

/-- The members of an encoder. -/
structure ToLCMVisitor where
  hash : BitVec 64
  buffer : Bytes
  hashes : List (BitVec 64)
  deriving DecidableEq, Repr

namespace ToLCMVisitor

/-- A newly constructed encoder. -/
def init : ToLCMVisitor := ⟨LCM.initialHash, [], []⟩

/-- `calculateHash(s)`, from the hash before. -/
def calculateHash (hash : BitVec 64) (s : Bytes) : BitVec 64 :=
  s.foldl LCM.calculateHashChar (LCM.calculateHashChar hash (LCM.hashedLength s))

/-- `encodedData(withHash)`. -/
def encodedData (withHash : Bool) (e : ToLCMVisitor) : Bytes :=
  (if withHash then beBytes 8 (LCM.hash e.hash e.hashes).toNat else []) ++ e.buffer

/-- The bytes written for a string: its length with the terminating zero, and the string. -/
def encodeString (s : Bytes) : Bytes :=
  beBytes 4 (BitVec.ofNat 32 (s.length + 1)).toNat ++ s ++ [0]

/-- The bytes written for a scalar. -/
def encode : (t : ScalarType) → t.Value → Bytes
  | .bool, v => [if v then 1 else 0]
  | .char, v => [v]
  | .int8, v => [v]
  | .uint8, v => [v]
  | .int16, v => beBytes 2 v.toNat
  | .uint16, v => beBytes 2 v.toNat
  | .int32, v => beBytes 4 v.toNat
  | .uint32, v => beBytes 4 v.toNat
  | .int64, v => beBytes 8 v.toNat
  | .uint64, v => beBytes 8 v.toNat
  | .float, v => beBytes 4 v.toNat
  | .double, v => beBytes 8 v.toNat
  | .bytes, v => encodeString v
  | .string, v => encodeString v

/-- The visitor, with the encoder as the state. -/
def visitor : Visitor ToLCMVisitor where
  preVisit _ e := e
  postVisit e := e
  visit field t v e :=
    let hash := calculateHash (calculateHash e.hash field.name) (LCM.hashedType t)
    (v, { e with
      hash := LCM.calculateHashChar hash 0
      buffer := e.buffer ++ encode t v })
  visitMessage field obj v e :=
    let nested := obj.accept v init
    (nested.1,
      { hash := LCM.calculateHashChar (calculateHash e.hash field.name) 0
        buffer := e.buffer ++ nested.2.encodedData false
        hashes := e.hashes ++ [LCM.hash nested.2.hash nested.2.hashes] })

/-- The encoder after a message has accepted it. -/
def encoded (T : MessageType) (m : T.Values) : ToLCMVisitor :=
  ((T.visitable visitor).accept m init).2

/-- The hash an encoder puts in front of a message. -/
def transmittedHash (T : MessageType) (m : T.Values) : BitVec 64 :=
  LCM.hash (encoded T m).hash (encoded T m).hashes

end ToLCMVisitor

/-! ## The bytes of a message -/

/-- The bytes of the fields of a message, one after the other. -/
def Fields.lcmBytes : (fs : Fields) → fs.Values → Bytes
  | .nil, _ => []
  | .scalar _ t rest, m => ToLCMVisitor.encode t m.1 ++ rest.lcmBytes m.2
  | .nested _ _ fields rest, m => fields.lcmBytes m.1 ++ rest.lcmBytes m.2

/-- **An encoder appends the bytes of the fields and changes no value.** -/
theorem Fields.accept_toLCM (fs : Fields) :
    ∀ (m : fs.Values) (e : ToLCMVisitor),
      ((fs.visitable ToLCMVisitor.visitor).accept m e).1 = m ∧
        ((fs.visitable ToLCMVisitor.visitor).accept m e).2.buffer =
          e.buffer ++ fs.lcmBytes m := by
  induction fs with
  | nil => intro m e; exact ⟨rfl, (List.append_nil _).symm⟩
  | scalar field t rest ih =>
      intro m e
      obtain ⟨kept, appended⟩ := ih m.2 (ToLCMVisitor.visitor.visit field t m.1 e).2
      rw [Fields.accept_scalar]
      refine ⟨Prod.ext rfl kept, ?_⟩
      rw [Fields.lcmBytes, ← List.append_assoc]
      exact appended
  | nested field info fields rest ihFields ih =>
      intro m e
      obtain ⟨innerKept, innerAppended⟩ := ihFields m.1 ToLCMVisitor.init
      obtain ⟨kept, appended⟩ := ih m.2 (ToLCMVisitor.visitor.visitMessage field
        ((MessageType.mk info fields).visitable ToLCMVisitor.visitor) m.1 e).2
      rw [Fields.accept_nested]
      refine ⟨Prod.ext innerKept kept, appended.trans ?_⟩
      rw [Fields.lcmBytes, ← List.append_assoc]
      exact congrArg (e.buffer ++ · ++ rest.lcmBytes m.2) innerAppended

/-- The bytes of a message are its hash and the bytes of its fields. -/
theorem ToLCMVisitor.encodedData_encoded (T : MessageType) (m : T.Values) :
    (encoded T m).encodedData true =
      beBytes 8 (transmittedHash T m).toNat ++ T.fields.lcmBytes m :=
  congrArg (beBytes 8 (transmittedHash T m).toNat ++ ·) (T.fields.accept_toLCM m init).2

end Cluon
