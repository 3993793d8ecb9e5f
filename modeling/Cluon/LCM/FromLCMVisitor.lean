import Cluon.Library.InputStream
import Cluon.LCM.ToLCMVisitor

/-!
# Decoding messages from LCM format

`FromLCMVisitor` copies the data behind the hash into a buffer of its own, from which every
visited field takes its bytes. The decoder of a nested message shares the buffer of its
parent and expects no hash. A decoder that expects a hash starts again at the beginning of
its buffer whenever a message accepts it.
-/

set_option autoImplicit false

namespace Cluon

open Library InputStream

/-- The members of a decoder, and the number of hash mismatches it has reported. -/
structure FromLCMVisitor where
  calculatedHash : BitVec 64
  expectedHash : BitVec 64
  buffer : InputStream
  hashes : List (BitVec 64)
  hashMismatches : Nat
  deriving DecidableEq, Repr

namespace FromLCMVisitor

/-- A newly constructed decoder. -/
def init : FromLCMVisitor := ⟨LCM.initialHash, 0, ofBytes [], [], 0⟩

/-- `FromLCMVisitor(in)`: the decoder of a nested message. -/
def sharing (buffer : InputStream) : FromLCMVisitor := ⟨LCM.initialHash, 0, buffer, [], 0⟩

/-- `calculateHash(s)`, from the hash before. -/
def calculateHash (hash : BitVec 64) (s : Bytes) : BitVec 64 :=
  (s.take 255).foldl LCM.calculateHashChar
    (LCM.calculateHashChar hash (LCM.hashedLength s))

/-- `decodeFrom(in)`. Writing nothing at all to the buffer makes it fail. -/
def decodeFrom (d : FromLCMVisitor) (is : InputStream) : FromLCMVisitor × InputStream :=
  let (bytes, is') := is.read 8
  let memory := bytes ++ (leBytes 8 d.expectedHash.toNat).drop bytes.length
  ({ d with
      expectedHash := BitVec.ofNat 64 (ofBeBytes memory)
      buffer := ⟨is'.rest, 0, false, is'.rest.isEmpty⟩ },
    { is' with pos := is'.pos + is'.rest.length })

/-- `preVisit`. -/
def preVisit (d : FromLCMVisitor) : FromLCMVisitor :=
  if d.expectedHash ≠ 0 then
    { d with
      calculatedHash := LCM.initialHash
      buffer := d.buffer.clear.seekg 0
      hashes := [] }
  else d

/-- `postVisit`: a mismatch of the hashes is only reported. -/
def postVisit (d : FromLCMVisitor) : FromLCMVisitor :=
  if d.expectedHash ≠ 0 ∧ d.expectedHash ≠ LCM.hash d.calculatedHash d.hashes then
    { d with hashMismatches := d.hashMismatches + 1 }
  else d

/-- `read` of a single byte. -/
def readByte (v : Byte) (is : InputStream) : Byte × InputStream :=
  let (bytes, is') := is.read 1
  (bytes.head?.getD v, is')

section Visit

variable (uninit : Nat → Byte)

/-- The value of a string: the terminating zero is read but left out. -/
def readString (is : InputStream) : Bytes × InputStream :=
  let (word, is₁) := readBigEndian 4 is
  let length : BitVec 32 := BitVec.ofNat 32 word
  if 0 < length.toInt then
    let (bytes, is₂) := is₁.read length.toNat
    (StringBuffer.str uninit ⟨length.toNat, bytes⟩ (length.toNat - 1), is₂)
  else ([], is₁)

/-- What a visit of a scalar reads, from the value before. -/
def readValue (is : InputStream) : (t : ScalarType) → t.Value → t.Value × InputStream
  | .bool, v =>
      let (byte, is') := readByte (if v then 1 else 0) is
      (decide (byte ≠ 0), is')
  | .char, v => readByte v is
  | .int8, v => readByte v is
  | .uint8, v => readByte v is
  | .int16, _ => let (word, is') := readBigEndian 2 is; (BitVec.ofNat 16 word, is')
  | .uint16, _ => let (word, is') := readBigEndian 2 is; (BitVec.ofNat 16 word, is')
  | .int32, _ => let (word, is') := readBigEndian 4 is; (BitVec.ofNat 32 word, is')
  | .uint32, _ => let (word, is') := readBigEndian 4 is; (BitVec.ofNat 32 word, is')
  | .int64, _ => let (word, is') := readBigEndian 8 is; (BitVec.ofNat 64 word, is')
  | .uint64, _ => let (word, is') := readBigEndian 8 is; (BitVec.ofNat 64 word, is')
  | .float, _ => let (word, is') := readBigEndian 4 is; (BitVec.ofNat 32 word, is')
  | .double, _ => let (word, is') := readBigEndian 8 is; (BitVec.ofNat 64 word, is')
  | .bytes, _ => readString uninit is
  | .string, _ => readString uninit is

/-- The visitor, with the decoder as the state. -/
def visitor : Visitor FromLCMVisitor where
  preVisit _ d := d.preVisit
  postVisit d := d.postVisit
  visit field t v d :=
    let hash := calculateHash (calculateHash d.calculatedHash field.name) (LCM.hashedType t)
    let (v', buffer) := readValue uninit d.buffer t v
    (v', { d with calculatedHash := LCM.calculateHashChar hash 0, buffer := buffer })
  visitMessage field obj v d :=
    let (v', nested) := obj.accept v (sharing d.buffer)
    (v', { d with
      calculatedHash := LCM.calculateHashChar (calculateHash d.calculatedHash field.name) 0
      buffer := nested.buffer
      hashes := d.hashes ++ [LCM.hash nested.calculatedHash nested.hashes]
      hashMismatches := d.hashMismatches + nested.hashMismatches })

theorem visit_eq (field : FieldInfo) (t : ScalarType) (v : t.Value) (d : FromLCMVisitor) :
    (visitor uninit).visit field t v d =
      ((readValue uninit d.buffer t v).1, { d with
        calculatedHash := LCM.calculateHashChar (calculateHash
          (calculateHash d.calculatedHash field.name) (LCM.hashedType t)) 0
        buffer := (readValue uninit d.buffer t v).2 }) := rfl

theorem visitMessage_eq {α : Type} (field : FieldInfo) (obj : Visitable FromLCMVisitor α) (v : α)
    (d : FromLCMVisitor) :
    (visitor uninit).visitMessage field obj v d =
      let (v', nested) := obj.accept v (sharing d.buffer)
      (v', { d with
        calculatedHash := LCM.calculateHashChar (calculateHash d.calculatedHash field.name) 0
        buffer := nested.buffer
        hashes := d.hashes ++ [LCM.hash nested.calculatedHash nested.hashes]
        hashMismatches := d.hashMismatches + nested.hashMismatches }) := rfl

/-- The values of the messages that accept a decoder one after the other. -/
def acceptEach (T : MessageType) (d : FromLCMVisitor) : List T.Values → List T.Values
  | [] => []
  | v :: vs =>
      let (v', d') := (T.visitable (visitor uninit)).accept v d
      v' :: acceptEach T d' vs

end Visit

end FromLCMVisitor

end Cluon
