import Cluon.Library.DecimalNumber
import Cluon.Library.KeyValueMap
import Cluon.Message.Visitable

/-!
# Encoding messages in JSON format

`ToJSONVisitor` appends a member and a comma for every field that is not masked; `json()` cuts
the last comma off and puts the members in braces. Integers are written in decimal, a Boolean
as an integer, a character raw between quotes, and a string in base64. A nested message is
encoded by a visitor of its own, without a mask.
-/

set_option autoImplicit false

namespace Cluon

open Library

namespace JSON

def quote : Byte := 0x22
def apostrophe : Byte := 0x27
def comma : Byte := 0x2C
def colon : Byte := 0x3A
def openBrace : Byte := 0x7B
def closeBrace : Byte := 0x7D
def newline : Byte := 0x0A

end JSON

open JSON

/-! ## Base64 -/

/-- `ALPHABET`. -/
def base64Alphabet : Bytes :=
  asciiBytes "ABCDEFGHIJKLMNOPQRSTUVWXYZabcdefghijklmnopqrstuvwxyz0123456789+/"

/-- `ALPHABET.at(i)`. -/
def base64Char (i : BitVec 32) : Byte := base64Alphabet.getD i.toNat 0

/-- `encodeBase64(input)` from the byte at `index` on, which is counted in 32 bits; `length`
bytes are left. -/
def encodeBase64From (input : Bytes) : (length : Nat) → (index : BitVec 32) → Bytes
  | length + 3, index =>
      let byte (i : BitVec 32) : BitVec 32 := (input.getD i.toNat 0).setWidth 32
      let value := byte index <<< 16 ||| byte (index + 1) <<< 8 ||| byte (index + 2)
      base64Char ((value &&& 0xFC0000) >>> 18) :: base64Char ((value &&& 0x3F000) >>> 12) ::
        base64Char ((value &&& 0xFC0) >>> 6) :: base64Char (value &&& 0x3F) ::
        encodeBase64From input length (index + 3)
  | 2, index =>
      let byte (i : BitVec 32) : BitVec 32 := (input.getD i.toNat 0).setWidth 32
      let value := byte index <<< 16 ||| byte (index + 1) <<< 8
      [base64Char ((value &&& 0xFC0000) >>> 18), base64Char ((value &&& 0x3F000) >>> 12),
        base64Char ((value &&& 0xFC0) >>> 6), 0x3D]
  | 1, index =>
      let value : BitVec 32 := (input.getD index.toNat 0).setWidth 32 <<< 16
      [base64Char ((value &&& 0xFC0000) >>> 18), base64Char ((value &&& 0x3F000) >>> 12),
        0x3D, 0x3D]
  | 0, _ => []

/-- `encodeBase64(input)`. -/
def encodeBase64 (input : Bytes) : Bytes := encodeBase64From input input.length 0

/-! ## The encoder -/

/-- How the standard library prints floating-point numbers with seven and eleven digits, which
numbers it stores in fields for them, and what becomes of a number that is cast to an integer of a
number of bits and out of its range. -/
structure FloatFormat where
  printFloat : BitVec 32 → Bytes
  printDouble : BitVec 64 → Bytes
  toFloat : ℚ → BitVec 32
  toDouble : ℚ → BitVec 64
  castOutOfRange : (w : Nat) → ℚ → BitVec w

/-- The members of an encoder. -/
structure ToJSONVisitor where
  withOuterCurlyBraces : Bool
  mask : KeyValueMap (BitVec 32) Bool
  buffer : Bytes
  deriving DecidableEq, Repr

namespace ToJSONVisitor

/-- A newly constructed encoder, with the default arguments of the constructor. -/
def init : ToJSONVisitor := ⟨true, [], []⟩

/-- `json()`. -/
def json (e : ToJSONVisitor) : Bytes :=
  if 2 < e.buffer.length then
    (if e.withOuterCurlyBraces then [openBrace] else []) ++
      e.buffer.take (e.buffer.length - 2) ++
      (if e.withOuterCurlyBraces then [closeBrace] else [])
  else [openBrace, closeBrace]

/-- Whether a field is to be encoded. -/
def renders (e : ToJSONVisitor) (id : BitVec 32) : Bool :=
  decide (e.mask.count id = 0) || (e.mask.find id).getD false

/-- `m_buffer << text`. -/
def append (e : ToJSONVisitor) (text : Bytes) : ToJSONVisitor :=
  { e with buffer := e.buffer ++ text }

section Visit

variable (F : FloatFormat)

/-- The text of the value of a scalar. -/
def scalarText : (t : ScalarType) → t.Value → Bytes
  | .bool, v => if v then asciiBytes "1" else asciiBytes "0"
  | .char, v => [quote, v, quote]
  | .int8, v => decimalInt (BitVec.toInt v)
  | .uint8, v => decimal (BitVec.toNat v)
  | .int16, v => decimalInt (BitVec.toInt v)
  | .uint16, v => decimal (BitVec.toNat v)
  | .int32, v => decimalInt (BitVec.toInt v)
  | .uint32, v => decimal (BitVec.toNat v)
  | .int64, v => decimalInt (BitVec.toInt v)
  | .uint64, v => decimal (BitVec.toNat v)
  | .float, v => F.printFloat v
  | .double, v => F.printDouble v
  | .bytes, v => quote :: encodeBase64 v ++ [quote]
  | .string, v => quote :: encodeBase64 v ++ [quote]

/-- The key of a member, with its colon. -/
def keyText (name : Bytes) : Bytes := quote :: name ++ [quote, colon]

/-- The visitor, with the encoder as the state. -/
def visitor : Visitor ToJSONVisitor where
  preVisit _ e := e
  postVisit e := e
  visit field t v e :=
    if e.renders field.fieldIdentifier then
      (v, e.append (keyText field.name ++ scalarText F t v ++ [comma, newline]))
    else (v, e)
  visitMessage field obj v e :=
    if e.renders field.fieldIdentifier then
      let nested := obj.accept v init
      (nested.1, e.append (keyText field.name ++ nested.2.json ++ [comma, newline]))
    else (v, e)

/-- `json()` after a message accepted a fresh encoder. -/
def encoded (T : MessageType) (m : T.Values) : Bytes :=
  ((T.visitable (visitor F)).accept m init).2.json

/-- `json()` after a message accepted a fresh encoder with a mask. -/
def encodedWith (mask : KeyValueMap (BitVec 32) Bool) (T : MessageType) (m : T.Values) : Bytes :=
  ((T.visitable (visitor F)).accept m ⟨true, mask, []⟩).2.json

end Visit

end ToJSONVisitor

end Cluon
