import Cluon.Library.InputStream
import Cluon.Message.KeyValueVisitor
import Cluon.MsgPack.ToMsgPackVisitor

/-!
# Decoding messages from MsgPack format

`FromMsgPackVisitor` first reads a map from names to values of any type (`readKeyValues`):
it skips the bytes of a stream up to the header of a map, and then reads as many entries as
the header announces. A value that is a map itself is read in the same way, after its first
byte has been put back. A message that accepts the decoder afterwards finds its values in the
map.
-/

set_option autoImplicit false

namespace Cluon

open Library InputStream MsgPackConstants

/-- The kinds of values that the first byte of a value tells apart. -/
inductive FormatFamily where
  | unknown | bool | uint | int | float | str | map
  deriving DecidableEq, Repr

/-- `getFormatFamily(T)`. -/
def getFormatFamily (c : Byte) : FormatFamily :=
  if MsgPackConstants.isFalse = c then .bool
  else if MsgPackConstants.isTrue = c then .bool
  else if c ≤ 0x7F then .uint
  else if uint8 = c then .uint
  else if uint16 = c then .uint
  else if uint32 = c then .uint
  else if uint64 = c then .uint
  else if 0xE0 ≤ c then .int
  else if int8 = c then .int
  else if int16 = c then .int
  else if int32 = c then .int
  else if int64 = c then .int
  else if float = c then .float
  else if double = c then .float
  else if fixstr ≤ c ∧ c < fixstrEnd then .str
  else if str8 = c then .str
  else if str16 = c then .str
  else if str32 = c then .str
  else if fixmap ≤ c ∧ c < fixmapEnd then .map
  else if map16 = c then .map
  else if map32 = c then .map
  else .unknown

/-- What a `linb::any` in the map of key/values holds. -/
inductive MsgPackAny where
  | empty
  | bool (v : Bool)
  | uint64 (v : BitVec 64)
  | int64 (v : BitVec 64)
  | float (v : BitVec 32)
  | double (v : BitVec 64)
  | string (s : Bytes)
  | keyValues (m : List (Bytes × MsgPackAny))

namespace MsgPackAny

/-- The signed value of a field of `w` bits; a value that is not negative may be stored as an
unsigned one. -/
def castToSigned (w : Nat) : MsgPackAny → Except VisitError (BitVec w)
  | .int64 v => .ok (v.setWidth w)
  | .uint64 v => .ok (v.setWidth w)
  | _ => .error .badAnyCast

/-- The unsigned value of a field of `w` bits. -/
def castToUnsigned (w : Nat) : MsgPackAny → Except VisitError (BitVec w)
  | .uint64 v => .ok (v.setWidth w)
  | _ => .error .badAnyCast

/-- The value of a field that is a string. -/
def castToString : MsgPackAny → Except VisitError Bytes
  | .string s => .ok s
  | _ => .error .badAnyCast

/-- The value of a scalar field from an entry of the map. -/
def castTo : (t : ScalarType) → MsgPackAny → Except VisitError t.Value
  | .bool, .bool v => .ok v
  | .char, any => do
      let s ← any.castToString
      match s with
      | [] => .error .outOfRange
      | c :: _ => .ok c
  | .int8, any => any.castToSigned 8
  | .uint8, any => any.castToUnsigned 8
  | .int16, any => any.castToSigned 16
  | .uint16, any => any.castToUnsigned 16
  | .int32, any => any.castToSigned 32
  | .uint32, any => any.castToUnsigned 32
  | .int64, any => any.castToSigned 64
  | .uint64, any => any.castToUnsigned 64
  | .float, .float v => .ok v
  | .double, .double v => .ok v
  | .bytes, any => any.castToString
  | .string, any => any.castToString
  | _, _ => .error .badAnyCast

/-- What the entries of the map give. -/
def kind : EntryKind MsgPackAny where
  castTo := castTo
  nested
    | .keyValues m => some m
    | _ => none

end MsgPackAny

/-! ## Reading -/

/-- `static_cast<uint8_t>(in.get())`, where `in.get()` is `-1` at the end of the stream. -/
def getByte (is : InputStream) : Byte × InputStream :=
  let (x, is') := is.get
  (x.getD 0xFF, is')

/-- `readUint(in)`. -/
def readUint (is : InputStream) : BitVec 64 × InputStream :=
  if is.good then
    let (c, is₁) := getByte is
    if getFormatFamily c = .uint then
      if c ≤ 0x7F then (c.setWidth 64, is₁)
      else if uint8 = c then
        let (v, is₂) := readBigEndian 1 is₁
        (BitVec.ofNat 64 v, is₂)
      else if uint16 = c then
        let (v, is₂) := readBigEndian 2 is₁
        (BitVec.ofNat 64 v, is₂)
      else if uint32 = c then
        let (v, is₂) := readBigEndian 4 is₁
        (BitVec.ofNat 64 v, is₂)
      else
        let (v, is₂) := readBigEndian 8 is₁
        (BitVec.ofNat 64 v, is₂)
    else (0, is₁)
  else (0, is)

/-- `readInt(in)`. -/
def readInt (is : InputStream) : BitVec 64 × InputStream :=
  if is.good then
    let (c, is₁) := getByte is
    if getFormatFamily c = .int then
      if 0xE0 ≤ c then (c.signExtend 64, is₁)
      else if int8 = c then
        let (v, is₂) := readBigEndian 1 is₁
        ((BitVec.ofNat 8 v).signExtend 64, is₂)
      else if int16 = c then
        let (v, is₂) := readBigEndian 2 is₁
        ((BitVec.ofNat 16 v).signExtend 64, is₂)
      else if int32 = c then
        let (v, is₂) := readBigEndian 4 is₁
        ((BitVec.ofNat 32 v).signExtend 64, is₂)
      else
        let (v, is₂) := readBigEndian 8 is₁
        (BitVec.ofNat 64 v, is₂)
    else (0, is₁)
  else (0, is)

/-- The length of a string, from its first byte and the bytes behind it. -/
def readStringLength (c : Byte) (is : InputStream) : Nat × InputStream :=
  if fixstr ≤ c ∧ c < fixstrEnd then ((c - fixstr).toNat, is)
  else if str8 = c then readBigEndian 1 is
  else if str16 = c then readBigEndian 2 is
  else if str32 = c then readBigEndian 4 is
  else (0, is)

/-- The number of entries of a map, from its first byte and the bytes behind it. -/
def readTokensToRead (c : Byte) (is : InputStream) : Nat × InputStream :=
  if fixmap ≤ c ∧ c < fixmapEnd then ((c - fixmap).toNat, is)
  else if map16 = c then readBigEndian 2 is
  else if map32 = c then readBigEndian 4 is
  else (0, is)

section Read

variable (uninit : Nat → Byte)

/-- `readString(in)`. -/
def readString (is : InputStream) : Bytes × InputStream :=
  if is.good then
    let (c, is₁) := getByte is
    if getFormatFamily c = .str then
      let (length, is₂) := readStringLength c is₁
      if 0 < length then
        let (bytes, is₃) := is₂.read length
        (StringBuffer.str uninit ⟨length, bytes⟩ length, is₃)
      else ([], is₂)
    else ([], is₁)
  else ([], is)

section Pairs

variable (readKeyValues : InputStream → Option (KeyValueMap Bytes MsgPackAny × InputStream))

/-- The value of an entry; `readKeyValues` reads a nested map. -/
def readValue (is : InputStream) : Option (MsgPackAny × InputStream) :=
  let (c, is₁) := getByte is
  match getFormatFamily c with
  | .bool => some (.bool (decide (c = MsgPackConstants.isTrue)), is₁)
  | .uint =>
      let (v, is₂) := readUint is₁.unget
      some (.uint64 v, is₂)
  | .int =>
      let (v, is₂) := readInt is₁.unget
      some (.int64 v, is₂)
  | .float =>
      if c = float then
        let (v, is₂) := readBigEndian 4 is₁
        some (.float (BitVec.ofNat 32 v), is₂)
      else
        let (v, is₂) := readBigEndian 8 is₁
        some (.double (BitVec.ofNat 64 v), is₂)
  | .str =>
      let (s, is₂) := readString uninit is₁.unget
      some (.string s, is₂)
  | .map => (readKeyValues is₁.unget).map fun (m, is₂) => (.keyValues m, is₂)
  | .unknown => some (.empty, is₁)

/-- The loop of `readKeyValues` over the entries of a map. -/
def readPairs : (tokensToRead : Nat) → KeyValueMap Bytes MsgPackAny → InputStream →
    Option (KeyValueMap Bytes MsgPackAny × InputStream)
  | 0, keyValues, is => some (keyValues, is)
  | tokensToRead + 1, keyValues, is =>
      let (key, is₁) := readString uninit is
      match readValue uninit readKeyValues is₁ with
      | none => none
      | some (value, is₂) => readPairs tokensToRead (keyValues.assign key value) is₂

end Pairs

/-- One round of the loop of `readKeyValues` that searches for the header of a map. -/
def findMapBody : Body (Option Byte) := fun _ is =>
  let (c, is') := getByte is
  if getFormatFamily c = .map then (false, some c, is') else (true, none, is')

/-- The first byte of the next map. -/
def findMap (is : InputStream) : Option Byte × InputStream := whileGood findMapBody none is

/-- `readKeyValues(in)`, if maps are not nested deeper than `depth`. -/
def readKeyValues : (depth : Nat) → InputStream →
    Option (KeyValueMap Bytes MsgPackAny × InputStream)
  | 0, _ => none
  | depth + 1, is =>
      match findMap is with
      | (none, is₁) => some ([], is₁)
      | (some c, is₁) =>
          let (tokensToRead, is₂) := readTokensToRead c is₁
          readPairs uninit (readKeyValues depth) tokensToRead [] is₂

end Read

/-! ## The decoder -/

/-- The decoder. -/
abbrev FromMsgPackVisitor := KeyValueVisitor MsgPackAny

namespace FromMsgPackVisitor

/-- A newly constructed decoder. -/
def init : FromMsgPackVisitor := ⟨[], false⟩

section Visit

variable (uninit : Nat → Byte)

/-- `decodeFrom(in)`. A stream holds no more nested maps than bytes. -/
def decodeFrom (d : FromMsgPackVisitor) (is : InputStream) :
    Option (FromMsgPackVisitor × InputStream) :=
  (readKeyValues uninit (is.rest.length + 1) is).map fun (keyValues, is') =>
    ({ d with keyValues := keyValues }, is')

/-- The visitor: a message looks its fields up in the key/values. -/
def visitor : Visitor FromMsgPackVisitor := KeyValueVisitor.visitor MsgPackAny.kind

/-- `decodeFrom(in)` followed by `v.accept(decoder)`. -/
def decode (T : MessageType) (d : FromMsgPackVisitor) (bytes : Bytes) (v : T.Values) :
    Option (T.Values × FromMsgPackVisitor) :=
  (d.decodeFrom uninit (ofBytes bytes)).map fun (d', _) => (T.visitable visitor).accept v d'

end Visit

end FromMsgPackVisitor

end Cluon
