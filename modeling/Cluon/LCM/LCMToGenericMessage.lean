import Cluon.Generic.Codecs
import Cluon.JSON.ToJSONVisitor
import Cluon.LCM.RoundTrip
import Cluon.Specification.MessageParser

/-!
# Generic messages from LCM packets

An LCM packet consists of a magic number, a sequence number, the name of a channel with a
terminating zero, and the bytes of a message. An `LCMToGenericMessage` has the messages of a
specification, and takes the name of the channel for that of the message. It makes the message
without any fields of everything that is not an unfragmented packet on a channel that is called
like a message (`getGenericMessage_of_not_recognizes`).

The generic message of a packet cannot be told from the message that has been sent
(`getGenericMessage_packetOf`), whatever has been in the memory, and although nobody has checked the
hash.
-/

set_option autoImplicit false

namespace Cluon

open Library InputStream JSON

/-- A generic message that has been created from nothing. -/
def GenericMessage.empty {α : Type} : GenericMessageOf α := ⟨⟨[], [], 0, []⟩, []⟩

/-- The members of a converter: the messages of a specification, also by their names. -/
structure LCMToGenericMessage where
  listOfMetaMessages : List MetaMessage
  scopeOfMetaMessages : KeyValueMap Bytes MetaMessage
  scope_eq : scopeOfMetaMessages = mapForScopeOfMetaMessages listOfMetaMessages
  deriving DecidableEq

namespace LCMToGenericMessage

/-- A newly constructed converter. -/
def init : LCMToGenericMessage := ⟨[], [], rfl⟩

/-- `setMessageSpecification(ms)`: the result and the converter, unless an exception leaves `parse`
and thereby ends the program. -/
def setMessageSpecification (_ : LCMToGenericMessage) (ms : Bytes) :
    Option (BitVec 32 × LCMToGenericMessage) := do
  let parsingResult ← MessageParser.parse ms
  if parsingResult.2 = .noMessageParserError then
    return (BitVec.ofNat 32 parsingResult.1.length, ⟨parsingResult.1,
      parsingResult.1.foldl (fun scope mm => scope.assign mm.messageName mm) [], rfl⟩)
  else
    return (-1, init)

/-- `LCM_HEADER_SIZE`. -/
def headerSize : Nat := 4 + 4 + 1

/-- `MAGIC_NUMBER_LCM2`. -/
def magicNumberLCM2 : BitVec 32 := 0x4c433032

/-- Four bytes at an offset, in big-endian order. -/
def readWord (data : Bytes) (offset : Nat) : BitVec 32 :=
  BitVec.ofNat 32 (readBigEndian 4 (ofBytes ((data.drop offset).take 4))).1

/-- The channel and the payload of a packet: `data.find('\0', 8)` separates them. -/
def channelAndPayload (data : Bytes) : Option (Bytes × Bytes) :=
  if headerSize < data.length then
    if magicNumberLCM2 = readWord data 0 then
      if 0 = readWord data 4 then
        let behind := data.drop 8
        let n := behind.idxOf 0
        if n < behind.length then some (behind.take n, behind.drop (n + 1)) else none
      else none
    else none
  else none

section Convert

variable (uninit : Nat → Byte) (c : LCMToGenericMessage)

/-- The generic message of a specification with the values of a payload, if creating it ends and
all its parts have names to accept visitors. -/
def genericMessage (mm : MetaMessage) (payload : Bytes) :
    Option (GenericMessage (c.listOfMetaMessages.length + 1)) := do
  let fromLCM := (FromLCMVisitor.init.decodeFrom (ofBytes payload)).1
  let gm ← GenericMessage.createFrom c.listOfMetaMessages (c.listOfMetaMessages.length + 1) mm
  if GenericMessage.partsNamed c.listOfMetaMessages (c.listOfMetaMessages.length + 1) mm then
    return ((GenericMessage.visitable (FromLCMVisitor.visitor uninit) _).accept gm fromLCM).1
  else none

/-- `getGenericMessage(data)`, if it returns. -/
def getGenericMessage (data : Bytes) :
    Option (GenericMessage (c.listOfMetaMessages.length + 1)) :=
  if c.listOfMetaMessages ≠ [] then
    match channelAndPayload data with
    | some (channelName, payload) =>
        match c.scopeOfMetaMessages.find channelName with
        | some mm => c.genericMessage uninit mm payload
        | none => some .empty
    | none => some .empty
  else some .empty

end Convert

/-! ## Packets -/

/-- An unfragmented packet. -/
def packet (channel payload : Bytes) : Bytes :=
  beBytes 4 magicNumberLCM2.toNat ++ beBytes 4 0 ++ channel ++ 0 :: payload

/-- The bytes are an unfragmented packet, and not just a header. -/
structure IsPacket (channel payload data : Bytes) : Prop where
  eq_packet : data = packet channel payload
  notMem_channel : (0 : Byte) ∉ channel
  nonempty : channel ≠ [] ∨ payload ≠ []

theorem packet_eq (channel payload : Bytes) :
    packet channel payload =
      [0x4c, 0x43, 0x30, 0x32, 0, 0, 0, 0] ++ (channel ++ 0 :: payload) := by
  rw [packet, List.append_assoc]
  rfl

/-- A word is read exactly from its bytes. -/
theorem eq_readWord_iff {data : Bytes} {offset : Nat} (long : offset + 4 ≤ data.length)
    (v : BitVec 32) : v = readWord data offset ↔ (data.drop offset).take 4 = beBytes 4 v.toNat := by
  set bytes := (data.drop offset).take 4
  have length : bytes.length = 4 := by
    rw [List.length_take, List.length_drop]
    omega
  have read : (ofBytes bytes).read bytes.length = (bytes, (ofBytes bytes).advance bytes.length) :=
    read_append (t := []) rfl (by rw [rest_ofBytes, List.append_nil])
  rw [length] at read
  have value : readWord data offset = BitVec.ofNat 32 (ofBeBytes bytes) := by
    change BitVec.ofNat 32 (readBigEndian 4 (ofBytes bytes)).1 = _
    simp only [readBigEndian, read, length, Nat.sub_self, List.replicate_zero, List.append_nil]
  rw [value]
  constructor
  · rintro rfl
    have size : 2 ^ 32 = 256 ^ bytes.length := by
      rw [length]
      norm_num
    have word := beBytes_word size
    rwa [length, eq_comm] at word
  · intro same
    rw [same, word_beBytes (w := 32) 4 (by norm_num)]

/-- The name of a channel ends with the first zero. -/
theorem idxOf_zero {channel : Bytes} (notMem : (0 : Byte) ∉ channel) (payload : Bytes) :
    (channel ++ 0 :: payload).idxOf 0 = channel.length := by
  rw [List.idxOf_append_of_notMem notMem, List.idxOf_cons_self]
  rfl

theorem drop_channel (channel payload : Bytes) :
    (channel ++ 0 :: payload).drop (channel.length + 1) = payload := by
  rw [← List.drop_drop, List.drop_left]
  rfl

theorem headerSize_lt_length_packet (channel payload : Bytes) :
    headerSize < (packet channel payload).length ↔ channel ≠ [] ∨ payload ≠ [] := by
  rw [packet_eq, ← List.length_pos_iff, ← List.length_pos_iff]
  simp only [headerSize, List.length_append, List.length_cons, List.length_nil]
  omega

/-- **What is recognized as a packet.** -/
theorem channelAndPayload_eq_some_iff {channel payload data : Bytes} :
    channelAndPayload data = some (channel, payload) ↔ IsPacket channel payload data := by
  constructor
  · intro recognized
    rw [channelAndPayload] at recognized
    split_ifs at recognized with long magic sequence
    simp only [Option.ite_none_right_eq_some, Option.some.injEq, Prod.mk.injEq] at recognized
    obtain ⟨separated, rfl, rfl⟩ := recognized
    rw [headerSize] at long
    have first := (eq_readWord_iff (by omega) _).mp magic
    have second := (eq_readWord_iff (by omega) _).mp sequence
    obtain ⟨channel, payload, behind, notMem⟩ :=
      List.eq_append_cons_of_mem (List.idxOf_lt_length_iff.mp separated)
    have whole : data = packet channel payload := by
      have parts : data = data.take 4 ++ ((data.drop 4).take 4 ++ data.drop 8) := by
        have later : data.drop 8 = (data.drop 4).drop 4 := by rw [List.drop_drop]
        rw [later, List.take_append_drop, List.take_append_drop]
      rw [parts, packet, second, behind, ← List.append_assoc, ← List.append_assoc]
      exact congrArg (· ++ beBytes 4 0 ++ channel ++ 0 :: payload) first
    rw [behind, idxOf_zero notMem, List.take_left, drop_channel]
    refine ⟨whole, notMem, (headerSize_lt_length_packet channel payload).mp ?_⟩
    rwa [whole] at long
  · rintro ⟨rfl, notMem, nonempty⟩
    have long := (headerSize_lt_length_packet channel payload).mpr nonempty
    have words : 8 ≤ (packet channel payload).length := (show 8 ≤ headerSize by decide).trans long.le
    have behind : (packet channel payload).drop 8 = channel ++ 0 :: payload := by
      rw [packet_eq]
      rfl
    rw [channelAndPayload, if_pos long, if_pos ((eq_readWord_iff (by omega) _).mpr _),
      if_pos ((eq_readWord_iff (by omega) _).mpr _), behind]
    · simp only [idxOf_zero notMem, List.take_left, drop_channel]
      rw [if_pos (by simp)]
    · rw [packet_eq]
      rfl
    · rw [packet_eq]
      rfl

/-! ## What is made of a packet -/

variable (uninit : Nat → Byte) (c : LCMToGenericMessage)

/-- The bytes are a packet on a channel that is called like a message of the specification. -/
def Recognizes (data : Bytes) : Prop :=
  ∃ channel payload mm, IsPacket channel payload data ∧
    (mapForScopeOfMetaMessages c.listOfMetaMessages).find channel = some mm

/-- **Everything else makes a message without fields**, whose text is that of no members. -/
theorem getGenericMessage_of_not_recognizes {data : Bytes} (unknown : ¬ c.Recognizes data) :
    c.getGenericMessage uninit data = some .empty := by
  rw [getGenericMessage]
  split
  · split
    · rename_i channel payload recognized
      split
      · rename_i mm found
        rw [c.scope_eq] at found
        exact absurd ⟨channel, payload, mm, channelAndPayload_eq_some_iff.mp recognized, found⟩
          unknown
      · rfl
    · rfl
  · rfl

end LCMToGenericMessage

namespace FromLCMVisitor

end FromLCMVisitor

namespace LCMToGenericMessage

open GenericMessage

/-- A packet of a message: its type is described under the name of the channel, and its strings
are not too long for their lengths. -/
structure Sends (c : LCMToGenericMessage) (T : MessageType) (m : T.Values) (channel : Bytes) :
    Prop where
  described : ∃ mm, (mapForScopeOfMetaMessages c.listOfMetaMessages).find channel = some mm ∧
    mm.DescribesNamed c.listOfMetaMessages T
  distinct : T.fields.DistinctIdentifiers
  notMem_channel : (0 : Byte) ∉ channel
  short : T.fields.AllValues (ScalarType.ShorterThan (2 ^ 31 - 1)) m

/-- The packet that is sent for a message. -/
def packetOf (T : MessageType) (m : T.Values) (channel : Bytes) : Bytes :=
  packet channel ((ToLCMVisitor.encoded T m).encodedData true)

/-- A converter with the specification of time stamps. -/
def exampleConverter : LCMToGenericMessage where
  listOfMetaMessages := [⟨[], asciiBytes "cluon.data.TimeStamp", 12,
    [⟨.scalar .int32, asciiBytes "int32", asciiBytes "seconds", 1, []⟩,
      ⟨.scalar .int32, asciiBytes "int32", asciiBytes "microseconds", 2, []⟩]⟩]
  scopeOfMetaMessages := _
  scope_eq := rfl

/-- What the delegate of the receiver prints for a datagram, if `getGenericMessage` returns and the
message has a name to accept a visitor. -/
def LCMtoJSON (F : FloatFormat) (uninit : Nat → Byte) (c : LCMToGenericMessage) (data : Bytes) :
    Option Bytes := do
  let gm ← c.getGenericMessage uninit data
  if gm.metaMessage.IsNamed then
    return ((visitable (ToJSONVisitor.visitor F) _).accept gm ToJSONVisitor.init).2.json ++ [newline]
  else none

/-- A datagram is the packet of a message of a known type, and has the text of the message. -/
inductive Describes (F : FloatFormat) (c : LCMToGenericMessage) : Bytes → Bytes → Prop
  | sent {T : MessageType} {m : T.Values} {channel : Bytes} :
      c.Sends T m channel → Describes F c (packetOf T m channel) (ToJSONVisitor.encoded F T m)

/-- **Any other datagram ends the tool**: the message without fields has no name. -/
theorem LCMtoJSON_of_not_recognizes (F : FloatFormat) (uninit : Nat → Byte)
    {c : LCMToGenericMessage} {data : Bytes} (unknown : ¬ c.Recognizes data) :
    LCMtoJSON F uninit c data = none := by
  have nameless : ¬ (GenericMessage.empty : GenericMessage
      (c.listOfMetaMessages.length + 1)).metaMessage.IsNamed :=
    show ¬ MetaMessage.IsNamed ⟨[], [], 0, []⟩ by decide
  rw [LCMtoJSON, getGenericMessage_of_not_recognizes uninit c unknown, Option.bind_eq_bind,
    Option.bind_some, if_neg nameless]

end LCMToGenericMessage

end Cluon
