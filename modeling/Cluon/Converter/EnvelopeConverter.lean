import Cluon.Generic.Unwritten
import Cluon.JSON.ToJSONVisitor
import Cluon.Recording.Envelope
import Cluon.Specification.MessageParser

/-!
# Converting envelopes to JSON

An `EnvelopeConverter` has the messages of a specification, and finds by the data type of an
envelope which of them its payload is. The text for an envelope consists of the members of the
envelope without its payload, and of the payload as a member with the name of its message.
`getJSONFromProtoEncodedEnvelope` takes the bytes of an envelope, either with the header of a frame
or without; it looks for the header, and decodes the bytes as they are if it has not got an
envelope with a data type from a frame.

The bytes of an envelope are never taken for a frame, because they begin with the key of the data
type, and what is read behind a frame that has been extracted changes nothing. So both ways the
text is that for the envelope (`getJSONFromProtoEncodedEnvelope_encodedData`,
`getJSONFromProtoEncodedEnvelope_serializeEnvelope`).
-/

set_option autoImplicit false

namespace Cluon

open Library InputStream JSON

/-- The members of a converter. -/
structure EnvelopeConverter where
  listOfMetaMessages : List MetaMessage
  scopeOfMetaMessages : KeyValueMap (BitVec 32) MetaMessage
  deriving DecidableEq, Repr

namespace EnvelopeConverter

/-- `setMessageSpecification(ms)`: the result and the converter, unless an exception leaves `parse`
and thereby ends the program. -/
def setMessageSpecification (_ : EnvelopeConverter) (ms : Bytes) :
    Option (BitVec 32 × EnvelopeConverter) := do
  let parsingResult ← MessageParser.parse ms
  if parsingResult.2 = .noMessageParserError then
    return (BitVec.ofNat 32 parsingResult.1.length, ⟨parsingResult.1,
      parsingResult.1.foldl (fun scope mm => scope.assign mm.messageIdentifier mm) []⟩)
  else
    return (-1, ⟨[], []⟩)

section JSON

variable (F : FloatFormat) (memory : Nat) (uninit : Nat → Byte) (c : EnvelopeConverter)

/-- The generic message of a specification with the values of a payload, for a visitor of all its
parts. There is none if creating it does not end, since a chain of nested messages that is longer
than the specification repeats a message type; if a part of it has no name to accept visitors; or if
the decoder cannot reserve memory for the lengths that the payload declares. -/
def genericMessage (payload : MetaMessage) (serializedData : Bytes) :
    Option (GenericMessage (c.listOfMetaMessages.length + 1)) := do
  let protoDecoder := (FromProtoVisitor.decodeFrom uninit .init (ofBytes serializedData)).1
  let gm ← GenericMessage.createFrom c.listOfMetaMessages (c.listOfMetaMessages.length + 1) payload
  if GenericMessage.partsNamed c.listOfMetaMessages (c.listOfMetaMessages.length + 1) payload ∧
      GenericMessage.reserves memory uninit c.listOfMetaMessages (c.listOfMetaMessages.length + 1)
        payload serializedData then
    return ((GenericMessage.visitable (FromProtoVisitor.visitor uninit) _).accept gm protoDecoder).1
  else none

/-- Memory can be reserved for the lengths that the payload of an envelope declares. -/
def Reserves (envelope : Envelope.Values) : Prop :=
  ∀ payload, c.scopeOfMetaMessages.find (Envelope.dataType envelope) = some payload →
    GenericMessage.reserves memory uninit c.listOfMetaMessages (c.listOfMetaMessages.length + 1)
      payload (Envelope.serializedData envelope) = true

/-- `getJSONFromEnvelope(envelope)`, if it returns. -/
def getJSONFromEnvelope (envelope : Envelope.Values) : Option Bytes :=
  if c.listOfMetaMessages ≠ [] then
    match c.scopeOfMetaMessages.find (Envelope.dataType envelope) with
    | some payload => do
        let envelopeToJSON :=
          ((Envelope.visitable (ToJSONVisitor.visitor F)).accept envelope ⟨false, [(2, false)], []⟩).2
        let gm ← c.genericMessage memory uninit payload (Envelope.serializedData envelope)
        let payloadToJSON :=
          ((GenericMessage.visitable (ToJSONVisitor.visitor F) _).accept gm ⟨false, [], []⟩).2
        let tmp := payload.messageName.map fun b => if b = 0x2E then 0x5F else b
        let strPayloadJSON :=
          if payloadToJSON.json ≠ [openBrace, closeBrace] then payloadToJSON.json else []
        return openBrace :: envelopeToJSON.json ++ [comma, newline, quote] ++ tmp ++
          [quote, colon, openBrace] ++ strPayloadJSON ++ [closeBrace, closeBrace]
    | none => some [openBrace, closeBrace]
  else some [openBrace, closeBrace]

/-- The bytes have the header of a frame, and the length that it states. -/
def IsFramed (protoEncodedEnvelope : Bytes) : Prop :=
  5 < protoEncodedEnvelope.length ∧ protoEncodedEnvelope[0]? = some 0x0D#8 ∧
    protoEncodedEnvelope[1]? = some 0xA4#8 ∧
    (5 + (BitVec.ofNat 32 (ofLeBytes ((protoEncodedEnvelope.drop 1).take 4)) >>> 8)).toNat =
      protoEncodedEnvelope.length

instance (protoEncodedEnvelope : Bytes) : Decidable (IsFramed protoEncodedEnvelope) :=
  inferInstanceAs (Decidable (_ ∧ _ ∧ _ ∧ _))

/-- `getJSONFromProtoEncodedEnvelope(protoEncodedEnvelope)`. -/
def getJSONFromProtoEncodedEnvelope (protoEncodedEnvelope : Bytes) : Option Bytes :=
  if c.listOfMetaMessages ≠ [] then
    let sstr := ofBytes protoEncodedEnvelope
    -- Try decoding a complete frame.
    let (envelope, sstr) :=
      if IsFramed protoEncodedEnvelope then
        let (result, sstr) := extractEnvelope uninit sstr
        (if result.1 then result.2 else Envelope.initial, sstr)
      else (Envelope.initial, sstr)
    -- Otherwise try decoding without a header.
    let envelope :=
      if 0 = Envelope.dataType envelope then
        (FromProtoVisitor.decodeFromInto (Envelope.visitable (FromProtoVisitor.visitor uninit))
          .init sstr envelope).1.1
      else envelope
    c.getJSONFromEnvelope F memory uninit envelope
  else some [openBrace, closeBrace]

/-! ## Bytes without a header -/

/-- The bytes of an envelope begin with the key of its data type. -/
theorem encodedData_envelope (e : Envelope.Values) :
    ∃ bytes, ToProtoVisitor.encodedData Envelope e = 0x08 :: bytes := by
  have key : toVarInt (encodeKey 1#32 .varint) = [0x08] := toVarInt_of_lt (by decide)
  rw [ToProtoVisitor.encodedData_eq]
  simp only [Envelope, FieldInfo.declared, ScalarType.protoType, Fields.protoBytes]
  rw [key]
  exact ⟨_, rfl⟩

/-- So they are not taken for a frame. -/
theorem not_isFramed_encodedData (e : Envelope.Values) :
    ¬ IsFramed (ToProtoVisitor.encodedData Envelope e) := by
  obtain ⟨bytes, begins⟩ := encodedData_envelope e
  rw [begins]
  rintro ⟨-, first, -⟩
  exact absurd (Option.some.inj first) (by decide)

/-- **The bytes of an envelope without a header** are converted like the envelope. -/
theorem getJSONFromProtoEncodedEnvelope_encodedData {e : Envelope.Values} (fits : FitsFrame e) :
    c.getJSONFromProtoEncodedEnvelope F memory uninit (ToProtoVisitor.encodedData Envelope e) =
      c.getJSONFromEnvelope F memory uninit e := by
  rw [getJSONFromProtoEncodedEnvelope]
  by_cases some : c.listOfMetaMessages ≠ []
  · rw [if_pos some]
    simp only [if_neg (not_isFramed_encodedData e)]
    rw [if_pos (show 0 = Envelope.dataType Envelope.initial from rfl)]
    exact congrArg _ (decode_payload uninit fits)
  · rw [if_neg some, getJSONFromEnvelope, if_neg some]

/-! ## Frames -/

theorem isFramed_serializeEnvelope {e : Envelope.Values} (fits : FitsFrame e) :
    IsFramed (serializeEnvelope e) := by
  obtain ⟨bytes, begins⟩ := encodedData_envelope e
  have length := length_of_frameHeader fits
  have positive : 0 < (ToProtoVisitor.encodedData Envelope e).length := by
    rw [begins]
    exact Nat.succ_pos _
  refine ⟨by rw [length_serializeEnvelope fits]; omega, ?_, ?_, ?_⟩
  · rw [serializeEnvelope_eq fits]
    rfl
  · rw [serializeEnvelope_eq fits]
    rfl
  · rw [length_serializeEnvelope fits, serializeEnvelope_eq fits]
    have header : (((frameHeader (ToProtoVisitor.encodedData Envelope e).length) ++
        ToProtoVisitor.encodedData Envelope e).drop 1).take 4 =
          (frameHeader (ToProtoVisitor.encodedData Envelope e).length).drop 1 := rfl
    rw [header, BitVec.toNat_add, length]
    rw [FitsFrame] at fits
    exact Nat.mod_eq_of_lt (by change 5 + _ < _; omega)

/-- Nothing is decoded from a stream that has been read to its end. -/
theorem decodeFromInto_nil {is : InputStream} (hg : is.good) (hr : is.rest = [])
    (e : Envelope.Values) :
    (FromProtoVisitor.decodeFromInto (Envelope.visitable (FromProtoVisitor.visitor uninit))
      .init is e).1.1 = e := by
  have loop := FromProtoVisitor.whileGood_decodeFromIntoBody_eq
    (Envelope.visitable (FromProtoVisitor.visitor uninit))
    (e, FromProtoVisitor.init.directly) is
  rw [FromProtoVisitor.reads_nil hg hr] at loop
  exact congrArg Prod.fst loop

/-- **A frame** is converted like its envelope. -/
theorem getJSONFromProtoEncodedEnvelope_serializeEnvelope {e : Envelope.Values}
    (fits : FitsFrame e) :
    c.getJSONFromProtoEncodedEnvelope F memory uninit (serializeEnvelope e) =
      c.getJSONFromEnvelope F memory uninit e := by
  have whole : (ofBytes (serializeEnvelope e)).rest = serializeEnvelope e ++ [] := by
    rw [rest_ofBytes, List.append_nil]
  have extracted := extractEnvelope_frame uninit fits rfl whole
  have good : (ofBytes (serializeEnvelope e)).good := rfl
  have atEnd := decodeFromInto_nil uninit (good_advance_of good (serializeEnvelope e).length)
    (rest_advance_append whole) e
  rw [getJSONFromProtoEncodedEnvelope]
  by_cases some : c.listOfMetaMessages ≠ []
  · rw [if_pos some]
    simp only [if_pos (isFramed_serializeEnvelope fits), extracted, if_true]
    split
    · rw [atEnd]
    · rfl
  · rw [if_neg some, getJSONFromEnvelope, if_neg some]

end JSON

end EnvelopeConverter

end Cluon
