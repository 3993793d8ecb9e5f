import Cluon.Converter.EnvelopeConverter
import Cluon.Generic.Codecs
import Cluon.JSON.Lost

/-!
# From JSON to an envelope and back

`getProtoEncodedEnvelopeFromJSON` makes a generic message of a specification, gives it the values of
a text, and puts its bytes into an envelope, of which it returns the frame. For a message that is
readable in JSON the payload consists of the bytes of the message itself, so that a program with
the compiled type extracts the message from the frame (`getProtoEncodedEnvelopeFromJSON_eq`). A
converter makes the text of the message from the frame again (`there_and_back`), with the members of
the envelope in front, whatever has been in the memory.
-/

set_option autoImplicit false

namespace Cluon

open Library InputStream JSON

namespace EnvelopeConverter

section FromJSON

variable (F : FloatFormat) (c : EnvelopeConverter)

/-- The generic message of a specification with the values of a text, if creating it and reading the
text end, no exception leaves a `noexcept` method, and all its parts have names to accept visitors;
at most `rounds` searches are tried. -/
def genericMessageFromJSON (rounds : Nat) (message : MetaMessage) (json : Bytes) :
    Option (GenericMessage (c.listOfMetaMessages.length + 1)) := do
  let gm ← GenericMessage.createFrom c.listOfMetaMessages (c.listOfMetaMessages.length + 1) message
  let jsonDecoder ← (FromJSONVisitor.init.decodeFrom rounds json).toOption
  let visited := (GenericMessage.visitable (FromJSONVisitor.visitor F) _).accept gm jsonDecoder
  if GenericMessage.partsNamed c.listOfMetaMessages (c.listOfMetaMessages.length + 1) message ∧
      visited.2.terminated = false then some visited.1
  else none

/-- The envelope with a payload. -/
def envelopeFor (messageIdentifier : BitVec 32) (payload : Bytes) (senderStamp : BitVec 32)
    (sampleTimeStamp : TimeStamp.Values) : Envelope.Values :=
  (messageIdentifier, payload, TimeStamp.of 0 0, TimeStamp.of 0 0, sampleTimeStamp, senderStamp, ())

/-- `getProtoEncodedEnvelopeFromJSON(json, messageIdentifier, senderStamp, sampleTimeStamp)`. -/
def getProtoEncodedEnvelopeFromJSON (rounds : Nat) (json : Bytes)
    (messageIdentifier senderStamp : BitVec 32) (sampleTimeStamp : TimeStamp.Values) :
    Option Bytes :=
  match c.scopeOfMetaMessages.find messageIdentifier with
  | some message => do
      let gm ← c.genericMessageFromJSON F rounds message json
      let protoEncoder := ((GenericMessage.visitable ToProtoVisitor.visitor _).accept gm []).2
      return serializeEnvelope
        (envelopeFor messageIdentifier protoEncoder senderStamp sampleTimeStamp)
  | none => some []

/-- `getProtoEncodedEnvelopeFromJSONWithoutTimeStamps(json, messageIdentifier, senderStamp)`. -/
def getProtoEncodedEnvelopeFromJSONWithoutTimeStamps (rounds : Nat) (json : Bytes)
    (messageIdentifier senderStamp : BitVec 32) : Option Bytes :=
  c.getProtoEncodedEnvelopeFromJSON F rounds json messageIdentifier senderStamp (TimeStamp.of 0 0)

end FromJSON

/-! ## Memory for complete records -/

end EnvelopeConverter

theorem FromProtoVisitor.declared_ofPayload_le {bs : Bytes} {id : BitVec 32} {payload : ProtoAny}
    (record : IsRecord bs id payload) : (Read.ofPayload payload).declared ≤ bs.length := by
  cases record with
  | varint _ _ => exact Nat.zero_le _
  | eightBytes _ _ => exact Nat.zero_le _
  | fourBytes _ _ => exact Nat.zero_le _
  | @lengthDelimited key n s _ _ _ declared =>
      simp only [Read.ofPayload, Read.declared, BitVec.toNat_ofNat, List.length_append]
      exact (Nat.mod_le _ _).trans (by omega)

/-- Complete records declare no lengths that are greater than that of their bytes. -/
theorem FromProtoVisitor.declared_le_of_encodes {rs : Records} {bytes : Bytes}
    (encodes : rs.Encodes bytes) :
    ∀ {is : InputStream}, is.good → is.rest = bytes →
      ∀ r ∈ FromProtoVisitor.reads is, r.2.declared ≤ bytes.length := by
  have cons {id : BitVec 32} {payload : ProtoAny} {bs more : Bytes}
      (record : IsRecord bs id payload)
      (others : ∀ {is : InputStream}, is.good → is.rest = more →
        ∀ r ∈ FromProtoVisitor.reads is, r.2.declared ≤ more.length) {is : InputStream}
      (hg : is.good) (hr : is.rest = bs ++ more) :
      ∀ r ∈ FromProtoVisitor.reads is, r.2.declared ≤ (bs ++ more).length := by
    intro r member
    rw [reads_append record hg hr, List.mem_cons] at member
    rw [List.length_append]
    rcases member with rfl | later
    · exact (declared_ofPayload_le record).trans (Nat.le_add_right _ _)
    · exact (others (good_advance_of hg bs.length) (rest_advance_append hr) r later).trans
        (Nat.le_add_left _ _)
  induction encodes with
  | nil =>
      intro is hg hr r member
      rw [reads_nil hg hr] at member
      cases member
  | scalar record _ ih =>
      intro is hg hr
      exact cons record ih hg hr
  | message _ record _ _ ih =>
      intro is hg hr
      exact cons record ih hg hr

theorem FromProtoVisitor.reservesIn_of_encodes {memory : Nat} {rs : Records} {bytes : Bytes}
    (encodes : rs.Encodes bytes) (short : bytes.length ≤ memory) :
    FromProtoVisitor.ReservesIn memory bytes := fun r member =>
  (declared_le_of_encodes encodes (good_ofBytes bytes) (rest_ofBytes bytes) r member).trans short

/-- Memory can be reserved for what is read from complete records, as far as there are nested
messages where the specification has some. -/
theorem GenericMessage.reserves_of_encodes {memory : Nat} (uninit : Nat → Byte)
    {mms : List MetaMessage} (fs : Fields) :
    ∀ {n : Nat} {mm : MetaMessage} {rs : Records} {bytes : Bytes}, rs.Encodes bytes →
      rs.Matches fs → fs.DescribesNamed (mapForScopeOfMetaMessages mms) mm.listOfMetaFields →
      bytes.length ≤ memory → GenericMessage.reserves memory uninit mms n mm bytes = true := by
  have fields : ∀ {n : Nat} {fields : List MetaField} {rs : Records} {bytes : Bytes},
      FromProtoVisitor.ReservesIn memory bytes →
      FromProtoVisitor.Collected []
        (FromProtoVisitor.decodeFrom uninit .init (ofBytes bytes)).1.mapOfKeyValues rs →
      rs.Matches fs → fs.DescribesNamed (mapForScopeOfMetaMessages mms) fields →
      (fields.all fun f => decide (f.fieldDataType ≠ .message) ||
        ((mapForScopeOfMetaMessages mms).find f.fieldDataTypeName).all fun inner =>
          (FromProtoVisitor.nestedBytes uninit bytes f.fieldIdentifier).all
            (GenericMessage.reserves memory uninit mms n inner)) = true := by
    induction fs with
    | nil => rintro _ _ _ _ _ _ _ rfl; rfl
    | scalar field t rest ih =>
        rintro n _ rs bytes reserves collected hm ⟨f, fs, rfl, _, type, described⟩
        rw [List.all_cons, type, ih reserves collected hm.of_scalar described]
        rfl
    | nested field info inner rest ihInner ih =>
        rintro n _ rs bytes reserves collected hm ⟨f, fs, mm, rfl, names, type, found, _, inside,
          described⟩
        have nested : (FromProtoVisitor.nestedBytes uninit bytes f.fieldIdentifier).all
            (GenericMessage.reserves memory uninit mms n mm) = true := by
          rw [Option.all_eq_true]
          intro s read
          have short := FromProtoVisitor.length_le_of_nestedBytes reserves read
          rw [FromProtoVisitor.nestedBytes, names.fieldIdentifier_eq] at read
          rcases FromProtoVisitor.heads_nested hm (collected field.fieldIdentifier) with
            ⟨absent, -⟩ | ⟨s', present, encodes, matched⟩
          · rw [absent] at read
            cases read
          · rw [present] at read
            obtain rfl := Option.some.inj read
            cases n with
            | zero => rfl
            | succ n =>
                have within := FromProtoVisitor.reservesIn_of_encodes encodes short
                have collected := (FromProtoVisitor.whileGood_decodeFromBody uninit encodes .init
                  (ofBytes s') (good_ofBytes s') (rest_ofBytes s')).1
                rw [GenericMessage.reserves, ihInner within collected matched inside,
                  decide_eq_true within, Bool.and_self]
        rw [List.all_cons, type, ih reserves collected hm.of_nested described, found,
          Option.all_some, nested]
        rfl
  intro n mm rs bytes encodes hm described short
  cases n with
  | zero => rfl
  | succ n =>
      have within := FromProtoVisitor.reservesIn_of_encodes encodes short
      have collected := (FromProtoVisitor.whileGood_decodeFromBody uninit encodes .init
        (ofBytes bytes) (good_ofBytes bytes) (rest_ofBytes bytes)).1
      rw [GenericMessage.reserves, fields within collected hm described, decide_eq_true within,
        Bool.and_self]

namespace EnvelopeConverter

/-! ## Messages that a converter knows -/

/-- The specification of a converter has a message under an identifier that describes a type whose
messages can be encoded in Proto. -/
structure Knows (c : EnvelopeConverter) (messageIdentifier : BitVec 32) (mm : MetaMessage)
    (T : MessageType) : Prop where
  found : c.scopeOfMetaMessages.find messageIdentifier = some mm
  described : mm.DescribesNamed c.listOfMetaMessages T
  nonempty : c.listOfMetaMessages ≠ []
  distinct : T.fields.DistinctIdentifiers
  protoIdentifiers : T.fields.ProtoIdentifiers

open GenericMessage

section Knows

variable {c : EnvelopeConverter} {messageIdentifier : BitVec 32} {mm : MetaMessage}
  {T : MessageType} (knows : c.Knows messageIdentifier mm T) (F : FloatFormat)
include knows

/-- The generic message of a readable text represents the message. -/
theorem exists_genericMessageFromJSON (inJSON : T.InJSON) {m : T.Values}
    (readable : T.fields.JSONReadable False m) {rounds : Nat}
    (enough : (ToJSONVisitor.encoded F T m).length < rounds) :
    ∃ gm, c.genericMessageFromJSON F rounds mm (ToJSONVisitor.encoded F T m) = some gm ∧
      HoldsNamed T.fields gm m := by
  obtain ⟨gm, created, holds⟩ := createFrom_holdsNamed knows.described knows.distinct
  obtain ⟨d', decoded, running⟩ := FromJSONVisitor.decode_readable F inJSON readable enough
    (d := FromJSONVisitor.init) rfl T.fields.initial
  rw [FromJSONVisitor.decode] at decoded
  rcases read : FromJSONVisitor.init.decodeFrom rounds (ToJSONVisitor.encoded F T m) with e | d
  · rw [read] at decoded
    cases decoded
  · rw [read] at decoded
    have accepted := Except.ok.inj decoded
    have parametric := FromJSONVisitor.parametric F
    have alike := alike_visitable parametric
      (visitsAlike_of_parametric parametric T.fields knows.distinct) T.info
      c.listOfMetaMessages.length
    obtain ⟨held, same⟩ := alike.accept holds d
    rw [show (MessageType.mk T.info T.fields).visitable (FromJSONVisitor.visitor F) =
      T.visitable (FromJSONVisitor.visitor F) from rfl, accepted] at held same
    refine ⟨_, ?_, held⟩
    have named := partsNamed_of_describesNamed (n := c.listOfMetaMessages.length + 1) T.fields
      knows.described.1 knows.described.2
    rw [genericMessageFromJSON, created, read]
    simp only [Except.toOption, Option.bind_eq_bind, Option.bind_some, same, running, named,
      and_self, if_true]

/-- **The frame for a text** is that of the envelope with the bytes of the message. -/
theorem getProtoEncodedEnvelopeFromJSON_eq (inJSON : T.InJSON) {m : T.Values}
    (readable : T.fields.JSONReadable False m) {rounds : Nat}
    (enough : (ToJSONVisitor.encoded F T m).length < rounds) (senderStamp : BitVec 32)
    (sampleTimeStamp : TimeStamp.Values) :
    c.getProtoEncodedEnvelopeFromJSON F rounds (ToJSONVisitor.encoded F T m) messageIdentifier
        senderStamp sampleTimeStamp =
      some (serializeEnvelope (envelopeFor messageIdentifier (ToProtoVisitor.encodedData T m)
        senderStamp sampleTimeStamp)) := by
  obtain ⟨gm, made, holds⟩ := exists_genericMessageFromJSON knows F inJSON readable enough
  have parametric := ToProtoVisitor.uniform.parametric
  have alike := alike_visitable parametric
    (visitsAlike_of_parametric parametric T.fields knows.distinct) T.info
    c.listOfMetaMessages.length
  have encoded : ((visitable ToProtoVisitor.visitor _).accept gm []).2 =
      ToProtoVisitor.encodedData T m := (alike.accept holds []).2
  rw [getProtoEncodedEnvelopeFromJSON, knows.found]
  simp only [made, Option.bind_eq_bind, Option.bind_some, encoded]
  rfl

/-- The text of an envelope whose payload is a message of a compiled type. -/
def envelopeText (F : FloatFormat) (e : Envelope.Values) (messageName : Bytes) (T : MessageType)
    (m : T.Values) : Bytes :=
  let envelopeToJSON :=
    ((Envelope.visitable (ToJSONVisitor.visitor F)).accept e ⟨false, [(2, false)], []⟩).2
  let payloadToJSON := ((T.visitable (ToJSONVisitor.visitor F)).accept m ⟨false, [], []⟩).2
  let tmp := messageName.map fun b => if b = 0x2E then 0x5F else b
  let strPayloadJSON :=
    if payloadToJSON.json ≠ [openBrace, closeBrace] then payloadToJSON.json else []
  openBrace :: envelopeToJSON.json ++ [comma, newline, quote] ++ tmp ++
    [quote, colon, openBrace] ++ strPayloadJSON ++ [closeBrace, closeBrace]

/-- **The generic message of any payload**, for which memory can be reserved, represents the message
that a program with the compiled type extracts from it. -/
theorem exists_genericMessage_holdsNamed {memory : Nat} {uninit : Nat → Byte} {payload : Bytes}
    (reserves : GenericMessage.reserves memory uninit c.listOfMetaMessages
      (c.listOfMetaMessages.length + 1) mm payload = true) :
    ∃ gm, c.genericMessage memory uninit mm payload = some gm ∧ HoldsNamed T.fields gm
      (FromProtoVisitor.decodeTwoStage uninit T .init payload T.fields.initial) := by
  obtain ⟨gm, created, holds⟩ := createFrom_holdsNamed knows.described knows.distinct
  have parametric := (FromProtoVisitor.uniform uninit).parametric
  have alike := alike_visitable parametric
    (visitsAlike_of_parametric parametric T.fields knows.distinct) T.info
    c.listOfMetaMessages.length
  refine ⟨_, ?_, (alike.accept holds
    (FromProtoVisitor.decodeFrom uninit .init (ofBytes payload)).1).1⟩
  rw [genericMessage, created]
  exact if_pos
    ⟨partsNamed_of_describesNamed T.fields knows.described.1 knows.described.2, reserves⟩

/-- **The text of an envelope of a known type** has the members of the message that a program with
the compiled type extracts from it. -/
theorem getJSONFromEnvelope_eq {memory : Nat} {uninit : Nat → Byte} {e : Envelope.Values}
    (reserves : c.Reserves memory uninit e) (dataType : Envelope.dataType e = messageIdentifier) :
    c.getJSONFromEnvelope F memory uninit e = some (envelopeText F e mm.messageName T
      (FromProtoVisitor.decodeTwoStage uninit T .init (Envelope.serializedData e)
        T.fields.initial)) := by
  obtain ⟨gm, made, holds⟩ :=
    exists_genericMessage_holdsNamed knows (reserves mm (dataType ▸ knows.found))
  have parametric := ToJSONVisitor.parametric F
  have alike := alike_visitable parametric
    (visitsAlike_of_parametric parametric T.fields knows.distinct) T.info
    c.listOfMetaMessages.length
  have text := (alike.accept holds ⟨false, [], []⟩).2
  rw [getJSONFromEnvelope, if_pos knows.nonempty, dataType, knows.found]
  simp only [made, Option.bind_eq_bind, Option.bind_some, text]
  rfl

/-- Memory can be reserved for an encoded message if it can be for its bytes. -/
theorem reserves_of_encodedData {e : Envelope.Values}
    (dataType : Envelope.dataType e = messageIdentifier) {m : T.Values}
    (payload : Envelope.serializedData e = ToProtoVisitor.encodedData T m)
    (short : (ToProtoVisitor.encodedData T m).length < 2 ^ 64) {memory : Nat}
    (reservable : (ToProtoVisitor.encodedData T m).length ≤ memory) (uninit : Nat → Byte) :
    c.Reserves memory uninit e := by
  intro mm' found
  rw [dataType, knows.found, Option.some.injEq] at found
  subst found
  rw [ToProtoVisitor.encodedData_eq] at payload short reservable
  rw [payload]
  exact GenericMessage.reserves_of_encodes uninit T.fields
    (T.fields.encodes_records knows.protoIdentifiers m short)
    (T.fields.matches_records knows.distinct m) knows.described.2 reservable

/-- **There and back.** The text of a message that is readable in JSON gives a frame. A program
with the compiled type extracts the envelope from it, and the message from the envelope; the
converter makes the text of the message from it again, with the members of the envelope in front,
if there is as much memory as the message has bytes. -/
theorem there_and_back (inJSON : T.InJSON) {m : T.Values}
    (readable : T.fields.JSONReadable False m) {rounds : Nat}
    (enough : (ToJSONVisitor.encoded F T m).length < rounds) (senderStamp : BitVec 32)
    (sampleTimeStamp : TimeStamp.Values)
    (fits : FitsFrame (envelopeFor messageIdentifier (ToProtoVisitor.encodedData T m) senderStamp
      sampleTimeStamp)) {memory : Nat}
    (reservable : (ToProtoVisitor.encodedData T m).length ≤ memory) :
    let e := envelopeFor messageIdentifier (ToProtoVisitor.encodedData T m) senderStamp
      sampleTimeStamp
    ∃ frame, c.getProtoEncodedEnvelopeFromJSON F rounds (ToJSONVisitor.encoded F T m)
        messageIdentifier senderStamp sampleTimeStamp = some frame ∧
      ∀ uninit, (extractEnvelope uninit (ofBytes frame)).1 = (true, e) ∧
        (∀ msg, FromProtoVisitor.decodeTwoStage uninit T .init (Envelope.serializedData e) msg =
          m) ∧
        c.getJSONFromProtoEncodedEnvelope F memory uninit frame =
          some (envelopeText F e mm.messageName T m) := by
  intro e
  have short : (ToProtoVisitor.encodedData T m).length < 2 ^ 64 :=
    ((length_serializedData_le e).trans_lt fits).trans (by norm_num)
  have decoded (uninit) (msg : T.Values) :
      FromProtoVisitor.decodeTwoStage uninit T .init (Envelope.serializedData e) msg = m :=
    FromProtoVisitor.decodeTwoStage_encodedData uninit knows.distinct knows.protoIdentifiers m
      short rfl msg
  refine ⟨_, getProtoEncodedEnvelopeFromJSON_eq knows F inJSON readable enough senderStamp
    sampleTimeStamp, fun uninit => ⟨?_, decoded uninit, ?_⟩⟩
  · have whole : (ofBytes (serializeEnvelope e)).rest = serializeEnvelope e ++ [] := by
      rw [rest_ofBytes, List.append_nil]
    rw [extractEnvelope_frame uninit fits rfl whole]
  · have reserves := reserves_of_encodedData knows (e := e) rfl rfl short reservable uninit
    rw [getJSONFromProtoEncodedEnvelope_serializeEnvelope F memory uninit c fits,
      getJSONFromEnvelope_eq knows F reserves rfl, decoded]

end Knows

/-- A converter with the specification of time stamps. -/
def exampleConverter : EnvelopeConverter :=
  let mm : MetaMessage := ⟨[], asciiBytes "cluon.data.TimeStamp", 12,
    [⟨.scalar .int32, asciiBytes "int32", asciiBytes "seconds", 1, []⟩,
      ⟨.scalar .int32, asciiBytes "int32", asciiBytes "microseconds", 2, []⟩]⟩
  ⟨[mm], [(12, mm)]⟩

theorem knows_timeStamp : ∃ mm, exampleConverter.Knows 12 mm TimeStamp := by
  refine ⟨_, rfl, ⟨by decide, _, _, rfl, ⟨rfl, rfl⟩, rfl, _, _, rfl, ⟨rfl, rfl⟩, rfl, rfl⟩,
    by decide, ?_, ?_⟩
  · simp [TimeStamp, Fields.Distinct, Fields.keys, FieldInfo.declared]
  · simp [TimeStamp, Fields.All, FieldInfo.declared]

theorem inJSON_timeStamp : TimeStamp.InJSON := by
  refine ⟨?_, ?_, ?_⟩
  · simp [TimeStamp, Fields.All, FieldInfo.declared, asciiBytes, IsIdentifier, isLetter]
  · simp [TimeStamp, Fields.Distinct, Fields.keys, FieldInfo.declared, asciiBytes]
  · simp [TimeStamp, Fields.AllTypes, ScalarType.InJSON]

theorem there_and_back_timeStamp :
    let F := FromJSONVisitor.noFloats
    let m := TimeStamp.of 1234 (-5)
    let e := envelopeFor 12 (ToProtoVisitor.encodedData TimeStamp m) 7 (TimeStamp.of 1 2)
    ∃ mm : MetaMessage, ∃ frame, exampleConverter.getProtoEncodedEnvelopeFromJSON F 100
        (ToJSONVisitor.encoded F TimeStamp m) 12 7 (TimeStamp.of 1 2) = some frame ∧
      ∀ uninit, (extractEnvelope uninit (ofBytes frame)).1 = (true, e) ∧
        (∀ msg, FromProtoVisitor.decodeTwoStage uninit TimeStamp .init
          (Envelope.serializedData e) msg = m) ∧
        exampleConverter.getJSONFromProtoEncodedEnvelope F 100 uninit frame =
          some (envelopeText F e mm.messageName TimeStamp m) := by
  intro F m e
  obtain ⟨mm, knows⟩ := knows_timeStamp
  have small : (ToProtoVisitor.encodedData TimeStamp m).length ≤ 100 := by
    rw [ToProtoVisitor.encodedData_eq]
    exact (length_timeStamp_le m).trans (by norm_num)
  have fits : FitsFrame e := fitsFrame_of_length (small.trans_lt (by norm_num))
  exact ⟨mm, there_and_back knows F inJSON_timeStamp
    (by simp [m, TimeStamp, Fields.JSONReadable, ScalarType.JSONReadable]) (by decide) 7
    (TimeStamp.of 1 2) fits small⟩

/-- An identifier that the specification does not have gives no frame, whatever the text. -/
theorem getProtoEncodedEnvelopeFromJSON_of_unknown (F : FloatFormat) {c : EnvelopeConverter}
    {messageIdentifier : BitVec 32} (unknown : c.scopeOfMetaMessages.find messageIdentifier = none)
    (rounds : Nat) (json : Bytes) (senderStamp : BitVec 32) (sampleTimeStamp : TimeStamp.Values) :
    c.getProtoEncodedEnvelopeFromJSON F rounds json messageIdentifier senderStamp
      sampleTimeStamp = some [] := by
  rw [getProtoEncodedEnvelopeFromJSON, unknown]

end EnvelopeConverter

end Cluon
