import Cluon.Proto.ToProtoVisitor
import Cluon.Specification.MessageParser

/-!
# The keys of fields

A key carries a wire type in its lowest three bits and a field identifier above them. The
encoder shifts the identifier in 32 bits before it widens the key, so the upper three bits of
an identifier are lost, while the decoder takes the key apart in 64 bits. What is read back is
therefore the wire type, always, and the identifier modulo 2^29
(`toNat_keyFieldId_encodeKey`). A specification may have greater identifiers: a key identifies
its field exactly if the identifier is below 2^29, and two identifiers share their keys exactly
if they are equal modulo 2^29 (`keys_iff`).
-/

set_option autoImplicit false

namespace Cluon

open Library InputStream

/-- The key written for a field is read back, whatever follows it in the stream, and gives the
wire type and the identifier of the field. -/
def KeyIdentifies (fieldIdentifier : BitVec 32) (protoType : ProtoConstants) : Prop :=
  ∀ (is : InputStream) (t : Bytes), is.good →
    is.rest = toVarInt (encodeKey fieldIdentifier protoType) ++ t →
    keyProtoType (fromVarInt is).1 = protoType.code ∧
      keyFieldId (fromVarInt is).1 = fieldIdentifier

/-- What a decoder reads is the key that was written. -/
theorem fromVarInt_encodeKey (id : BitVec 32) (protoType : ProtoConstants) {is : InputStream}
    {t : Bytes} (hg : is.good) (hr : is.rest = toVarInt (encodeKey id protoType) ++ t) :
    (fromVarInt is).1 = encodeKey id protoType := by
  rw [fromVarInt_append (isVarInt_toVarInt _) hg hr, varIntValue_toVarInt]

theorem keyIdentifies_iff_lt (id : BitVec 32) (protoType : ProtoConstants) :
    KeyIdentifies id protoType ↔ id.toNat < 2 ^ 29 := by
  constructor
  · intro identifies
    obtain ⟨_, back⟩ := identifies (ofBytes (toVarInt (encodeKey id protoType))) [] rfl (by simp)
    rw [fromVarInt_encodeKey id protoType rfl (List.append_nil _).symm] at back
    have kept := toNat_keyFieldId_encodeKey id protoType
    rw [back] at kept
    omega
  · intro small is t hg hr
    rw [fromVarInt_encodeKey id protoType hg hr]
    exact ⟨keyProtoType_encodeKey id protoType, keyFieldId_encodeKey small protoType⟩

/-- Two keys are equal exactly if nothing that the encoder keeps tells them apart. -/
theorem encodeKey_eq_iff (id id' : BitVec 32) (t t' : ProtoConstants) :
    encodeKey id t = encodeKey id' t' ↔ t = t' ∧ id.toNat % 2 ^ 29 = id'.toNat % 2 ^ 29 := by
  constructor
  · intro same
    constructor
    · have code : t.code = t'.code := by
        rw [← keyProtoType_encodeKey id t, same, keyProtoType_encodeKey]
      have back := congrArg ProtoConstants.ofCode code
      rw [ProtoConstants.ofCode_code, ProtoConstants.ofCode_code] at back
      exact Option.some.inj back
    · rw [← toNat_keyFieldId_encodeKey id t, same, toNat_keyFieldId_encodeKey]
  · rintro ⟨rfl, same⟩
    apply BitVec.eq_of_toNat_eq
    rw [toNat_encodeKey_mod, toNat_encodeKey_mod, same]

/-- **Keys identify fields exactly below 2^29.** For every identifier and wire type, the key is
read back as both if and only if the identifier is below 2^29, and two different identifiers
have different keys if and only if their wire types differ or they differ modulo 2^29. -/
theorem keys_iff (id id' : BitVec 32) (t t' : ProtoConstants) :
    (KeyIdentifies id t ↔ id.toNat < 2 ^ 29) ∧
      (encodeKey id t ≠ encodeKey id' t' ↔ t ≠ t' ∨ id.toNat % 2 ^ 29 ≠ id'.toNat % 2 ^ 29) := by
  refine ⟨keyIdentifies_iff_lt id t, ?_⟩
  rw [Ne, encodeKey_eq_iff, not_and_or]

/-- The parser accepts the identifiers 1 and 2^29 + 1 in one message; the second one is not read
back, and both fields have the same key. -/
theorem not_keyIdentifies :
    ∃ mm f g, MessageParser.parse (asciiBytes
        "message A [id=1] \x7b uint8 x [id=1]; uint8 y [id=536870913]; \x7d") =
        some ([mm], .noMessageParserError) ∧
      mm.listOfMetaFields = [f, g] ∧ f.fieldIdentifier ≠ g.fieldIdentifier ∧
      ¬ KeyIdentifies g.fieldIdentifier .varint ∧
      encodeKey f.fieldIdentifier .varint = encodeKey g.fieldIdentifier .varint := by
  refine ⟨⟨[], asciiBytes "A", 1,
    [⟨.scalar .uint8, asciiBytes "uint8", asciiBytes "x", 1, []⟩,
      ⟨.scalar .uint8, asciiBytes "uint8", asciiBytes "y", 536870913, []⟩]⟩, _, _,
    by decide +kernel, rfl, by decide, ?_, ?_⟩
  · intro identifies
    obtain ⟨_, back⟩ := identifies
      (ofBytes (toVarInt (encodeKey 536870913 .varint))) [] rfl (by simp)
    rw [fromVarInt_encodeKey _ _ rfl (List.append_nil _).symm] at back
    exact absurd back (by decide)
  · decide

end Cluon
