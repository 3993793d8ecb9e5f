import Cluon.Converter.EnvelopeConverter
import Cluon.Generic.Unwritten
import Cluon.JSON.Lost

/-!
# Three routes to the text of an envelope

The text of an envelope does not depend on whether the converter gets the envelope, its bytes, or
its frame, as long as the memory has the same contents. It does depend on the contents of memory
that was never written if the payload ends within a string. So different calls agree if the
payload is settled for its message, all parts of which have names (`routesAgree_of_settled`); if it
ends within a string, they may not (`not_routesAgree`).
-/

set_option autoImplicit false

namespace Cluon

open Library InputStream

namespace EnvelopeConverter

variable (F : FloatFormat)

/-- What the three routes give for an envelope, with the same contents of memory. -/
structure Gives (memory : Nat) (uninit : Nat → Byte) (c : EnvelopeConverter) (e : Envelope.Values)
    (text : Bytes) : Prop where
  envelope : c.getJSONFromEnvelope F memory uninit e = some text
  bytes : c.getJSONFromProtoEncodedEnvelope F memory uninit
    (ToProtoVisitor.encodedData Envelope e) = some text
  frame : c.getJSONFromProtoEncodedEnvelope F memory uninit (serializeEnvelope e) = some text

/-- All calls give the same text, on each route, whatever they find in the memory. -/
def RoutesAgree (memory : Nat) (c : EnvelopeConverter) (e : Envelope.Values) : Prop :=
  ∃ text, ∀ uninit, Gives F memory uninit c e text

variable {F} {memory : Nat}

theorem gives_of_getJSONFromEnvelope {uninit : Nat → Byte} {c : EnvelopeConverter}
    {e : Envelope.Values} (fits : FitsFrame e) {text : Bytes}
    (h : c.getJSONFromEnvelope F memory uninit e = some text) :
    Gives F memory uninit c e text where
  envelope := h
  bytes := (getJSONFromProtoEncodedEnvelope_encodedData F memory uninit c fits).trans h
  frame := (getJSONFromProtoEncodedEnvelope_serializeEnvelope F memory uninit c fits).trans h

theorem exists_genericMessage {c : EnvelopeConverter}
    (nonRecursive : NonRecursive c.listOfMetaMessages) (uninit : Nat → Byte)
    {payload : MetaMessage} (named : GenericMessage.partsNamed c.listOfMetaMessages
      (c.listOfMetaMessages.length + 1) payload) {bytes : Bytes}
    (settled : Settled memory c.listOfMetaMessages payload bytes) :
    ∃ gm, c.genericMessage memory uninit payload bytes = some gm := by
  obtain ⟨gm, created⟩ := GenericMessage.exists_createFrom nonRecursive (Nat.lt_succ_self _) payload
  rw [genericMessage, created]
  exact ⟨_, if_pos ⟨named, GenericMessage.reserves_of_settled uninit _ settled⟩⟩

/-- The generic message does not depend on the memory if the payload is settled. -/
theorem genericMessage_eq_of_settled {c : EnvelopeConverter} {payload : MetaMessage}
    {bytes : Bytes} (settled : Settled memory c.listOfMetaMessages payload bytes)
    (u₁ u₂ : Nat → Byte) :
    c.genericMessage memory u₁ payload bytes = c.genericMessage memory u₂ payload bytes := by
  have reserves (uninit) := GenericMessage.reserves_of_settled uninit
    (c.listOfMetaMessages.length + 1) settled
  rw [genericMessage, genericMessage]
  rcases created : GenericMessage.createFrom c.listOfMetaMessages
    (c.listOfMetaMessages.length + 1) payload with _ | gm
  · simp only [Option.bind_eq_bind, Option.bind_none]
  · have shaped := GenericMessage.shaped_of_createFrom created
    have same := (GenericMessage.independent memory c.listOfMetaMessages
      (c.listOfMetaMessages.length + 1) payload gm shaped bytes settled u₁ u₂).1
    rw [GenericMessage.decoded, GenericMessage.decoded] at same
    simp only [Option.bind_eq_bind, Option.bind_some, same, reserves]

/-- An envelope has a text if no message type is recursive, its own has names, and the payload is
settled. -/
theorem exists_text {c : EnvelopeConverter} (nonRecursive : NonRecursive c.listOfMetaMessages)
    (uninit : Nat → Byte) {e : Envelope.Values}
    (settled : ∀ mm, c.scopeOfMetaMessages.find (Envelope.dataType e) = some mm →
      GenericMessage.partsNamed c.listOfMetaMessages (c.listOfMetaMessages.length + 1) mm ∧
        Settled memory c.listOfMetaMessages mm (Envelope.serializedData e)) :
    ∃ text, c.getJSONFromEnvelope F memory uninit e = some text := by
  rw [getJSONFromEnvelope]
  split
  · split
    · rename_i payload found
      obtain ⟨named, settled⟩ := settled payload found
      obtain ⟨gm, created⟩ := exists_genericMessage nonRecursive uninit named settled
      rw [created]
      exact ⟨_, rfl⟩
    · exact ⟨_, rfl⟩
  · exact ⟨_, rfl⟩

/-- The text depends on the memory by way of the payload only. -/
theorem text_eq_of_settled {c : EnvelopeConverter} {e : Envelope.Values}
    (settled : ∀ mm, c.scopeOfMetaMessages.find (Envelope.dataType e) = some mm →
      Settled memory c.listOfMetaMessages mm (Envelope.serializedData e)) (u₁ u₂ : Nat → Byte) :
    c.getJSONFromEnvelope F memory u₁ e = c.getJSONFromEnvelope F memory u₂ e := by
  rw [getJSONFromEnvelope, getJSONFromEnvelope]
  split
  · split
    · rename_i payload found
      rw [genericMessage_eq_of_settled (settled payload found) u₁ u₂]
    · rfl
  · rfl

/-- **The routes of an envelope agree.** For every envelope that fits into a frame, what becomes of
it is the same on all routes, for the same contents of memory. If no message types are recursive,
the one of the envelope has names, and the payload is settled for it, then there is one text for
all contents of memory. -/
theorem routesAgree_of_settled {c : EnvelopeConverter}
    (nonRecursive : NonRecursive c.listOfMetaMessages) {e : Envelope.Values} (fits : FitsFrame e) :
    (∀ uninit,
      c.getJSONFromProtoEncodedEnvelope F memory uninit (ToProtoVisitor.encodedData Envelope e) =
          c.getJSONFromEnvelope F memory uninit e ∧
        c.getJSONFromProtoEncodedEnvelope F memory uninit (serializeEnvelope e) =
          c.getJSONFromEnvelope F memory uninit e) ∧
    ((∀ mm, c.scopeOfMetaMessages.find (Envelope.dataType e) = some mm →
        GenericMessage.partsNamed c.listOfMetaMessages (c.listOfMetaMessages.length + 1) mm ∧
        Settled memory c.listOfMetaMessages mm (Envelope.serializedData e)) →
      RoutesAgree F memory c e) := by
  constructor
  · intro uninit
    exact ⟨getJSONFromProtoEncodedEnvelope_encodedData F memory uninit c fits,
      getJSONFromProtoEncodedEnvelope_serializeEnvelope F memory uninit c fits⟩
  · intro settled
    obtain ⟨text, h⟩ := exists_text (F := F) nonRecursive (fun _ => 0) settled
    have same (uninit) := text_eq_of_settled (F := F) (fun mm found => (settled mm found).2)
      uninit fun _ => 0
    exact ⟨text, fun uninit => gives_of_getJSONFromEnvelope fits ((same uninit).trans h)⟩

/-! ## A payload that ends within a string -/

/-- The message `A` with a single field `b`. -/
def messageA (t : ScalarType) (typeName : String) : MetaMessage :=
  ⟨[], asciiBytes "A", 1, [⟨.scalar t, asciiBytes typeName, asciiBytes "b", 1, []⟩]⟩

/-- An envelope with a payload of the first message. -/
def envelopeOf (payload : Bytes) : Envelope.Values :=
  (1, payload, TimeStamp.of 0 0, TimeStamp.of 0 0, TimeStamp.of 0 0, 0, ())

theorem nonRecursive_messageA (t : ScalarType) (typeName : String) :
    NonRecursive [messageA t typeName] := by
  intro mm cycle
  obtain ⟨_, -, _, _, _, found⟩ := Relation.TransGen.tail'_iff.mp cycle
  obtain rfl := List.mem_singleton.mp (mem_of_find_scope found)
  obtain ⟨_, ⟨f, member, type, -⟩, -⟩ := Relation.TransGen.head'_iff.mp cycle
  obtain rfl := List.mem_singleton.mp member
  cases type

/-- A payload with all bytes of its string is settled. -/
theorem routesAgree_of_settled_bytes :
    RoutesAgree FromJSONVisitor.noFloats 1
      ⟨[messageA .bytes "bytes"], [(1, messageA .bytes "bytes")]⟩
      (envelopeOf [0x0A, 0x01, 0x41]) := by
  refine (routesAgree_of_settled (nonRecursive_messageA _ _)
    (e := envelopeOf [0x0A, 0x01, 0x41]) (fitsFrame_of_length (by decide))).2 fun mm found => ?_
  obtain rfl : messageA .bytes "bytes" = mm := Option.some.inj found
  have whole : FromProtoVisitor.reads (ofBytes [0x0A, 0x01, 0x41]) =
      [(1, .lengthDelimited 1 [0x41])] := rfl
  have read : FromProtoVisitor.firstOf 1 .init
      (FromProtoVisitor.reads (ofBytes [0x0A, 0x01, 0x41])) =
        some (⟨false, [], 1, 0, 0, ⟨1, [0x41]⟩⟩, .lengthDelimited) := rfl
  have complete (d : FromProtoVisitor) (first : FromProtoVisitor.firstOf 1 .init
      (FromProtoVisitor.reads (ofBytes [0x0A, 0x01, 0x41])) = some (d, .lengthDelimited)) :
      d.Written := by
    obtain ⟨rfl, -⟩ := Prod.mk.inj (Option.some.inj (read.symm.trans first))
    exact Nat.le_refl 1
  refine ⟨by decide, ?_, ?_, ?_, ?_⟩
  · intro r member
    change r ∈ FromProtoVisitor.reads (ofBytes [0x0A, 0x01, 0x41]) at member
    rw [whole, List.mem_singleton] at member
    exact le_of_eq (congrArg (fun r => r.2.declared) member)
  · intro f member t _ _ d first
    obtain rfl := List.mem_singleton.mp member
    exact complete d first
  · intro f member type
    obtain rfl := List.mem_singleton.mp member
    cases type
  · intro f member type
    obtain rfl := List.mem_singleton.mp member
    cases type

/-- **A payload that ends within a string** gives its text contents of the memory. -/
theorem not_routesAgree :
    let c : EnvelopeConverter := ⟨[messageA .bytes "bytes"], [(1, messageA .bytes "bytes")]⟩
    let e := envelopeOf [0x0A, 0x04]
    setMessageSpecification ⟨[], []⟩ (asciiBytes "message A [id=1] \x7b bytes b [id=1]; \x7d") =
        some (1, c) ∧
      NonRecursive c.listOfMetaMessages ∧ FitsFrame e ∧
      ¬ RoutesAgree FromJSONVisitor.noFloats 4 c e := by
  refine ⟨by decide +kernel, nonRecursive_messageA _ _, fitsFrame_of_length (by decide), ?_⟩
  rintro ⟨text, gives⟩
  have same := (gives fun _ => 0).envelope.trans (gives fun _ => 1).envelope.symm
  revert same
  decide +kernel

end EnvelopeConverter

end Cluon
