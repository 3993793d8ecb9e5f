import Cluon.Proto.FromProtoVisitor

/-!
# Reading records

A complete record is a key and a complete payload of the key's wire type
(`IsRecord`). Reading consumes exactly one complete record and leaves its payload in
the member of its wire type (`readRecord_append`). At the end of the stream the read
key has the wire type number 7, for which the decoder has no case, so nothing follows
from it (`readRecord_nil`). Every round of a decoding loop shortens the stream or spoils
it (`readRecord_shortens`), so the loops end.
-/

set_option autoImplicit false

namespace Cluon

open Library InputStream

/-! ## Reading bytes -/

theorem consumes_readBytesFromStreamBody : Consumes readBytesFromStreamBody := by
  rintro ⟨buffer, n⟩ is hg again h
  simp only [readBytesFromStreamBody, decide_eq_true_eq] at again h ⊢
  have positive : 0 < n := by omega
  generalize hc : (if n > 1024 then 1024 else n) = chunkSize at again h ⊢
  have chunkPositive : 0 < chunkSize := by
    rw [← hc]
    split <;> omega
  by_cases hn : chunkSize ≤ is.rest.length
  · rw [read_of_le hg hn]
    simp only [rest_advance, List.length_drop]
    omega
  · rw [read_short hg (by omega)] at h
    simp at h

theorem whileGood_readBytesFromStreamBody : ∀ (n : Nat) (a t buffer : Bytes) (is : InputStream),
    a.length = n → 0 < n → is.good → is.rest = a ++ t →
      whileGood readBytesFromStreamBody (buffer, n) is = ((buffer ++ a, 0), is.advance n) := by
  intro n
  induction n using Nat.strongRecOn with
  | ind n ih =>
      intro a t buffer is ha hn hg hr
      by_cases large : n > 1024
      · have split : a = a.take 1024 ++ a.drop 1024 := (List.take_append_drop 1024 a).symm
        have chunk : (a.take 1024).length = 1024 := by
          rw [List.length_take]
          omega
        have tail : (a.drop 1024).length = n - 1024 := by
          rw [List.length_drop]
          omega
        have first : is.read 1024 = (a.take 1024, is.advance 1024) := by
          have := read_append (a := a.take 1024) (t := a.drop 1024 ++ t) hg
            (by rw [hr, ← List.append_assoc, ← split])
          rwa [chunk] at this
        have round : readBytesFromStreamBody (buffer, n) is =
            (true, (buffer ++ a.take 1024, n - 1024), is.advance 1024) := by
          simp only [readBytesFromStreamBody, if_pos large, first, chunk]
          rw [decide_eq_true (by omega : 0 < n - 1024)]
        have rest' : (is.advance 1024).rest = a.drop 1024 ++ t := by
          rw [rest_advance, hr, List.drop_append_of_le_length (by omega)]
        rw [whileGood_again consumes_readBytesFromStreamBody hg round,
          ih (n - 1024) (by omega) (a.drop 1024) t _ _ tail (by omega) (by simpa using hg) rest',
          List.append_assoc, ← split, advance_advance, Nat.add_sub_cancel' (by omega)]
      · have all : is.read n = (a, is.advance n) := by
          rw [← ha]
          exact read_append hg hr
        have round : readBytesFromStreamBody (buffer, n) is =
            (false, (buffer ++ a, 0), is.advance n) := by
          simp [readBytesFromStreamBody, if_neg large, all, ha]
        rw [whileGood_break consumes_readBytesFromStreamBody hg round]

/-- **Reading available bytes**, in chunks, reads exactly them. -/
theorem readBytesFromStream_append {is : InputStream} {a t : Bytes} (hg : is.good)
    (hr : is.rest = a ++ t) :
    readBytesFromStream is a.length = (a, is.advance a.length) := by
  by_cases h : 0 < a.length
  · simp only [readBytesFromStream, if_pos h,
      whileGood_readBytesFromStreamBody a.length a t [] is rfl h hg hr, List.nil_append]
  · have empty : a = [] := List.eq_nil_of_length_eq_zero (by omega)
    subst empty
    rfl

theorem notLonger_readBytesFromStream (is : InputStream) (n : Nat) :
    NotLonger is (readBytesFromStream is n).2 := by
  simp only [readBytesFromStream]
  split
  · exact whileGood_invariant (fun _ js => NotLonger is js)
      (fun _ js _ before => before.trans (notLonger_read js _)) (NotLonger.refl is)
  · exact NotLonger.refl is

/-! ## Reading a record -/

/-- A varint as Protobuf defines it has at most ten bytes. -/
structure IsProtoVarInt (bs : Bytes) : Prop where
  groups : IsVarInt bs
  length_le : bs.length ≤ 10

theorem isProtoVarInt_toVarInt (v : BitVec 64) : IsProtoVarInt (toVarInt v) :=
  ⟨isVarInt_toVarInt v, length_toVarInt v⟩

/-- The bytes of a key with the given field identifier and wire type. -/
structure IsKey (bs : Bytes) (fieldId : BitVec 32) (protoType : ProtoConstants) : Prop where
  varInt : IsProtoVarInt bs
  protoType_eq : ProtoConstants.ofCode (keyProtoType (varIntValue bs)) = some protoType
  fieldId_eq : keyFieldId (varIntValue bs) = fieldId

/-- The bytes of a complete record with the given field identifier and payload. -/
inductive IsRecord : Bytes → BitVec 32 → ProtoAny → Prop where
  | varint {key v : Bytes} {fieldId : BitVec 32} :
      IsKey key fieldId .varint → IsProtoVarInt v →
        IsRecord (key ++ v) fieldId (.uint64 (varIntValue v))
  | eightBytes {key bytes : Bytes} {fieldId : BitVec 32} :
      IsKey key fieldId .eightBytes → bytes.length = 8 →
        IsRecord (key ++ bytes) fieldId (.double (BitVec.ofNat 64 (ofLeBytes bytes)))
  | fourBytes {key bytes : Bytes} {fieldId : BitVec 32} :
      IsKey key fieldId .fourBytes → bytes.length = 4 →
        IsRecord (key ++ bytes) fieldId (.float (BitVec.ofNat 32 (ofLeBytes bytes)))
  | lengthDelimited {key n s : Bytes} {fieldId : BitVec 32} :
      IsKey key fieldId .lengthDelimited → IsProtoVarInt n →
        (varIntValue n).toNat = s.length →
        IsRecord (key ++ (n ++ s)) fieldId (.string s)

namespace FromProtoVisitor

/-- What a decoder is like after it read the record with the given payload. -/
structure HasRead (uninit : Nat → Byte) (payload : ProtoAny) (d d' : FromProtoVisitor) :
    Prop where
  member_eq : d'.member uninit payload.protoType = payload
  flag_eq : d'.callToDecodeFromWithDirectVisit = d.callToDecodeFromWithDirectVisit
  map_eq : d'.mapOfKeyValues = d.mapOfKeyValues

theorem readRecord_key {key t : Bytes} {fieldId : BitVec 32} {protoType : ProtoConstants}
    (h : IsKey key fieldId protoType) {is : InputStream} (hg : is.good)
    (hr : is.rest = key ++ t) :
    fromVarInt is = (varIntValue key, key.length, is.advance key.length) ∧ 0 < key.length :=
  ⟨fromVarInt_append h.varInt.groups hg hr, h.varInt.groups.length_pos⟩

/-- **Reading a complete record** consumes exactly it and keeps its payload. -/
theorem readRecord_append (uninit : Nat → Byte) {bs t : Bytes} {fieldId : BitVec 32}
    {payload : ProtoAny} (h : IsRecord bs fieldId payload) (d : FromProtoVisitor)
    {is : InputStream} (hg : is.good) (hr : is.rest = bs ++ t) :
    ∃ d', d.readRecord is = (some (payload.protoType, fieldId), d', is.advance bs.length) ∧
      HasRead uninit payload d d' := by
  cases h with
  | @varint key v _ hk hv =>
      rw [List.append_assoc] at hr
      obtain ⟨readKey, positive⟩ := readRecord_key hk hg hr
      have readValue := fromVarInt_append hv.groups (good_advance_of hg _) (rest_advance_append hr)
      refine ⟨{ d with value := varIntValue v }, ?_, rfl, rfl, rfl⟩
      simp [readRecord, readKey, positive, hk.protoType_eq, hk.fieldId_eq, readValue,
        ProtoAny.protoType]
  | @eightBytes key bytes _ hk hlen =>
      rw [List.append_assoc] at hr
      obtain ⟨readKey, positive⟩ := readRecord_key hk hg hr
      have readValue := readBytesFromStream_append (good_advance_of hg _)
        (rest_advance_append hr)
      rw [hlen] at readValue
      refine ⟨{ d with doubleValue := overwriteBuffer 8 d.doubleValue bytes }, ?_, ?_, rfl, rfl⟩
      · simp [readRecord, readKey, positive, hk.protoType_eq, hk.fieldId_eq, readValue, hlen,
          ProtoAny.protoType]
      · simp only [ProtoAny.protoType, member, overwriteBuffer_of_length _ hlen]
  | @fourBytes key bytes _ hk hlen =>
      rw [List.append_assoc] at hr
      obtain ⟨readKey, positive⟩ := readRecord_key hk hg hr
      have readValue := readBytesFromStream_append (good_advance_of hg _)
        (rest_advance_append hr)
      rw [hlen] at readValue
      refine ⟨{ d with floatValue := overwriteBuffer 4 d.floatValue bytes }, ?_, ?_, rfl, rfl⟩
      · simp [readRecord, readKey, positive, hk.protoType_eq, hk.fieldId_eq, readValue, hlen,
          ProtoAny.protoType]
      · simp only [ProtoAny.protoType, member, overwriteBuffer_of_length _ hlen]
  | @lengthDelimited key n s _ hk hn hlen =>
      rw [List.append_assoc, List.append_assoc] at hr
      obtain ⟨readKey, positive⟩ := readRecord_key hk hg hr
      have rest₁ := rest_advance_append hr
      have readLength := fromVarInt_append hn.groups (good_advance_of hg _) rest₁
      have readBytes := readBytesFromStream_append
        (good_advance_of (good_advance_of hg _) n.length) (rest_advance_append rest₁)
      rw [advance_advance, advance_advance] at readBytes
      let buffer := (d.stringValue.reserve (varIntValue n).toNat).write s
      refine ⟨{ d with value := varIntValue n, stringValue := buffer }, ?_, ?_, rfl, rfl⟩
      · simp [readRecord, readKey, positive, hk.protoType_eq, hk.fieldId_eq, readLength,
          readBytes, ProtoAny.protoType, buffer, hlen]
        rw [Nat.add_assoc]
      · have enough : (varIntValue n).toNat ≤ buffer.written.length := by
          simp [buffer, StringBuffer.write, hlen]
        simp only [ProtoAny.protoType, member, StringBuffer.str_of_le uninit enough]
        simp [buffer, StringBuffer.write, hlen]

/-- **At the end of the stream** the loop reads a key without a case, and the stream is
spoiled. -/
theorem readRecord_nil (d : FromProtoVisitor) {is : InputStream} (hg : is.good)
    (hr : is.rest = []) : d.readRecord is = (none, d, is.exhausted) := by
  have noCase : ProtoConstants.ofCode (keyProtoType 0x7f#64) = none := by decide
  simp [readRecord, fromVarInt_nil hg hr, noCase]

/-- Reading a record from a good stream shortens it or spoils it. -/
theorem readRecord_shortens (d : FromProtoVisitor) {is : InputStream} (hg : is.good)
    (h : (d.readRecord is).2.2.good) :
    (d.readRecord is).2.2.rest.length < is.rest.length := by
  have first : NotLonger (fromVarInt is).2.2 (d.readRecord is).2.2 := by
    rcases hk : fromVarInt is with ⟨key, size, is₁⟩
    simp only [readRecord, hk]
    by_cases positive : 0 < size
    · rw [if_pos positive]
      cases ProtoConstants.ofCode (keyProtoType key) with
      | none => exact NotLonger.refl is₁
      | some protoType =>
          cases protoType with
          | varint => exact notLonger_fromVarInt is₁
          | eightBytes => exact notLonger_readBytesFromStream is₁ 8
          | fourBytes => exact notLonger_readBytesFromStream is₁ 4
          | lengthDelimited =>
              exact (notLonger_fromVarInt is₁).trans (notLonger_readBytesFromStream _ _)
    · rw [if_neg positive]
      exact NotLonger.refl is₁
  obtain ⟨goodKey, le⟩ := first h
  exact le.trans_lt (fromVarInt_shortens hg goodKey)

theorem consumes_decodeFromBody (uninit : Nat → Byte) :
    Consumes (decodeFromBody uninit) := by
  intro d is hg _ h
  have shortens := readRecord_shortens d hg
  simp only [decodeFromBody] at h ⊢
  rcases hr : d.readRecord is with ⟨_ | ⟨protoType, fieldId⟩, d', is'⟩ <;>
    simp only [hr] at h shortens ⊢ <;> exact shortens h

theorem consumes_decodeFromIntoBody {α : Type} (obj : Visitable FromProtoVisitor α) :
    Consumes (decodeFromIntoBody obj) := by
  rintro ⟨v, d⟩ is hg _ h
  have shortens := readRecord_shortens d hg
  simp only [decodeFromIntoBody] at h ⊢
  rcases hr : d.readRecord is with ⟨_ | ⟨protoType, fieldId⟩, d', is'⟩ <;>
    simp only [hr] at h shortens ⊢ <;> exact shortens h

end FromProtoVisitor

end Cluon
