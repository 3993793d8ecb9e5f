import Cluon.Message.DataStructures
import Cluon.MsgPack.Reading

/-!
# The MsgPack round trip

The decoder reads the entries that the encoder wrote for the fields of a message one after
the other (`readPairs_entries`), and a nested message as a map of its own. If all names and
strings are readable and no message has fifteen fields (`Fields.MsgPackReadable`), the map
it collects holds exactly the values of the message, so that a message that accepts the
decoder becomes equal to the encoded one (`decode_msgPack`). Otherwise the message may be
lost (`decode_msgPack_ne`).
-/

set_option autoImplicit false

namespace Cluon

open Library InputStream

namespace Fields

/-- A message that the decoder reads back from the bytes of the encoder: names, strings, and
nested messages are shorter than 2^32 bytes, no name and no string has 31 bytes, and no nested
message has fifteen fields. -/
def MsgPackReadable : (fs : Fields) → fs.Values → Prop
  | .nil, _ => True
  | .scalar field t rest, m =>
      ReadableString field.name ∧ t.MsgPackReadable m.1 ∧ rest.MsgPackReadable m.2
  | .nested field _ inner rest, m =>
      ReadableString field.name ∧
        (inner.length < 2 ^ 32 ∧ inner.length ≠ 15 ∧ (inner.msgPackBytes m.1).length < 2 ^ 32 ∧
          inner.MsgPackReadable m.1) ∧
        rest.MsgPackReadable m.2

/-- What the decoder stores for the fields of a message. -/
def msgPackKeyValues (fs : Fields) (m : fs.Values) : List (Bytes × MsgPackAny) :=
  fs.entries MsgPackAny.ofValue .keyValues m

/-- The bytes of a nested message that is not too long are written completely. -/
theorem msgPackEntries_nested {field : FieldInfo} {info : MessageInfo} {inner rest : Fields}
    (m : (nested field info inner rest).Values)
    (short : (inner.msgPackBytes m.1).length < 2 ^ 32) :
    (nested field info inner rest).msgPackEntries m =
      ToMsgPackVisitor.encodeString field.name ++ inner.msgPackBytes m.1 ++
        rest.msgPackEntries m.2 := by
  have size : (BitVec.ofNat 32 (inner.msgPackBytes m.1).length).toNat =
      (inner.msgPackBytes m.1).length := by
    rw [BitVec.toNat_ofNat, Nat.mod_eq_of_lt short]
  rw [msgPackEntries]
  simp only [msgPackBytes] at size ⊢
  rw [size, List.take_length]

/-- Every nested message takes at least a byte. -/
theorem depth_le (fs : Fields) :
    ∀ m : fs.Values, fs.MsgPackReadable m → fs.depth ≤ (fs.msgPackEntries m).length := by
  induction fs with
  | nil => intro _ _; exact Nat.zero_le _
  | scalar field t rest ih =>
      intro m readable
      have others := ih m.2 readable.2.2
      rw [msgPackEntries, List.length_append]
      exact others.trans (Nat.le_add_left _ _)
  | nested field info inner rest ihInner ih =>
      rintro m ⟨_, ⟨small, not15, short, readableInner⟩, readable⟩
      have within := ihInner m.1 readableInner
      have others := ih m.2 readable
      obtain ⟨c, hs, header, _, _⟩ := readTokensToRead_mapHeader small not15
      rw [msgPackEntries_nested m short, depth, msgPackBytes, header]
      simp only [List.length_append, List.length_cons]
      omega

end Fields

/-! ## Reading the entries -/

section Read

variable (uninit : Nat → Byte)

/-- The map of a message is read if its entries are. -/
theorem readKeyValues_msgPackBytes {fs : Fields} (small : fs.length < 2 ^ 32)
    (not15 : fs.length ≠ 15) {m : fs.Values} {depth : Nat} {keyValues : KeyValueMap Bytes MsgPackAny}
    (entries : ∀ {is : InputStream} {t : Bytes}, is.good → is.rest = fs.msgPackEntries m ++ t →
      readPairs uninit (readKeyValues uninit depth) fs.length [] is =
        some (keyValues, is.advance (fs.msgPackEntries m).length))
    {is : InputStream} {t : Bytes} (hg : is.good) (hr : is.rest = fs.msgPackBytes m ++ t) :
    readKeyValues uninit (depth + 1) is =
      some (keyValues, is.advance (fs.msgPackBytes m).length) := by
  obtain ⟨c, hs, header, family, count⟩ := readTokensToRead_mapHeader small not15
  rw [Fields.msgPackBytes, header] at hr ⊢
  rw [List.append_assoc, List.cons_append] at hr
  have behind := rest_advance_one hr
  have content := rest_advance_append behind
  have pairs := entries (good_advance_of (good_advance_of hg 1) hs.length) content
  rw [readKeyValues, findMap_cons family hg hr]
  simp only [count.complete (good_advance_of hg 1) behind, pairs]
  rw [advance_advance, advance_advance, List.length_append, List.length_cons, Nat.add_comm 1,
    Nat.add_assoc, Nat.add_assoc, Nat.add_comm 1]

/-- A nested message is read as a map. -/
theorem readValue_msgPackBytes {fs : Fields} (small : fs.length < 2 ^ 32)
    (not15 : fs.length ≠ 15) {m : fs.Values} {depth : Nat} {keyValues : KeyValueMap Bytes MsgPackAny}
    (entries : ∀ {is : InputStream} {t : Bytes}, is.good → is.rest = fs.msgPackEntries m ++ t →
      readPairs uninit (readKeyValues uninit depth) fs.length [] is =
        some (keyValues, is.advance (fs.msgPackEntries m).length))
    {is : InputStream} {t : Bytes} (hg : is.good) (hr : is.rest = fs.msgPackBytes m ++ t) :
    readValue uninit (readKeyValues uninit (depth + 1)) is =
      some (.keyValues keyValues, is.advance (fs.msgPackBytes m).length) := by
  obtain ⟨c, hs, header, family, _⟩ := readTokensToRead_mapHeader small not15
  have first := hr
  rw [Fields.msgPackBytes, header, List.append_assoc, List.cons_append] at first
  rw [readValue_cons uninit _ hg first, family,
    readKeyValues_msgPackBytes uninit small not15 entries hg hr]
  rfl

/-- The entry of a field is read, and then the ones behind it. -/
theorem readPairs_entry (readKeyValues : InputStream → Option (KeyValueMap Bytes MsgPackAny ×
      InputStream)) {name value t : Bytes} {any : MsgPackAny} (readable : ReadableString name)
    (valueRead : ∀ {is : InputStream}, is.good → is.rest = value ++ t →
      readValue uninit readKeyValues is = some (any, is.advance value.length))
    (others : Nat) (before : KeyValueMap Bytes MsgPackAny) {is : InputStream} (hg : is.good)
    (hr : is.rest = (ToMsgPackVisitor.encodeString name ++ value) ++ t) :
    readPairs uninit readKeyValues (others + 1) before is =
      readPairs uninit readKeyValues others (before.assign name any)
        (is.advance (ToMsgPackVisitor.encodeString name ++ value).length) := by
  rw [List.append_assoc] at hr
  have keyRead := readString_encodeString uninit readable hg hr
  have atValue := rest_advance_append hr
  rw [readPairs, keyRead]
  simp only [valueRead (good_advance_of hg _) atValue]
  rw [advance_advance, List.length_append]

/-- **The entries of a message are read back**, and their bytes are consumed. -/
theorem readPairs_entries (fs : Fields) :
    ∀ {m : fs.Values}, fs.MsgPackReadable m → ∀ {depth : Nat}, fs.depth ≤ depth →
      ∀ (before : KeyValueMap Bytes MsgPackAny) {is : InputStream} {t : Bytes}, is.good →
        is.rest = fs.msgPackEntries m ++ t →
        readPairs uninit (readKeyValues uninit depth) fs.length before is =
          some (before.assignAll (fs.msgPackKeyValues m),
            is.advance (fs.msgPackEntries m).length) := by
  induction fs with
  | nil => intro _ _ _ _ _ _ _ _ _; rfl
  | scalar field t rest ih =>
      rintro m ⟨name, value, readable⟩ depth deep before is after hg hr
      rw [Fields.msgPackEntries, List.append_assoc] at hr
      have first := readPairs_entry uninit (readKeyValues uninit depth) name
        (readValue_encode uninit (readKeyValues uninit depth) t m.1 value) rest.length before hg hr
      have others := ih readable deep (before.assign field.name (.ofValue t m.1))
        (good_advance_of hg _) (rest_advance_append hr)
      rw [Fields.length, first, others, advance_advance, Fields.msgPackEntries,
        ← List.length_append]
      rfl
  | nested field info inner rest ihInner ih =>
      rintro m ⟨name, ⟨small, not15, short, readableInner⟩, readable⟩ depth deep before is after hg
        hr
      obtain ⟨deepInner, deep⟩ := max_le_iff.mp deep
      obtain ⟨depth, rfl⟩ : ∃ d, depth = d + 1 := ⟨depth - 1, by omega⟩
      rw [Fields.msgPackEntries_nested m short, List.append_assoc] at hr
      have first := readPairs_entry uninit (readKeyValues uninit (depth + 1)) name
        (readValue_msgPackBytes uninit small not15
          (ihInner readableInner (Nat.le_of_succ_le_succ deepInner) [])) rest.length before hg hr
      have others := ih readable deep (before.assign field.name
          (.keyValues (KeyValueMap.assignAll [] (inner.msgPackKeyValues m.1))))
        (good_advance_of hg _) (rest_advance_append hr)
      rw [Fields.length, first, others, advance_advance, Fields.msgPackEntries_nested m short,
        ← List.length_append]
      rfl

end Read

/-! ## Accepting the decoder -/

namespace FromMsgPackVisitor

variable (uninit : Nat → Byte)

/-- What a decoder of a message does once the key/values have been read. -/
theorem decode_eq {T : MessageType} {d : FromMsgPackVisitor} (running : d.terminated = false)
    {bytes : Bytes} {keyValues : KeyValueMap Bytes MsgPackAny} {is : InputStream}
    (read : readKeyValues uninit ((ofBytes bytes).rest.length + 1) (ofBytes bytes) =
      some (keyValues, is)) (v : T.Values) :
    decode uninit T d bytes v = some ((T.fields.visitable visitor).accept v ⟨keyValues, false⟩) := by
  obtain ⟨before, terminated⟩ := d
  obtain rfl : terminated = false := running
  rw [decode, decodeFrom, read]
  rfl

/-- Decoding the bytes of a readable message gives it to every target. -/
theorem decode_readable {T : MessageType} (distinct : T.fields.DistinctNames)
    (small : T.fields.length < 2 ^ 32) (not15 : T.fields.length ≠ 15) {m : T.Values}
    (readable : T.fields.MsgPackReadable m) {d : FromMsgPackVisitor}
    (running : d.terminated = false) (v : T.Values) :
    ∃ d', decode uninit T d (ToMsgPackVisitor.encoded T m) v = some (m, d') ∧
      d'.terminated = false := by
  set bytes := ToMsgPackVisitor.encoded T m with written
  rw [ToMsgPackVisitor.encoded_eq] at written
  have start : (ofBytes bytes).rest = T.fields.msgPackBytes m ++ [] := by
    rw [written, List.append_nil]
    rfl
  have deep : T.fields.depth ≤ (ofBytes bytes).rest.length := by
    rw [start, List.append_nil, Fields.msgPackBytes, List.length_append]
    exact (T.fields.depth_le m readable).trans (Nat.le_add_left _ _)
  have read := readKeyValues_msgPackBytes uninit small not15
    (readPairs_entries uninit T.fields readable deep []) rfl start
  have held : T.fields.Held MsgPackAny.kind m
      (KeyValueMap.assignAll [] (T.fields.msgPackKeyValues m)) :=
    Fields.held_assignAll (fun _ => rfl) distinct
      (.of_forall MsgPackAny.castTo_ofValue T.fields m)
  rw [decode_eq uninit running read, visitor, KeyValueVisitor.accept_of_held T.fields held]
  exact ⟨_, rfl, rfl⟩

end FromMsgPackVisitor

end Cluon
