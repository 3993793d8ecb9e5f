import Cluon.Proto.Records

/-!
# What the decoding loops read

The rounds of both decoding loops read a stream in the same way, whatever the decoder holds
(`readRecord_eq`). So a stream has a list of reads (`reads`), complete records and at most one
record at the end that is cut, and both ways to decode are folds over this list: the direct
injection lets the message accept the decoder after every read (`decodeDirect_eq_foldl`), and
the two-stage path puts every read into the map (`decodeFrom_eq_foldl`).
-/

set_option autoImplicit false

namespace Cluon

open Library InputStream

/-- What a round reads behind the key: a varint, the bytes of a number of fixed size, or a
length and the bytes behind it, of which there may be too few. -/
inductive Read where
  | varint (v : BitVec 64)
  | eightBytes (bytes : Bytes)
  | fourBytes (bytes : Bytes)
  | lengthDelimited (n : BitVec 64) (bytes : Bytes)
  deriving DecidableEq, Repr

namespace Read

/-- The wire type of the key. -/
def protoType : Read → ProtoConstants
  | .varint _ => .varint
  | .eightBytes _ => .eightBytes
  | .fourBytes _ => .fourBytes
  | .lengthDelimited _ _ => .lengthDelimited

/-- The length that a read declares. -/
def declared : Read → Nat
  | .lengthDelimited n _ => n.toNat
  | _ => 0

/-- The read of a complete payload. -/
def ofPayload : ProtoAny → Read
  | .uint64 v => .varint v
  | .double v => .eightBytes (leBytes 8 v.toNat)
  | .float v => .fourBytes (leBytes 4 v.toNat)
  | .string s => .lengthDelimited (BitVec.ofNat 64 s.length) s

end Read

namespace FromProtoVisitor

/-- The decoder with the members overwritten that a read is stored in. -/
def store (d : FromProtoVisitor) : Read → FromProtoVisitor
  | .varint v => { d with value := v }
  | .eightBytes bytes => { d with doubleValue := overwriteBuffer 8 d.doubleValue bytes }
  | .fourBytes bytes => { d with floatValue := overwriteBuffer 4 d.floatValue bytes }
  | .lengthDelimited n bytes =>
      { d with value := n, stringValue := (d.stringValue.reserve n.toNat).write bytes }

@[simp] theorem store_flag (d : FromProtoVisitor) (r : Read) :
    (d.store r).callToDecodeFromWithDirectVisit = d.callToDecodeFromWithDirectVisit := by
  cases r <;> rfl

/-! ## One round -/

/-- What is read behind a key of the given wire type. -/
def readPayload (protoType : ProtoConstants) (is : InputStream) : Read × InputStream :=
  match protoType with
  | .varint => let (v, _, is') := fromVarInt is; (.varint v, is')
  | .eightBytes => let (bytes, is') := readBytesFromStream is 8; (.eightBytes bytes, is')
  | .fourBytes => let (bytes, is') := readBytesFromStream is 4; (.fourBytes bytes, is')
  | .lengthDelimited =>
      let (n, _, is') := fromVarInt is
      let (bytes, is'') := readBytesFromStream is' n.toNat
      (.lengthDelimited n bytes, is'')

/-- The identifier and the payload that a round reads, unless it reads a key of a wire type
without a case. -/
def nextRead (is : InputStream) : Option (BitVec 32 × Read) × InputStream :=
  let (key, size, is₁) := fromVarInt is
  if 0 < size then
    match ProtoConstants.ofCode (keyProtoType key) with
    | some protoType =>
        (some (keyFieldId key, (readPayload protoType is₁).1), (readPayload protoType is₁).2)
    | none => (none, is₁)
  else (none, is₁)

/-- **What a round reads does not depend on the decoder.** -/
theorem readRecord_eq (d : FromProtoVisitor) (is : InputStream) :
    d.readRecord is =
      match nextRead is with
      | (some (fieldId, r), is') => (some (r.protoType, fieldId), d.store r, is')
      | (none, is') => (none, d, is') := by
  rcases hk : fromVarInt is with ⟨key, size, is₁⟩
  simp only [readRecord, nextRead, hk]
  by_cases some : 0 < size
  · rw [if_pos some, if_pos some]
    cases ProtoConstants.ofCode (keyProtoType key) with
    | none => rfl
    | some protoType => cases protoType <;> rfl
  · rw [if_neg some, if_neg some]

/-- A round shortens a good stream or spoils it. -/
theorem nextRead_shortens {is : InputStream} (hg : is.good) (h : (nextRead is).2.good) :
    (nextRead is).2.rest.length < is.rest.length := by
  have shortens := readRecord_shortens init hg
  rw [readRecord_eq] at shortens
  rcases next : nextRead is with ⟨_ | ⟨fieldId, r⟩, is'⟩
  · rw [next] at shortens h
    exact shortens h
  · rw [next] at shortens h
    exact shortens h

/-- The bytes that one round reads completely: those of a record, or a key of a wire type without
a case. Varints may have any number of bytes. -/
inductive IsItem : Bytes → Option (BitVec 32 × Read) → Prop where
  | varint {key v : Bytes} :
      IsVarInt key → ProtoConstants.ofCode (keyProtoType (varIntValue key)) = some .varint →
        IsVarInt v →
        IsItem (key ++ v) (some (keyFieldId (varIntValue key), .varint (varIntValue v)))
  | eightBytes {key bytes : Bytes} :
      IsVarInt key → ProtoConstants.ofCode (keyProtoType (varIntValue key)) = some .eightBytes →
        bytes.length = 8 →
        IsItem (key ++ bytes) (some (keyFieldId (varIntValue key), .eightBytes bytes))
  | fourBytes {key bytes : Bytes} :
      IsVarInt key → ProtoConstants.ofCode (keyProtoType (varIntValue key)) = some .fourBytes →
        bytes.length = 4 →
        IsItem (key ++ bytes) (some (keyFieldId (varIntValue key), .fourBytes bytes))
  | lengthDelimited {key n s : Bytes} :
      IsVarInt key →
        ProtoConstants.ofCode (keyProtoType (varIntValue key)) = some .lengthDelimited →
        IsVarInt n → s.length = (varIntValue n).toNat →
        IsItem (key ++ (n ++ s))
          (some (keyFieldId (varIntValue key), .lengthDelimited (varIntValue n) s))
  | unknown {key : Bytes} :
      IsVarInt key → ProtoConstants.ofCode (keyProtoType (varIntValue key)) = none →
        IsItem key none

/-- **Reading an item** consumes exactly its bytes. -/
theorem nextRead_of_item {bs t : Bytes} {r : Option (BitVec 32 × Read)} (h : IsItem bs r)
    {is : InputStream} (hg : is.good) (hr : is.rest = bs ++ t) :
    nextRead is = (r, is.advance bs.length) := by
  cases h with
  | @varint key v hk type hv =>
      rw [List.append_assoc] at hr
      have readKey := fromVarInt_append hk hg hr
      have readValue := fromVarInt_append hv (good_advance_of hg _) (rest_advance_append hr)
      simp [nextRead, readKey, hk.length_pos, type, readPayload, readValue]
  | @eightBytes key bytes hk type length | @fourBytes key bytes hk type length =>
      rw [List.append_assoc] at hr
      have readKey := fromVarInt_append hk hg hr
      have readValue := readBytesFromStream_append (good_advance_of hg _) (rest_advance_append hr)
      rw [length] at readValue
      simp [nextRead, readKey, hk.length_pos, type, readPayload, readValue, length]
  | @lengthDelimited key n s hk type hn length =>
      rw [List.append_assoc, List.append_assoc] at hr
      have readKey := fromVarInt_append hk hg hr
      have rest₁ := rest_advance_append hr
      have readLength := fromVarInt_append hn (good_advance_of hg _) rest₁
      have readBytes := readBytesFromStream_append
        (good_advance_of (good_advance_of hg _) n.length) (rest_advance_append rest₁)
      rw [length, advance_advance, advance_advance] at readBytes
      simp only [nextRead, readKey, if_pos hk.length_pos, type, readPayload, readLength,
        advance_advance, readBytes, List.length_append, length, Nat.add_assoc]
  | unknown hk noCase =>
      have readKey := fromVarInt_append hk hg hr
      simp [nextRead, readKey, hk.length_pos, noCase]

/-- A complete record is an item. -/
theorem isItem_of_record {bs : Bytes} {fieldId : BitVec 32} {payload : ProtoAny}
    (h : IsRecord bs fieldId payload) : IsItem bs (some (fieldId, .ofPayload payload)) := by
  cases h with
  | varint hk hv =>
      rw [← hk.fieldId_eq]
      exact .varint hk.varInt.groups hk.protoType_eq hv.groups
  | @eightBytes key bytes _ hk length =>
      have back := @leBytes_word 64 bytes (by rw [length]; rfl)
      rw [length] at back
      rw [← hk.fieldId_eq, Read.ofPayload, back]
      exact .eightBytes hk.varInt.groups hk.protoType_eq length
  | @fourBytes key bytes _ hk length =>
      have back := @leBytes_word 32 bytes (by rw [length]; rfl)
      rw [length] at back
      rw [← hk.fieldId_eq, Read.ofPayload, back]
      exact .fourBytes hk.varInt.groups hk.protoType_eq length
  | @lengthDelimited key n s _ hk hn length =>
      have word : varIntValue n = BitVec.ofNat 64 s.length := by
        rw [← length, BitVec.ofNat_toNat, BitVec.setWidth_eq]
      rw [← hk.fieldId_eq, Read.ofPayload, ← word]
      exact .lengthDelimited hk.varInt.groups hk.protoType_eq hn.groups length.symm

/-- Reading a complete record. -/
theorem nextRead_append {bs t : Bytes} {fieldId : BitVec 32} {payload : ProtoAny}
    (h : IsRecord bs fieldId payload) {is : InputStream} (hg : is.good)
    (hr : is.rest = bs ++ t) :
    nextRead is = (some (fieldId, .ofPayload payload), is.advance bs.length) :=
  nextRead_of_item (isItem_of_record h) hg hr

/-- At the end of the stream nothing is read. -/
theorem nextRead_nil {is : InputStream} (hg : is.good) (hr : is.rest = []) :
    nextRead is = (none, is.exhausted) := by
  have noCase : ProtoConstants.ofCode (keyProtoType 0x7f#64) = none := by decide
  simp [nextRead, fromVarInt_nil hg hr, noCase]

/-! ## All rounds -/

/-- One more round of reading. -/
def readsBody : Body (List (BitVec 32 × Read)) := fun before is =>
  (true, before ++ (nextRead is).1.toList, (nextRead is).2)

/-- What the rounds of a decoding loop read from a stream. -/
def reads (is : InputStream) : List (BitVec 32 × Read) := (whileGood readsBody [] is).1

theorem consumes_readsBody : Consumes readsBody := fun _ _ hg _ h => nextRead_shortens hg h

theorem reads_spoiled {is : InputStream} (h : is.good = false) : reads is = [] := by
  rw [reads, whileGood_spoiled _ _ h]

theorem whileGood_readsBody (before : List (BitVec 32 × Read)) (is : InputStream) :
    (whileGood readsBody before is).1 = before ++ reads is := by
  have step : ∀ (acc acc' : List (BitVec 32 × Read)) (js : InputStream), acc = before ++ acc' →
      (readsBody acc js).1 = (readsBody acc' js).1 ∧
        (readsBody acc js).2.1 = before ++ (readsBody acc' js).2.1 ∧
        (readsBody acc js).2.2 = (readsBody acc' js).2.2 := by
    rintro acc acc' js rfl
    exact ⟨rfl, List.append_assoc .., rfl⟩
  exact (whileGood_simulates _ step is (List.append_nil before).symm).1

/-- **The first round** reads in front of the others. -/
theorem reads_of_good {is : InputStream} (hg : is.good) :
    reads is = (nextRead is).1.toList ++ reads (nextRead is).2 := by
  have round : readsBody [] is = (true, (nextRead is).1.toList, (nextRead is).2) := rfl
  rw [reads, whileGood_again consumes_readsBody hg round, whileGood_readsBody]

/-- Nothing is read from an empty stream. -/
theorem reads_nil {is : InputStream} (hg : is.good) (hr : is.rest = []) : reads is = [] := by
  rw [reads_of_good hg, nextRead_nil hg hr, reads_spoiled (good_exhausted is)]
  rfl

/-- An item is read in front of the others. -/
theorem reads_of_item {bs t : Bytes} {r : Option (BitVec 32 × Read)} (h : IsItem bs r)
    {is : InputStream} (hg : is.good) (hr : is.rest = bs ++ t) :
    reads is = r.toList ++ reads (is.advance bs.length) := by
  rw [reads_of_good hg, nextRead_of_item h hg hr]

/-- A complete record is read in front of the others. -/
theorem reads_append {bs t : Bytes} {fieldId : BitVec 32} {payload : ProtoAny}
    (h : IsRecord bs fieldId payload) {is : InputStream} (hg : is.good)
    (hr : is.rest = bs ++ t) :
    reads is = (fieldId, .ofPayload payload) :: reads (is.advance bs.length) :=
  reads_of_item (isItem_of_record h) hg hr

/-! ## Decoding as a fold -/

section Direct

variable {α : Type} (obj : Visitable FromProtoVisitor α)

/-- A read is stored, and the message accepts the decoder for its field. -/
def injectRead (s : α × FromProtoVisitor) (r : BitVec 32 × Read) : α × FromProtoVisitor :=
  obj.acceptField r.1 s.1 (s.2.store r.2)

/-- **The loop of the direct injection** injects one read after the other. -/
theorem whileGood_decodeFromIntoBody_eq (s : α × FromProtoVisitor) (is : InputStream) :
    (whileGood (decodeFromIntoBody obj) s is).1 = (reads is).foldl (injectRead obj) s := by
  have step : ∀ (s' : α × FromProtoVisitor) (acc : List (BitVec 32 × Read)) (js : InputStream),
      s' = acc.foldl (injectRead obj) s →
      (decodeFromIntoBody obj s' js).1 = (readsBody acc js).1 ∧
        (decodeFromIntoBody obj s' js).2.1 = (readsBody acc js).2.1.foldl (injectRead obj) s ∧
        (decodeFromIntoBody obj s' js).2.2 = (readsBody acc js).2.2 := by
    rintro ⟨v, d⟩ acc js same
    simp only [decodeFromIntoBody, readRecord_eq, readsBody]
    rcases nextRead js with ⟨_ | ⟨fieldId, r⟩, js'⟩
    · exact ⟨rfl, by simpa using same, rfl⟩
    · refine ⟨rfl, ?_, rfl⟩
      rw [Option.toList_some, List.foldl_append, ← same]
      rfl
  have start : s = ([] : List (BitVec 32 × Read)).foldl (injectRead obj) s := rfl
  exact (whileGood_simulates _ step is start).1

end Direct

section Decode

variable (uninit : Nat → Byte)

/-- A decoder that a message accepts stays the same. -/
theorem acceptField_snd (fs : Fields) (fieldId : BitVec 32) (v : fs.Values)
    (d : FromProtoVisitor) :
    ((fs.visitable (visitor uninit)).acceptField fieldId v d).2 = d := by
  induction fs with
  | nil => rfl
  | scalar field t rest ih =>
      rw [Fields.acceptField_scalar]
      split
      · rfl
      · exact ih v.2
  | nested field info fields rest _ ih =>
      rw [Fields.acceptField_nested]
      split
      · rfl
      · exact ih v.2

/-- What a nested message becomes when a decoder of its own reads it from the given bytes. -/
def decodeNested (bytes : Bytes) (fields : Fields) (w : fields.Values) : fields.Values :=
  (decodeFromInto (fields.visitable (visitor uninit)) init (ofBytes bytes) w).1.1

/-- **Accepting a decoder for a field** changes the first field of the identifier, by the member
of its type. -/
theorem acceptField_eq_update (fs : Fields) (fieldId : BitVec 32) (v : fs.Values)
    {d : FromProtoVisitor} (flag : d.callToDecodeFromWithDirectVisit = true) :
    ((fs.visitable (visitor uninit)).acceptField fieldId v d).1 =
      fs.update fieldId (fun t w => (ProtoAny.castTo t (d.member uninit t.protoType)).getD w)
        (decodeNested uninit (d.stringValue.str uninit d.value.toNat)) v := by
  induction fs with
  | nil => rfl
  | scalar field t rest ih =>
      rw [Fields.acceptField_scalar, Fields.update]
      split
      · change (visit uninit field t v.1 d, v.2) = _
        rw [visit, if_pos flag]
      · exact congrArg (Prod.mk v.1) (ih v.2)
  | nested field info fields rest _ ih =>
      rw [Fields.acceptField_nested, Fields.update]
      split
      · change (visitMessage uninit field ((MessageType.mk info fields).visitable
          (visitor uninit)) v.1 d, v.2) = _
        rw [visitMessage, if_pos flag]
        rfl
      · exact congrArg (Prod.mk v.1) (ih v.2)

/-- What one more read does to a message and to its decoder. -/
theorem injectRead_eq {T : MessageType} (v : T.Values) {d : FromProtoVisitor}
    (flag : d.callToDecodeFromWithDirectVisit = true) (r : BitVec 32 × Read) :
    injectRead (T.visitable (visitor uninit)) (v, d) r =
      (T.fields.update r.1
        (fun t w => (ProtoAny.castTo t ((d.store r.2).member uninit t.protoType)).getD w)
        (decodeNested uninit ((d.store r.2).stringValue.str uninit (d.store r.2).value.toNat)) v,
        d.store r.2) :=
  Prod.ext (acceptField_eq_update uninit T.fields r.1 v ((store_flag d r.2).trans flag))
    (acceptField_snd uninit T.fields r.1 v _)

/-- The decoder stores one read after the other. -/
theorem foldl_injectRead_snd (T : MessageType) (rs : List (BitVec 32 × Read)) :
    ∀ s : T.Values × FromProtoVisitor,
      (rs.foldl (injectRead (T.visitable (visitor uninit))) s).2 =
        rs.foldl (fun d r => d.store r.2) s.2 := by
  induction rs with
  | nil => intro _; rfl
  | cons r rs ih =>
      intro s
      have stays : (injectRead (T.visitable (visitor uninit)) s r).2 = s.2.store r.2 :=
        acceptField_snd uninit T.fields r.1 s.1 _
      rw [List.foldl_cons, ih, stays, List.foldl_cons]

/-- A decoder at the beginning of a direct injection. -/
def directly (d : FromProtoVisitor) : FromProtoVisitor :=
  { d with callToDecodeFromWithDirectVisit := true }

theorem decodeDirect_eq_foldl (T : MessageType) (d : FromProtoVisitor) (bytes : Bytes)
    (v : T.Values) :
    decodeDirect uninit T d bytes v = ((reads (ofBytes bytes)).foldl
      (injectRead (T.visitable (visitor uninit))) (v, d.directly)).1 := by
  rw [← whileGood_decodeFromIntoBody_eq]
  rfl

theorem decodeNested_eq_foldl (s : Bytes) (fs : Fields) (w : fs.Values) :
    decodeNested uninit s fs w =
      ((reads (ofBytes s)).foldl (injectRead (fs.visitable (visitor uninit)))
        (w, init.directly)).1 := by
  rw [← whileGood_decodeFromIntoBody_eq]
  rfl

/-- A read is stored and put into the map, unless its identifier is there already. -/
def collectRead (d : FromProtoVisitor) (r : BitVec 32 × Read) : FromProtoVisitor :=
  { d.store r.2 with
    mapOfKeyValues := ((d.store r.2).mapOfKeyValues.emplace r.1
      ((d.store r.2).member uninit r.2.protoType)).1 }

/-- **The loop of the two-stage path** collects one read after the other. -/
theorem decodeFrom_eq_foldl (d : FromProtoVisitor) (is : InputStream) :
    (decodeFrom uninit d is).1 =
      (reads is).foldl (collectRead uninit) { d with mapOfKeyValues := [] } := by
  set start : FromProtoVisitor := { d with mapOfKeyValues := [] }
  have step : ∀ (d' : FromProtoVisitor) (acc : List (BitVec 32 × Read)) (js : InputStream),
      d' = acc.foldl (collectRead uninit) start →
      (decodeFromBody uninit d' js).1 = (readsBody acc js).1 ∧
        (decodeFromBody uninit d' js).2.1 = (readsBody acc js).2.1.foldl (collectRead uninit) start ∧
        (decodeFromBody uninit d' js).2.2 = (readsBody acc js).2.2 := by
    intro d' acc js same
    simp only [decodeFromBody, readRecord_eq, readsBody]
    rcases nextRead js with ⟨_ | ⟨fieldId, r⟩, js'⟩
    · exact ⟨rfl, by simpa using same, rfl⟩
    · refine ⟨rfl, ?_, rfl⟩
      rw [Option.toList_some, List.foldl_append, ← same]
      rfl
  have before : start = ([] : List (BitVec 32 × Read)).foldl (collectRead uninit) start := rfl
  exact (whileGood_simulates _ step is before).1

end Decode

end FromProtoVisitor

end Cluon
