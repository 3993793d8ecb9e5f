import Cluon.Proto.MetaMessageToProtoTransformator
import Cluon.Proto.ToProtoVisitor
import Mathlib.Data.List.Nodup

/-!
# The standard meaning of encoded messages

A reader that knows nothing of libcluon reads the bytes of a message with the schema that
`MetaMessageToProtoTransformator` emits for its specification. What it finds in a field is the
value of the field for all types but `char`: the schema calls these `sint32`, but `ToProtoVisitor`
does not write them in ZigZag encoding, and only the character `'\0'` is the same in both.

The schema has to be one at all, which two messages whose names differ in dots and underscores
spoil, and without a package a message may have the name of a Protobuf type. A reader finds the
value of every field exactly when none of these happens (`read_encodedData_iff`).
-/

set_option autoImplicit false

namespace Cluon

open Library Protobuf

/-! ## Specifications -/

/-- What the specification language demands of the messages of one specification. -/
structure IsSpecification (mms : List MetaMessage) : Prop where
  package : ∃ packageName, ∀ mm ∈ mms, mm.packageName = packageName
  names : ∀ mm ∈ mms, mm.messageName.head? ≠ some 0x2E
  identifiers : ∀ mm ∈ mms, ∀ f ∈ mm.listOfMetaFields, 0 < f.fieldIdentifier.toNat ∧
    f.fieldIdentifier.toNat < 2 ^ 29

/-- The message that a name stands for is one of the specification and has this name. -/
theorem find_mapForScope {mms : List MetaMessage} {name : Bytes} {mm : MetaMessage}
    (found : (mapForScopeOfMetaMessages mms).find name = some mm) :
    mm ∈ mms ∧ mm.messageName = name := by
  have holds : ∀ (mms : List MetaMessage) (scope : KeyValueMap Bytes MetaMessage),
      (mms.foldl (fun scope mm => scope.assign mm.messageName mm) scope).find name = some mm →
        mm ∈ mms ∧ mm.messageName = name ∨ scope.find name = some mm := by
    intro mms
    induction mms with
    | nil => intro scope h; exact .inr h
    | cons first rest ih =>
        intro scope h
        rcases ih _ h with ⟨member, same⟩ | before
        · exact .inl ⟨List.mem_cons_of_mem _ member, same⟩
        · rw [KeyValueMap.find_assign] at before
          by_cases here : first.messageName = name
          · rw [if_pos here] at before
            obtain rfl := Option.some.inj before
            exact .inl ⟨List.mem_cons_self, here⟩
          · rw [if_neg here] at before
            exact .inr before
  rcases holds mms [] found with h | h
  · exact h
  · cases h

namespace Fields

/-- A condition on the fields of a specification that stand for the nested messages of a message
type, at any depth. -/
def EachMessageField (scope : KeyValueMap Bytes MetaMessage) (P : MetaField → Prop) :
    Fields → List MetaField → Prop
  | .nil, _ => True
  | .scalar _ _ rest, fields => rest.EachMessageField scope P fields.tail
  | .nested _ _ inner rest, fields =>
      (∀ f ∈ fields.head?, P f ∧ ∀ mm ∈ scope.find f.fieldDataTypeName,
        inner.EachMessageField scope P mm.listOfMetaFields) ∧
      rest.EachMessageField scope P fields.tail

end Fields

/-! ## Numbers -/

/-- Reading the varint of a number. -/
theorem readVarint_toVarInt (v : BitVec 64) : ∀ (n : Nat), v.toNat < 2 ^ (7 * (n + 1)) →
    ∀ rest : Bytes, readVarint (n + 1) (toVarInt v ++ rest) = some (v.toNat, rest) := by
  induction v using toVarInt.induct with
  | case1 v big ih =>
      intro n hv rest
      have large : 0x7f < v.toNat := by simpa [BitVec.lt_def] using big
      have shifted : (v >>> 7).toNat = v.toNat / 128 := by
        simp [BitVec.toNat_ushiftRight, Nat.shiftRight_eq_div_pow]
      have byte : ((v &&& 0x7f#64).setWidth 8 ||| 0x80#8).toNat = 128 + v.toNat % 128 := by
        have ones : (0x7f : Nat) = 2 ^ 7 - 1 := rfl
        have low : ((v &&& 0x7f#64).setWidth 8).toNat = v.toNat % 128 := by
          rw [BitVec.toNat_setWidth, BitVec.toNat_and, BitVec.toNat_ofNat,
            Nat.mod_eq_of_lt (by norm_num : 0x7f < 2 ^ 64), ones, Nat.and_two_pow_sub_one_eq_mod]
          omega
        have top : (0x80#8).toNat = 2 ^ 7 * 1 := rfl
        rw [BitVec.toNat_or, low, top, Nat.or_comm,
          ← Nat.two_pow_add_eq_or_of_lt (Nat.mod_lt _ (by norm_num))]
      cases n with
      | zero => omega
      | succ n =>
          have pow : 2 ^ (7 * (n + 1 + 1)) = 2 ^ (7 * (n + 1)) * 128 := by
            rw [Nat.mul_succ 7 (n + 1), pow_add]
            rfl
          rw [toVarInt, if_pos big, List.cons_append, readVarint, byte, if_neg (by omega),
            ih n (by rw [shifted]; omega) rest, Option.map_some, shifted]
          have whole : 128 + v.toNat % 128 - 128 + 128 * (v.toNat / 128) = v.toNat := by omega
          exact congrArg (fun k => some (k, rest)) whole
  | case2 v small =>
      intro n _ rest
      have below : v.toNat < 128 := by
        simp only [BitVec.lt_def, BitVec.toNat_ofNat] at small
        omega
      have byte : (v.setWidth 8 &&& 0x7f#8).toNat = v.toNat := by
        have ones : (0x7f : Nat) = 2 ^ 7 - 1 := rfl
        rw [BitVec.toNat_and, BitVec.toNat_setWidth, BitVec.toNat_ofNat,
          Nat.mod_eq_of_lt (by norm_num : 0x7f < 2 ^ 8), ones, Nat.and_two_pow_sub_one_eq_mod]
        omega
      rw [toVarInt, if_neg small, List.singleton_append, readVarint, byte, if_pos below]

/-- **ZigZag is the standard one**: what the standard reads is the signed number. -/
theorem fromZigZag_eq_toInt {p w : Nat} (hw : 0 < w) (hp : w ≤ p) (v : BitVec w) :
    Protobuf.fromZigZag (toZigZag p w v).toNat = v.toInt := by
  have bits : toZigZag p w v = if v.msb then ~~~(v <<< 1) else v <<< 1 := by
    apply BitVec.eq_of_getLsbD_eq
    intro i hi
    rw [getLsbD_toZigZag hw hp v i hi]
    by_cases h0 : i = 0
    · cases v.msb <;> simp [h0, hw]
    · have positive : 0 < i := by omega
      have before : i - 1 < w := by omega
      cases v.msb <;> simp [h0, hi, positive, BitVec.getLsbD_eq_getElem before]
  have double : 2 ^ w = 2 * 2 ^ (w - 1) := by
    rw [← pow_succ', Nat.sub_add_cancel hw]
  have doubled : (v <<< 1).toNat = 2 * v.toNat % 2 ^ w := by
    rw [BitVec.toNat_shiftLeft, Nat.shiftLeft_eq, pow_one, Nat.mul_comm]
  have bound := v.isLt
  have sign := BitVec.msb_eq_decide v
  by_cases negative : 2 ^ (w - 1) ≤ v.toNat
  · rw [decide_eq_true negative] at sign
    have high : 2 * v.toNat % 2 ^ w = 2 * v.toNat - 2 ^ w := by
      rw [Nat.mod_eq_sub_mod (by omega), Nat.mod_eq_of_lt (by omega)]
    rw [bits, if_pos sign, BitVec.toNat_not, doubled, high, Protobuf.fromZigZag,
      if_neg (by omega), BitVec.toInt_eq_msb_cond, if_pos sign]
    have half : ((2 ^ w - 1 - (2 * v.toNat - 2 ^ w)) / 2 : Nat) + v.toNat + 1 = 2 ^ w := by omega
    generalize (2 ^ w - 1 - (2 * v.toNat - 2 ^ w)) / 2 = quotient at half ⊢
    have cast : ((2 ^ w : Nat) : Int) = quotient + v.toNat + 1 := by rw [← half]; push_cast; rfl
    rw [cast]
    omega
  · rw [decide_eq_false negative] at sign
    have low : 2 * v.toNat % 2 ^ w = 2 * v.toNat := Nat.mod_eq_of_lt (by omega)
    rw [bits, if_neg (by simp [sign]), doubled, low, Protobuf.fromZigZag, if_pos (by omega),
      BitVec.toInt_eq_msb_cond, if_neg (by simp [sign]), Nat.mul_div_cancel_left _ (by norm_num)]

/-! ## Records -/

namespace ScalarType

/-- The payload of the record that holds a scalar. -/
def payload : (t : ScalarType) → t.Value → Payload
  | .bool, v => .varint (if v then 1 else 0)
  | .char, v => .varint (BitVec.toNat v)
  | .uint8, v => .varint (BitVec.toNat v)
  | .int8, v => .varint (toZigZag8 v).toNat
  | .uint16, v => .varint (BitVec.toNat v)
  | .int16, v => .varint (toZigZag16 v).toNat
  | .uint32, v => .varint (BitVec.toNat v)
  | .int32, v => .varint (toZigZag32 v).toNat
  | .uint64, v => .varint (BitVec.toNat v)
  | .int64, v => .varint (toZigZag64 v).toNat
  | .float, v => .i32 (BitVec.toNat v)
  | .double, v => .i64 (BitVec.toNat v)
  | .bytes, v => .len v
  | .string, v => .len v

/-- A scalar as a reader should find it. -/
def meaning : (t : ScalarType) → t.Value → Protobuf.Value
  | .bool, v => .bool v
  | .char, v => .integer (BitVec.toInt v)
  | .uint8, v => .integer (BitVec.toNat v)
  | .int8, v => .integer (BitVec.toInt v)
  | .uint16, v => .integer (BitVec.toNat v)
  | .int16, v => .integer (BitVec.toInt v)
  | .uint32, v => .integer (BitVec.toNat v)
  | .int32, v => .integer (BitVec.toInt v)
  | .uint64, v => .integer (BitVec.toNat v)
  | .int64, v => .integer (BitVec.toInt v)
  | .float, v => .float v
  | .double, v => .double v
  | .bytes, v => .string v
  | .string, v => .string v

theorem meaning_ne_absent (t : ScalarType) (v : t.Value) : t.meaning v ≠ .absent := by
  cases t <;> exact nofun

/-- A value is no character but `'\0'`. -/
def NoCharacter : (t : ScalarType) → t.Value → Prop
  | .char, v => v = 0#8
  | _, _ => True

end ScalarType

namespace Fields

/-- The records of a message. -/
def protoRecords : (fs : Fields) → fs.Values → List (Nat × Payload)
  | .nil, _ => []
  | .scalar field t rest, m =>
      (field.fieldIdentifier.toNat, t.payload m.1) :: rest.protoRecords m.2
  | .nested field _ inner rest, m =>
      (field.fieldIdentifier.toNat, .len (inner.protoBytes m.1)) :: rest.protoRecords m.2

/-- The values of a message as a reader should find them. -/
def protoValues : (fs : Fields) → fs.Values → List Value
  | .nil, _ => []
  | .scalar _ t rest, m => t.meaning m.1 :: rest.protoValues m.2
  | .nested _ _ inner rest, m => .message (inner.protoValues m.1) :: rest.protoValues m.2

end Fields

theorem readVarint_number (v : BitVec 64) (rest : Bytes) :
    readVarint 10 (toVarInt v ++ rest) = some (v.toNat, rest) :=
  readVarint_toVarInt v 9 (v.isLt.trans (by norm_num)) rest

/-- Reading a record behind the key that `encodeKey` makes. -/
theorem readRecord_encodeKey {id : BitVec 32} (positive : 0 < id.toNat) (small : id.toNat < 2 ^ 29)
    (t : ProtoConstants) {payload rest : Bytes} {p : Payload}
    (h : readPayload t.code.toNat (payload ++ rest) = some (p, rest)) :
    readRecord (toVarInt (encodeKey id t) ++ payload ++ rest) = some ((id.toNat, p), rest) := by
  have code : t.code.toNat < 8 := by cases t <;> decide
  have tag := toNat_encodeKey small t
  have number : (encodeKey id t).toNat / 8 = id.toNat := by omega
  have wireType : (encodeKey id t).toNat % 8 = t.code.toNat := by omega
  rw [← number]
  exact readRecord_append (readVarint_number _ _) (by omega) (by rw [wireType, h])

theorem readPayload_encodeString {s : Bytes} (short : s.length < 2 ^ 64) (rest : Bytes) :
    readPayload ProtoConstants.lengthDelimited.code.toNat
      (ToProtoVisitor.encodeString s ++ rest) = some (.len s, rest) := by
  have length : (BitVec.ofNat 64 s.length).toNat = s.length := by
    rw [BitVec.toNat_ofNat, Nat.mod_eq_of_lt short]
  rw [ToProtoVisitor.encodeString, List.append_assoc]
  exact readPayload_len (by rw [readVarint_number, length])

/-- What `ToProtoVisitor` writes for a scalar is its payload. -/
theorem readPayload_encode (t : ScalarType) (v : t.Value)
    (short : (ToProtoVisitor.encode t v).length < 2 ^ 64) (rest : Bytes) :
    readPayload t.protoType.code.toNat (ToProtoVisitor.encode t v ++ rest) =
      some (t.payload v, rest) := by
  have varint {w : BitVec 64} {n : Nat} (same : w.toNat = n) :
      readPayload 0 (toVarInt w ++ rest) = some (.varint n, rest) :=
    readPayload_varint (by rw [readVarint_number, same])
  have widened {w : Nat} (h : w ≤ 64) (v : BitVec w) : (v.setWidth 64).toNat = v.toNat :=
    BitVec.toNat_setWidth_of_le h
  cases t with
  | bool => exact varint (by cases v <;> rfl)
  | char | uint8 | int8 | uint16 | int16 | uint32 | int32 =>
      exact varint (widened (by norm_num) _)
  | uint64 | int64 => exact varint rfl
  | float =>
      have bits : ofLeBytes (leBytes 4 (BitVec.toNat v)) = BitVec.toNat v :=
        (ofLeBytes_leBytes _ _).trans
          (Nat.mod_eq_of_lt ((BitVec.isLt v).trans_eq (by norm_num)))
      exact (readPayload_i32 (leBytes_length _ _) rest).trans (by rw [bits]; rfl)
  | double =>
      have bits : ofLeBytes (leBytes 8 (BitVec.toNat v)) = BitVec.toNat v :=
        (ofLeBytes_leBytes _ _).trans
          (Nat.mod_eq_of_lt ((BitVec.isLt v).trans_eq (by norm_num)))
      exact (readPayload_i64 (leBytes_length _ _) rest).trans (by rw [bits]; rfl)
  | bytes | string =>
      have shorter : List.length v ≤ (ToProtoVisitor.encodeString v).length := by
        simp [ToProtoVisitor.encodeString]
      exact readPayload_encodeString (shorter.trans_lt short) rest

/-- **The bytes of a message consist of its records.** -/
theorem readRecords_protoBytes (fs : Fields)
    (ids : fs.All fun field => 0 < field.fieldIdentifier.toNat ∧
      field.fieldIdentifier.toNat < 2 ^ 29) :
    ∀ (m : fs.Values), (fs.protoBytes m).length < 2 ^ 64 → ∀ n, (fs.protoBytes m).length ≤ n →
      readRecords n (fs.protoBytes m) = some (fs.protoRecords m) := by
  have key (id : BitVec 32) (t : ProtoConstants) : 0 < (toVarInt (encodeKey id t)).length :=
    (isVarInt_toVarInt _).length_pos
  induction fs with
  | nil =>
      intro m _ n _
      cases n <;> rfl
  | scalar field t rest ih =>
      intro m short n enough
      have keyLength := key field.fieldIdentifier t.protoType
      simp only [Fields.protoBytes, List.length_append] at short enough
      cases n with
      | zero => omega
      | succ n =>
          have first := readRecord_encodeKey ids.1.1 ids.1.2 t.protoType
            (readPayload_encode t m.1 (by omega) (rest.protoBytes m.2))
          rw [Fields.protoBytes, readRecords_append (by simp [← List.length_pos_iff, keyLength])
            first, ih ids.2 m.2 (by omega) n (by omega)]
          rfl
  | nested field info inner rest _ ih =>
      intro m short n enough
      have keyLength := key field.fieldIdentifier .lengthDelimited
      simp only [Fields.protoBytes, ToProtoVisitor.encodeString, List.length_append] at short enough
      cases n with
      | zero => omega
      | succ n =>
          have first := readRecord_encodeKey ids.1.1 ids.1.2 .lengthDelimited
            (readPayload_encodeString (s := inner.protoBytes m.1) (by omega) (rest.protoBytes m.2))
          rw [Fields.protoBytes, readRecords_append (by simp [← List.length_pos_iff, keyLength])
            first, ih ids.2.2 m.2 (by omega) n (by omega)]
          rfl

/-! ## Fields -/

open MetaMessageToProtoTransformator

/-- The type that the schema gives a scalar is no message. -/
theorem ofText_typeToTypeStringMap (t : ScalarType) (name : Bytes) :
    FieldType.ofText (typeToTypeStringMap t) ≠ .message name :=
  FieldType.ofText_keyword (by cases t <;> decide) name

/-- A reader finds the value of a scalar, but no character except `'\0'`. -/
theorem read_payload_iff (t : ScalarType) (v : t.Value) :
    (FieldType.ofText (typeToTypeStringMap t)).read (t.payload v) = some (t.meaning v) ↔
      t.NoCharacter v := by
  have unsigned {w : Nat} (h : w ≤ 32) (v : BitVec w) : v.toNat % 2 ^ 32 = v.toNat :=
    Nat.mod_eq_of_lt (v.isLt.trans_le (Nat.pow_le_pow_right (by norm_num) h))
  have integer {n k : Int} (h : n = k) : some (Value.integer n) = some (.integer k) := by rw [h]
  cases t with
  | bool =>
      refine iff_of_true ?_ trivial
      cases v <;> rfl
  | char =>
      have small : BitVec.toNat v % 2 ^ 32 = BitVec.toNat v := unsigned (w := 8) (by norm_num) v
      have only : ∀ u : BitVec 8, Protobuf.fromZigZag u.toNat = u.toInt ↔ u = 0#8 := by decide
      have read : (FieldType.ofText (typeToTypeStringMap .char)).read (.varint (BitVec.toNat v)) =
        some (.integer (Protobuf.fromZigZag (BitVec.toNat v % 2 ^ 32))) := rfl
      rw [ScalarType.payload, read, small]
      exact ⟨fun h => (only v).mp (by injection h with h; injection h),
        fun h => integer ((only v).mpr h)⟩
  | uint8 | uint16 | uint32 =>
      exact iff_of_true (integer (congrArg Nat.cast (unsigned (by norm_num) v))) trivial
  | int8 | int16 | int32 =>
      refine iff_of_true (integer ?_) trivial
      exact (congrArg Protobuf.fromZigZag (unsigned (by norm_num) _)).trans
        (fromZigZag_eq_toInt (by norm_num) (by norm_num) v)
  | uint64 =>
      exact iff_of_true (integer (congrArg Nat.cast (Nat.mod_eq_of_lt (BitVec.isLt v)))) trivial
  | int64 =>
      refine iff_of_true (integer ?_) trivial
      exact (congrArg Protobuf.fromZigZag (Nat.mod_eq_of_lt (BitVec.isLt (toZigZag64 v)))).trans
        (fromZigZag_eq_toInt (by norm_num) (by norm_num) v)
  | float =>
      refine iff_of_true ?_ trivial
      exact congrArg (some ∘ Value.float) (BitVec.ofNat_toNat 32 v |>.trans (BitVec.setWidth_eq v))
  | double =>
      refine iff_of_true ?_ trivial
      exact congrArg (some ∘ Value.double) (BitVec.ofNat_toNat 64 v |>.trans (BitVec.setWidth_eq v))
  | bytes | string => exact iff_of_true rfl trivial

/-- The field of the schema for a field of a message. -/
def schemaField (mm : MetaMessage) (f : MetaField) : Field :=
  ⟨f.fieldIdentifier.toNat, FieldType.ofText (typeText mm f)⟩

theorem fields_schemaMessage (mm : MetaMessage) :
    (visit mm).schemaMessage.fields = mm.listOfMetaFields.map (schemaField mm) := by
  rw [DataToBeRendered.schemaMessage, visit, List.map_map]
  rfl

/-- Under a valid schema, the name of a message stands for it. -/
theorem find_schema {mms : List MetaMessage} (valid : (schema mms).Valid) {mm : MetaMessage}
    (member : mm ∈ mms) :
    (schema mms).find? (fun message => message.name = (visit mm).message) =
      some (visit mm).schemaMessage := by
  have isIn : (visit mm).schemaMessage ∈ schema mms := List.mem_map_of_mem member
  rcases found : (schema mms).find? fun message => message.name = (visit mm).message with _ | other
  · have := List.find?_eq_none.mp found _ isIn
    simp [DataToBeRendered.schemaMessage] at this
  · have otherIn := List.mem_of_find?_eq_some found
    have sameName : other.name = (visit mm).message := by simpa using List.find?_some found
    rw [found]
    exact congrArg some (List.inj_on_of_nodup_map valid.1 otherIn isIn sameName)

/-- The identifiers of a described message type are those of the specification. -/
theorem Fields.Describes.identifiers {mms : List MetaMessage} (spec : IsSpecification mms)
    (fs : Fields) : ∀ {fields : List MetaField},
      fs.Describes (mapForScopeOfMetaMessages mms) fields →
      (∀ f ∈ fields, 0 < f.fieldIdentifier.toNat ∧ f.fieldIdentifier.toNat < 2 ^ 29) →
      fs.All fun field => 0 < field.fieldIdentifier.toNat ∧
        field.fieldIdentifier.toNat < 2 ^ 29 := by
  induction fs with
  | nil => intros; trivial
  | scalar field t rest ih =>
      rintro _ ⟨f, fs, rfl, same, -, described⟩ ids
      rw [List.forall_mem_cons, same] at ids
      exact ⟨ids.1, ih described ids.2⟩
  | nested field info inner rest ihInner ih =>
      rintro _ ⟨f, fs, mm, rfl, same, -, found, innerDescribed, described⟩ ids
      rw [List.forall_mem_cons, same] at ids
      have member := (find_mapForScope found).1
      exact ⟨ids.1, ihInner innerDescribed (spec.identifiers mm member), ih described ids.2⟩

/-- The numbers of the records are those of the fields. -/
theorem map_fst_protoRecords {scope : KeyValueMap Bytes MetaMessage} (fs : Fields) :
    ∀ {fields : List MetaField}, fs.Describes scope fields → ∀ m : fs.Values,
      (fs.protoRecords m).map Prod.fst = fields.map fun f => f.fieldIdentifier.toNat := by
  induction fs with
  | nil =>
      rintro _ rfl m
      rfl
  | scalar field t rest ih =>
      rintro _ ⟨f, fs, rfl, same, -, described⟩ m
      rw [Fields.protoRecords, List.map_cons, List.map_cons, ih described m.2, same]
  | nested field info inner rest _ ih =>
      rintro _ ⟨f, fs, mm, rfl, same, -, -, -, described⟩ m
      rw [Fields.protoRecords, List.map_cons, List.map_cons, ih described m.2, same]

/-! ## Messages -/

section Specification

variable {mms : List MetaMessage}

/-- The condition on the fields of a specification that stand for messages: the schema gives them
the type of a message. -/
def NamesMessage (packageName : Bytes) (f : MetaField) : Prop :=
  ¬ IsKeyword (messageTypeText packageName f.fieldDataTypeName)

/-- The payloads of the first field, and those of the others. -/
theorem payloads_cons {f : MetaField} {fs : List MetaField} {payload : Payload}
    {records : List (Nat × Payload)} {payloads : Nat → List Payload}
    (distinct : ((f :: fs).map fun f => f.fieldIdentifier.toNat).Nodup)
    (numbers : records.map Prod.fst = fs.map fun f => f.fieldIdentifier.toNat)
    (same : ∀ g ∈ f :: fs, payloads g.fieldIdentifier.toNat =
      payloadsOf g.fieldIdentifier.toNat ((f.fieldIdentifier.toNat, payload) :: records)) :
    payloads f.fieldIdentifier.toNat = [payload] ∧
      ∀ g ∈ fs, payloads g.fieldIdentifier.toNat =
        payloadsOf g.fieldIdentifier.toNat records := by
  obtain ⟨once, -⟩ := List.nodup_cons.mp distinct
  refine ⟨?_, fun g member => ?_⟩
  · rw [same f List.mem_cons_self]
    exact payloadsOf_cons (by rw [numbers]; exact once)
  · rw [same g (List.mem_cons_of_mem _ member)]
    refine payloadsOf_cons_ne (fun equal => once ?_) payload records
    exact List.mem_map.mpr ⟨g, member, equal.symm⟩

/-- The fields of a message of a valid schema have different numbers. -/
theorem nodup_identifiers (valid : (schema mms).Valid) {mm : MetaMessage} (member : mm ∈ mms) :
    (mm.listOfMetaFields.map fun f => f.fieldIdentifier.toNat).Nodup := by
  have distinct := valid.2 _ (List.mem_map_of_mem member)
  rwa [fields_schemaMessage, List.map_map] at distinct

/-- Reading a message reads its fields. -/
theorem readMessage_eq (spec : IsSpecification mms) (valid : (schema mms).Valid)
    {mm : MetaMessage} (member : mm ∈ mms) {fs : Fields}
    (described : fs.Describes (mapForScopeOfMetaMessages mms) mm.listOfMetaFields)
    {m : fs.Values} (short : (fs.protoBytes m).length < 2 ^ 64) (n : Nat) :
    (schema mms).readMessage (n + 1) (visit mm).message (fs.protoBytes m) =
      (mm.listOfMetaFields.map (schemaField mm)).mapM fun f =>
        f.read ((schema mms).readMessage n) (payloadsOf f.number (fs.protoRecords m)) := by
  rw [Schema.readMessage, find_schema valid member, Option.bind_some,
    readRecords_protoBytes fs (described.identifiers spec fs (spec.identifiers mm member)) m short _
      le_rfl, Option.bind_some, fields_schemaMessage]

/-- The type of a field that stands for a message is the name of that message, unless it is the
name of another type. -/
theorem type_schemaField (spec : IsSpecification mms)
    {packageName : Bytes} (package : ∀ mm ∈ mms, mm.packageName = packageName)
    {mm mm' : MetaMessage} (member : mm ∈ mms) {f : MetaField} (isMessage : f.fieldDataType = .message)
    (found : (mapForScopeOfMetaMessages mms).find f.fieldDataTypeName = some mm') :
    (NamesMessage packageName f → (schemaField mm f).type = .message (visit mm').message) ∧
      (¬ NamesMessage packageName f → ∀ name, (schemaField mm f).type ≠ .message name) := by
  obtain ⟨member', name⟩ := find_mapForScope found
  have text : typeText mm f = messageTypeText packageName f.fieldDataTypeName := by
    rw [typeText, isMessage, package mm member]
  refine ⟨fun names => ?_, fun keyword => ?_⟩
  · have same := text_eq_message (package mm' member') (spec.names mm' member')
    rw [schemaField, text, FieldType.ofText_message names, ← same, name]
  · rw [schemaField, text]
    exact FieldType.ofText_keyword (not_not.mp keyword)

/-- Under a valid schema a reader finds the values of the fields of a message exactly when no value
is a character and all types of nested messages are names of messages. -/
theorem read_fields_iff (spec : IsSpecification mms) (valid : (schema mms).Valid)
    {packageName : Bytes} (package : ∀ mm ∈ mms, mm.packageName = packageName) (fs : Fields) :
    ∀ {mm : MetaMessage}, mm ∈ mms → ∀ {fields : List MetaField},
      fs.Describes (mapForScopeOfMetaMessages mms) fields →
      (∀ f ∈ fields, 0 < f.fieldIdentifier.toNat ∧ f.fieldIdentifier.toNat < 2 ^ 29) →
      (fields.map fun f => f.fieldIdentifier.toNat).Nodup →
      ∀ {m : fs.Values}, (fs.protoBytes m).length < 2 ^ 64 →
      ∀ {n : Nat}, (fs.protoBytes m).length ≤ n → ∀ payloads : Nat → List Payload,
      (∀ f ∈ fields, payloads f.fieldIdentifier.toNat =
        payloadsOf f.fieldIdentifier.toNat (fs.protoRecords m)) →
      ((fields.map (schemaField mm)).mapM
          (fun f => f.read ((schema mms).readMessage n) (payloads f.number)) =
            some (fs.protoValues m) ↔
        fs.EachMessageField (mapForScopeOfMetaMessages mms) (NamesMessage packageName) fields ∧
          fs.AllValues ScalarType.NoCharacter m) := by
  induction fs with
  | nil =>
      rintro mm member _ rfl ids distinct m short n enough payloads same
      exact iff_of_true rfl ⟨trivial, trivial⟩
  | scalar field t rest ih =>
      rintro mm member _ ⟨f, fs, rfl, sameId, isScalar, described⟩ ids distinct m short n enough
        payloads same
      simp only [Fields.protoBytes, List.length_append] at short enough
      rw [Fields.protoRecords, ← sameId] at same
      obtain ⟨here, others⟩ := payloads_cons distinct (map_fst_protoRecords rest described m.2) same
      have type : (schemaField mm f).type = FieldType.ofText (typeToTypeStringMap t) := by
        rw [schemaField, typeText, isScalar]
      have noMessage : ∀ name, (schemaField mm f).type ≠ .message name := by
        rw [type]
        exact ofText_typeToTypeStringMap t
      have head : (schemaField mm f).read ((schema mms).readMessage n)
          (payloads (schemaField mm f).number) = some (t.meaning m.1) ↔ t.NoCharacter m.1 := by
        rw [show payloads (schemaField mm f).number = [t.payload m.1] from here,
          ← read_payload_iff, ← type]
        exact Field.read_single_iff _ noMessage (t.meaning_ne_absent m.1)
      rw [List.map_cons, Fields.protoValues, mapM_cons_eq_some, head,
        ih member described (fun g isIn => ids g (List.mem_cons_of_mem _ isIn))
          (List.nodup_cons.mp distinct).2 (by omega) (by omega) _ others]
      simp only [Fields.EachMessageField, Fields.AllValues, List.tail_cons]
      exact and_left_comm
  | nested field info inner rest ihInner ih =>
      rintro mm member _ ⟨f, fs, mm', rfl, sameId, isMessage, found, innerDescribed, described⟩ ids
        distinct m short n enough payloads same
      simp only [Fields.protoBytes, ToProtoVisitor.encodeString, List.length_append] at short enough
      rw [Fields.protoRecords, ← sameId] at same
      obtain ⟨here, others⟩ := payloads_cons distinct (map_fst_protoRecords rest described m.2) same
      obtain ⟨member', name⟩ := find_mapForScope found
      have head : (schemaField mm f).read ((schema mms).readMessage n)
          (payloads (schemaField mm f).number) = some (.message (inner.protoValues m.1)) ↔
            NamesMessage packageName f ∧
              inner.EachMessageField (mapForScopeOfMetaMessages mms) (NamesMessage packageName)
                mm'.listOfMetaFields ∧ inner.AllValues ScalarType.NoCharacter m.1 := by
        rw [show payloads (schemaField mm f).number = [.len (inner.protoBytes m.1)] from here]
        obtain ⟨isName, noName⟩ := type_schemaField spec package member isMessage found
        by_cases names : NamesMessage packageName f
        · have keyLength :=
            (isVarInt_toVarInt (encodeKey field.fieldIdentifier .lengthDelimited)).length_pos
          obtain ⟨k, rfl⟩ : ∃ k, n = k + 1 := ⟨n - 1, by omega⟩
          have inside := ihInner member' innerDescribed (spec.identifiers mm' member')
            (nodup_identifiers valid member') (by omega) (by omega : _ ≤ k)
            (fun number => payloadsOf number (inner.protoRecords m.1)) fun _ _ => rfl
          rw [Field.read_message _ (isName names),
            readMessage_eq spec valid member' innerDescribed (by omega), and_iff_right names,
            ← inside]
          simp
        · exact iff_of_false (Field.read_ne_message _ (noName names) _ _) fun h => names h.1
      rw [List.map_cons, Fields.protoValues, mapM_cons_eq_some, head,
        ih member described (fun g isIn => ids g (List.mem_cons_of_mem _ isIn))
          (List.nodup_cons.mp distinct).2 (by omega) (by omega) _ others]
      simp only [Fields.EachMessageField, Fields.AllValues, List.tail_cons, List.head?_cons,
        Option.mem_def, Option.some.injEq, forall_eq', found]
      tauto

end Specification

/-- **The standard meaning of an encoded message.** A reader with the schema that is emitted for a
specification finds in every field of the bytes of a message the value of the field exactly when
the schema is valid, no nested message has the name of another type, and no value is a character
other than `'\0'`. -/
theorem read_encodedData_iff {mms : List MetaMessage} (spec : IsSpecification mms)
    {mm : MetaMessage} (member : mm ∈ mms) {T : MessageType} (described : mm.Describes mms T)
    (m : T.Values) (short : (ToProtoVisitor.encodedData T m).length < 2 ^ 64) :
    (schema mms).read (visit mm).message (ToProtoVisitor.encodedData T m) =
        some (T.fields.protoValues m) ↔
      (schema mms).Valid ∧
        T.fields.EachMessageField (mapForScopeOfMetaMessages mms) (NamesMessage mm.packageName)
          mm.listOfMetaFields ∧
        T.fields.AllValues ScalarType.NoCharacter m := by
  obtain ⟨packageName, package⟩ := spec.package
  rw [ToProtoVisitor.encodedData_eq] at short ⊢
  by_cases valid : (schema mms).Valid
  · rw [Schema.read, if_pos valid, readMessage_eq spec valid member described short,
      and_iff_right valid, package mm member]
    exact read_fields_iff spec valid package T.fields member described
      (spec.identifiers mm member) (nodup_identifiers valid member) short le_rfl
      (fun number => payloadsOf number (T.fields.protoRecords m)) fun _ _ => rfl
  · rw [Schema.read, if_neg valid]
    exact iff_of_false nofun fun h => valid h.1

theorem read_encodedData_iff_timeStamp :
    let mm : MetaMessage := ⟨asciiBytes "cluon.data", asciiBytes "TimeStamp", 12,
      [⟨.scalar .int32, asciiBytes "int32", asciiBytes "seconds", 1, []⟩,
        ⟨.scalar .int32, asciiBytes "int32", asciiBytes "microseconds", 2, []⟩]⟩
    (schema [mm]).read (visit mm).message
        (ToProtoVisitor.encodedData TimeStamp (TimeStamp.of (-1) 2)) =
      some [.integer (-1), .integer 2] := by
  intro mm
  have spec : IsSpecification [mm] := by
    refine ⟨⟨asciiBytes "cluon.data", by simp [mm]⟩, by simp [mm]; decide, ?_⟩
    simp [mm]
  have described : mm.Describes [mm] TimeStamp :=
    ⟨_, _, rfl, rfl, rfl, _, _, rfl, rfl, rfl, rfl⟩
  have short := length_encodedData_timeStamp (TimeStamp.of (-1) 2)
  exact (read_encodedData_iff spec List.mem_cons_self described (TimeStamp.of (-1) 2) short).mpr
    ⟨by decide, trivial, trivial, trivial, trivial⟩

/-- **A character.** The bytes of a message with the character `'A'`, which has the number 65, give
a reader the number -33. -/
theorem read_encodedData_ne :
    let T : MessageType := ⟨⟨1, asciiBytes "Name", asciiBytes "Name"⟩,
      .scalar (.declared "char" "initial" 1) .char .nil⟩
    let mm : MetaMessage := ⟨[], asciiBytes "Name", 1,
      [⟨.scalar .char, asciiBytes "char", asciiBytes "initial", 1, []⟩]⟩
    let reading := (schema [mm]).read (visit mm).message (ToProtoVisitor.encodedData T (0x41#8, ()))
    IsSpecification [mm] ∧ mm.Describes [mm] T ∧ reading = some [.integer (-33)] ∧
      reading ≠ some (T.fields.protoValues (0x41#8, ())) := by
  intro T mm reading
  have bytes : ToProtoVisitor.encodedData T (0x41#8, ()) = [0x08, 0x41] := by
    rw [ToProtoVisitor.encodedData_eq]
    change toVarInt (encodeKey 1#32 .varint) ++ toVarInt (BitVec.setWidth 64 0x41#8) ++ [] = _
    rw [toVarInt_of_lt (by decide), toVarInt_of_lt (by decide)]
    rfl
  have found : reading = some [.integer (-33)] := by
    simp only [reading, bytes]
    rfl
  refine ⟨⟨⟨[], by simp [mm]⟩, by simp [mm]; decide, by simp [mm]⟩, ⟨_, _, rfl, rfl, rfl, rfl⟩,
    found, ?_⟩
  have right : T.fields.protoValues (0x41#8, ()) = [.integer 65] := rfl
  rw [found, right]
  simp

end Cluon
