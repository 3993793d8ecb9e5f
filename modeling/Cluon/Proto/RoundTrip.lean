import Cluon.Proto.Records

/-!
# The Proto round trip

The bytes an encoder writes for a message are a sequence of complete records, one for each
field (`Fields.records`, `encodes_records`). Their wire types match the fields
(`matches_records`), and putting them into a message gives the encoded message back
whatever was there before, in whichever of the two ways (`inject_records`,
`collect_records`). With what is known of the two decoding paths this is the round trip
(`decode_encodedData`).
-/

set_option autoImplicit false

namespace Cluon

open Library

/-! ## The payload of a scalar -/

namespace ProtoAny

/-- The payload of the record an encoder writes for a scalar. -/
def ofValue : (t : ScalarType) → t.Value → ProtoAny
  | .bool, v => .uint64 (if v then 1 else 0)
  | .char, v => .uint64 (v.setWidth 64)
  | .uint8, v => .uint64 (v.setWidth 64)
  | .int8, v => .uint64 ((toZigZag8 v).setWidth 64)
  | .uint16, v => .uint64 (v.setWidth 64)
  | .int16, v => .uint64 ((toZigZag16 v).setWidth 64)
  | .uint32, v => .uint64 (v.setWidth 64)
  | .int32, v => .uint64 ((toZigZag32 v).setWidth 64)
  | .uint64, v => .uint64 v
  | .int64, v => .uint64 (toZigZag64 v)
  | .float, v => .float v
  | .double, v => .double v
  | .bytes, v => .string v
  | .string, v => .string v

@[simp] theorem protoType_ofValue (t : ScalarType) (v : t.Value) :
    (ofValue t v).protoType = t.protoType := by
  cases t <;> rfl

/-- **A decoder casts the payload back to the value.** -/
theorem castTo_ofValue (t : ScalarType) (v : t.Value) : castTo t (ofValue t v) = some v := by
  cases t with
  | bool => cases v <;> rfl
  | int8 =>
      simp only [ofValue, castTo, BitVec.setWidth_setWidth_of_le _ (by omega : 8 ≤ 64),
        BitVec.setWidth_eq]
      exact congrArg some (fromZigZag_toZigZag (by omega) (by omega) v)
  | int16 =>
      simp only [ofValue, castTo, BitVec.setWidth_setWidth_of_le _ (by omega : 16 ≤ 64),
        BitVec.setWidth_eq]
      exact congrArg some (fromZigZag_toZigZag (by omega) (by omega) v)
  | int32 =>
      simp only [ofValue, castTo, BitVec.setWidth_setWidth_of_le _ (by omega : 32 ≤ 64),
        BitVec.setWidth_eq]
      exact congrArg some (fromZigZag_toZigZag (by omega) (by omega) v)
  | int64 => exact congrArg some (fromZigZag_toZigZag (by omega) (by omega) v)
  | char | uint8 | uint16 | uint32 => simp [ofValue, castTo]
  | uint64 | float | double | bytes | string => rfl

end ProtoAny

/-! ## The records of a message -/

theorem isKey_encodeKey {id : BitVec 32} (h : id.toNat < 2 ^ 29) (t : ProtoConstants) :
    IsKey (toVarInt (encodeKey id t)) id t where
  varInt := isProtoVarInt_toVarInt _
  protoType_eq := by
    rw [varIntValue_toVarInt, keyProtoType_encodeKey, ProtoConstants.ofCode_code]
  fieldId_eq := by rw [varIntValue_toVarInt, keyFieldId_encodeKey h]

theorem isRecord_string {id : BitVec 32} (h : id.toNat < 2 ^ 29) {s : Bytes}
    (short : s.length < 2 ^ 64) :
    IsRecord (toVarInt (encodeKey id .lengthDelimited) ++ ToProtoVisitor.encodeString s) id
      (.string s) := by
  refine .lengthDelimited (isKey_encodeKey h _) (isProtoVarInt_toVarInt _) ?_
  rw [varIntValue_toVarInt, BitVec.toNat_ofNat, Nat.mod_eq_of_lt short]

theorem isRecord_varInt {id : BitVec 32} (h : id.toNat < 2 ^ 29) (v : BitVec 64) :
    IsRecord (toVarInt (encodeKey id .varint) ++ toVarInt v) id (.uint64 v) := by
  have record := IsRecord.varint (isKey_encodeKey h .varint) (isProtoVarInt_toVarInt v)
  rwa [varIntValue_toVarInt] at record

/-- An encoder writes a complete record for a scalar. -/
theorem isRecord_encode {id : BitVec 32} (h : id.toNat < 2 ^ 29) (t : ScalarType) (v : t.Value)
    (short : (ToProtoVisitor.encode t v).length < 2 ^ 64) :
    IsRecord (toVarInt (encodeKey id t.protoType) ++ ToProtoVisitor.encode t v) id
      (ProtoAny.ofValue t v) := by
  cases t with
  | float =>
      have record := IsRecord.fourBytes (isKey_encodeKey h .fourBytes) (leBytes_length 4 v.toNat)
      rwa [word_leBytes (w := 32) 4 (by norm_num)] at record
  | double =>
      have record := IsRecord.eightBytes (isKey_encodeKey h .eightBytes) (leBytes_length 8 v.toNat)
      rwa [word_leBytes (w := 64) 8 (by norm_num)] at record
  | bytes | string =>
      have shorter : List.length v ≤ (ToProtoVisitor.encodeString v).length := by
        simp [ToProtoVisitor.encodeString]
      exact isRecord_string h (shorter.trans_lt short)
  | _ => exact isRecord_varInt h _

namespace Fields

/-- The records an encoder writes for a message. -/
def records : (fs : Fields) → fs.Values → Records
  | .nil, _ => .nil
  | .scalar field t rest, m =>
      .scalar field.fieldIdentifier (ProtoAny.ofValue t m.1) (rest.records m.2)
  | .nested field _ fields rest, m =>
      .message field.fieldIdentifier (fields.records m.1) (rest.records m.2)

/-- The keys of all fields are below 2^32. -/
abbrev ProtoIdentifiers (fs : Fields) : Prop :=
  fs.All fun field => field.fieldIdentifier.toNat < 2 ^ 29

theorem encodes_records (fs : Fields) (ids : fs.ProtoIdentifiers) (m : fs.Values)
    (short : (fs.protoBytes m).length < 2 ^ 64) :
    (fs.records m).Encodes (fs.protoBytes m) := by
  induction fs with
  | nil => exact .nil
  | scalar field t rest ih =>
      simp only [protoBytes, List.length_append] at short
      exact .scalar (isRecord_encode ids.1 t m.1 (by omega)) (ih ids.2 m.2 (by omega))
  | nested field info fields rest ihFields ih =>
      simp only [protoBytes, ToProtoVisitor.encodeString, List.length_append] at short
      exact .message (ihFields ids.2.1 m.1 (by omega)) (isRecord_string ids.1 (by omega))
        (ih ids.2.2 m.2 (by omega))

end Fields

/-! ## Records of other identifiers -/

namespace Records

/-- No record of the sequence has the identifier. -/
def Avoids (fieldId : BitVec 32) : Records → Prop
  | .nil => True
  | .scalar id _ rest => id ≠ fieldId ∧ rest.Avoids fieldId
  | .message id _ rest => id ≠ fieldId ∧ rest.Avoids fieldId

variable {fieldId : BitVec 32} {rs : Records}

theorem Avoids.without (h : rs.Avoids fieldId) : rs.without fieldId = rs := by
  induction rs with
  | nil => rfl
  | scalar id payload rest ih => rw [Records.without, if_neg h.1, ih h.2]
  | message id nested rest _ ih => rw [Records.without, if_neg h.1, ih h.2]

theorem Avoids.lastPayload (h : rs.Avoids fieldId) : rs.lastPayload fieldId = none := by
  induction rs with
  | nil => rfl
  | scalar id payload rest ih => rw [Records.lastPayload, if_neg h.1, ih h.2]; rfl
  | message id nested rest _ ih => exact ih h.2

theorem Avoids.allNested (h : rs.Avoids fieldId) : rs.allNested fieldId = .nil := by
  induction rs with
  | nil => rfl
  | scalar id payload rest ih => exact ih h.2
  | message id nested rest _ ih => rw [Records.allNested, if_neg h.1, ih h.2]

theorem append_nil (rs : Records) : rs.append .nil = rs := by
  induction rs with
  | nil => rfl
  | scalar id payload rest ih => rw [Records.append, ih]
  | message id nested rest _ ih => rw [Records.append, ih]

theorem Matches.scalar_of_avoids {fs : Fields} {field : FieldInfo} (t : ScalarType)
    (avoids : rs.Avoids field.fieldIdentifier) (h : rs.Matches fs) :
    rs.Matches (.scalar field t fs) := by
  induction rs with
  | nil => trivial
  | scalar id payload rest ih =>
      exact ⟨⟨fun same => (avoids.1 same.symm).elim, h.1⟩, ih avoids.2 h.2⟩
  | message id nested rest _ ih =>
      exact ⟨⟨fun same => avoids.1 same.symm, h.1⟩, ih avoids.2 h.2⟩

theorem Matches.nested_of_avoids {fs : Fields} {field : FieldInfo} (info : MessageInfo)
    (fields : Fields) (avoids : rs.Avoids field.fieldIdentifier) (h : rs.Matches fs) :
    rs.Matches (.nested field info fields fs) := by
  induction rs with
  | nil => trivial
  | scalar id payload rest ih =>
      exact ⟨⟨fun same => avoids.1 same.symm, h.1⟩, ih avoids.2 h.2⟩
  | message id nested rest _ ih =>
      exact ⟨⟨fun same => (avoids.1 same.symm).elim, h.1⟩, ih avoids.2 h.2⟩

end Records

namespace Fields

theorem admitsScalar_of_notMem {id : BitVec 32} {fs : Fields}
    (absent : id ∉ fs.keys FieldInfo.fieldIdentifier) (t : ProtoConstants) :
    fs.AdmitsScalar id t := by
  induction fs with
  | nil => trivial
  | scalar field type rest ih =>
      simp only [keys, List.mem_cons, not_or] at absent
      exact ⟨fun same => (absent.1 same.symm).elim, ih absent.2⟩
  | nested field info fields rest _ ih =>
      simp only [keys, List.mem_cons, not_or] at absent
      exact ⟨fun same => absent.1 same.symm, ih absent.2⟩

theorem admitsMessage_of_notMem {id : BitVec 32} {fs : Fields}
    (absent : id ∉ fs.keys FieldInfo.fieldIdentifier) (condition : Fields → Prop) :
    fs.AdmitsMessage id condition := by
  induction fs with
  | nil => trivial
  | scalar field type rest ih =>
      simp only [keys, List.mem_cons, not_or] at absent
      exact ⟨fun same => absent.1 same.symm, ih absent.2⟩
  | nested field info fields rest _ ih =>
      simp only [keys, List.mem_cons, not_or] at absent
      exact ⟨fun same => (absent.1 same.symm).elim, ih absent.2⟩

theorem collect_scalar_of_notMem {id : BitVec 32} {fs : Fields}
    (absent : id ∉ fs.keys FieldInfo.fieldIdentifier) (payload : ProtoAny) (rs : Records)
    (v : fs.Values) : fs.collect (.scalar id payload rs) v = fs.collect rs v := by
  induction fs with
  | nil => rfl
  | scalar field type rest ih =>
      simp only [keys, List.mem_cons, not_or] at absent
      rw [collect, collect, ih absent.2, Records.firstPayload, if_neg absent.1]
  | nested field info fields rest _ ih =>
      simp only [keys, List.mem_cons, not_or] at absent
      rw [collect, collect, ih absent.2, Records.firstNested]

theorem collect_message_of_notMem {id : BitVec 32} {fs : Fields}
    (absent : id ∉ fs.keys FieldInfo.fieldIdentifier) (nested rs : Records)
    (v : fs.Values) : fs.collect (.message id nested rs) v = fs.collect rs v := by
  induction fs with
  | nil => rfl
  | scalar field type rest ih =>
      simp only [keys, List.mem_cons, not_or] at absent
      rw [collect, collect, ih absent.2, Records.firstPayload]
  | nested field info fields rest _ ih =>
      simp only [keys, List.mem_cons, not_or] at absent
      rw [collect, collect, ih absent.2, Records.firstNested, if_neg absent.1]

/-! ## Putting the records of a message into a message -/

/-- The identifiers of the fields are pairwise distinct, in nested messages as well. -/
abbrev DistinctIdentifiers (fs : Fields) : Prop := fs.Distinct FieldInfo.fieldIdentifier

theorem avoids_records {id : BitVec 32} {fs : Fields}
    (absent : id ∉ fs.keys FieldInfo.fieldIdentifier) (m : fs.Values) :
    (fs.records m).Avoids id := by
  induction fs with
  | nil => trivial
  | scalar field type rest ih =>
      simp only [keys, List.mem_cons, not_or] at absent
      exact ⟨fun same => absent.1 same.symm, ih absent.2 m.2⟩
  | nested field info fields rest _ ih =>
      simp only [keys, List.mem_cons, not_or] at absent
      exact ⟨fun same => absent.1 same.symm, ih absent.2 m.2⟩

theorem matches_records (fs : Fields) (distinct : fs.DistinctIdentifiers) (m : fs.Values) :
    (fs.records m).Matches fs := by
  induction fs with
  | nil => trivial
  | scalar field t rest ih =>
      obtain ⟨absent, others⟩ := distinct
      exact ⟨⟨fun _ => ProtoAny.protoType_ofValue t m.1, admitsScalar_of_notMem absent _⟩,
        (ih others m.2).scalar_of_avoids t (avoids_records absent m.2)⟩
  | nested field info fields rest ihFields ih =>
      obtain ⟨absent, inner, others⟩ := distinct
      exact ⟨⟨fun _ => ihFields inner m.1, admitsMessage_of_notMem absent _⟩,
        (ih others m.2).nested_of_avoids info fields (avoids_records absent m.2)⟩

/-- Injecting the records of a message overwrites all that was there before. -/
theorem inject_records (fs : Fields) (distinct : fs.DistinctIdentifiers) (m v : fs.Values) :
    (fs.records m).inject fs v = m := by
  induction fs with
  | nil => rfl
  | scalar field t rest ih =>
      have avoids := avoids_records distinct.1 m.2
      rw [Records.inject_scalar (matches_records _ distinct m), records, Records.lastPayload,
        Records.without, if_pos rfl, if_pos rfl, avoids.lastPayload, avoids.without,
        ih distinct.2 m.2 v.2, Option.none_or, ScalarType.afterPayload, Option.bind_some,
        ProtoAny.castTo_ofValue]
      rfl
  | nested field info fields rest ihFields ih =>
      have avoids := avoids_records distinct.1 m.2
      rw [Records.inject_nested (matches_records _ distinct m), records, Records.allNested,
        Records.without, if_pos rfl, if_pos rfl, avoids.allNested, avoids.without,
        Records.append_nil, ihFields distinct.2.1 m.1 v.1, ih distinct.2.2 m.2 v.2]

/-- So does collecting them. -/
theorem collect_records (fs : Fields) (distinct : fs.DistinctIdentifiers) (m v : fs.Values) :
    fs.collect (fs.records m) v = m := by
  induction fs with
  | nil => rfl
  | scalar field t rest ih =>
      rw [collect, records, Records.firstPayload, if_pos rfl,
        collect_scalar_of_notMem distinct.1, ih distinct.2 m.2 v.2, ScalarType.afterPayload,
        Option.bind_some, ProtoAny.castTo_ofValue]
      rfl
  | nested field info fields rest ihFields ih =>
      rw [collect, records, Records.firstNested, if_pos rfl,
        collect_message_of_notMem distinct.1, ihFields distinct.2.1 m.1 v.1,
        ih distinct.2.2 m.2 v.2]

end Fields

/-! ## The round trip -/

namespace FromProtoVisitor

variable (uninit : Nat → Byte) {T : MessageType}

/-- The direct injection of the bytes of a message, as far as a `std::string` can hold them. -/
theorem decodeDirect_encodedData (distinct : T.fields.DistinctIdentifiers)
    (ids : T.fields.ProtoIdentifiers) (m : T.Values)
    (short : (ToProtoVisitor.encodedData T m).length < 2 ^ 64) (d : FromProtoVisitor)
    (v : T.Values) :
    decodeDirect uninit T d (ToProtoVisitor.encodedData T m) v = m := by
  rw [ToProtoVisitor.encodedData_eq] at short ⊢
  rw [decodeDirect_eq_inject (T.fields.encodes_records ids m short)
    (T.fields.matches_records distinct m), T.fields.inject_records distinct]

/-- The two-stage decoding of the bytes of a message. -/
theorem decodeTwoStage_encodedData (distinct : T.fields.DistinctIdentifiers)
    (ids : T.fields.ProtoIdentifiers) (m : T.Values)
    (short : (ToProtoVisitor.encodedData T m).length < 2 ^ 64) {d : FromProtoVisitor}
    (flag : d.callToDecodeFromWithDirectVisit = false) (v : T.Values) :
    decodeTwoStage uninit T d (ToProtoVisitor.encodedData T m) v = m := by
  rw [ToProtoVisitor.encodedData_eq] at short ⊢
  rw [decodeTwoStage_eq_collect (T.fields.encodes_records ids m short)
    (T.fields.matches_records distinct m) flag, T.fields.collect_records distinct]

/-- **The Proto round trip.** Whatever a target held before, decoding the bytes of a message
into it makes it equal to the message, by the direct injection and in two stages, for every
decoder that is not within a direct injection. -/
theorem decode_encodedData (distinct : T.fields.DistinctIdentifiers)
    (ids : T.fields.ProtoIdentifiers) (m : T.Values)
    (short : (ToProtoVisitor.encodedData T m).length < 2 ^ 64) {d : FromProtoVisitor}
    (flag : d.callToDecodeFromWithDirectVisit = false) (v : T.Values) :
    decodeDirect uninit T d (ToProtoVisitor.encodedData T m) v = m ∧
      decodeTwoStage uninit T d (ToProtoVisitor.encodedData T m) v = m :=
  ⟨decodeDirect_encodedData uninit distinct ids m short d v,
    decodeTwoStage_encodedData uninit distinct ids m short flag v⟩

theorem decode_encodedData_timeStamp :
    decodeDirect (fun _ => 0) TimeStamp init
        (ToProtoVisitor.encodedData TimeStamp (TimeStamp.of 1234 (-5))) (TimeStamp.of 7 8) =
          TimeStamp.of 1234 (-5) ∧
      decodeTwoStage (fun _ => 0) TimeStamp init
        (ToProtoVisitor.encodedData TimeStamp (TimeStamp.of 1234 (-5))) (TimeStamp.of 7 8) =
          TimeStamp.of 1234 (-5) := by
  refine decode_encodedData (fun _ => 0) ?_ ?_ _ (length_encodedData_timeStamp _) rfl _
  · simp [TimeStamp, Fields.Distinct, Fields.keys, FieldInfo.declared]
  · simp [TimeStamp, Fields.All, FieldInfo.declared]

end FromProtoVisitor

end Cluon
