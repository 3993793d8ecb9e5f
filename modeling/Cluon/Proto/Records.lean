import Cluon.Proto.Reading

/-!
# Sequences of records

`Records` is a sequence of records in which the payloads for nested messages are taken
apart in turn. `Records.Encodes` relates it to the bytes of a stream, and
`Records.Matches` says that the wire types match the declared types of the fields.

A sequence of records can be put into a message in two ways. `Records.inject` processes
the records in order and lets each change the field it belongs to, as `decodeFrom(in, v)`
does (`decodeDirect_eq_inject`). `Fields.collect` goes through the fields and looks for
the first record of each, as `decodeFrom(in)` followed by `v.accept(decoder)` does
(`decodeTwoStage_eq_collect`).
-/

set_option autoImplicit false

namespace Cluon

open Library InputStream

/-- A sequence of records. The payload of a record is either kept as it is, or is the bytes of
further records. -/
inductive Records where
  | nil
  | scalar (fieldId : BitVec 32) (payload : ProtoAny) (rest : Records)
  | message (fieldId : BitVec 32) (nested : Records) (rest : Records)
  deriving DecidableEq, Repr

/-! ## Fields of a given identifier -/

namespace Fields

/-- The message with the first field of the given identifier changed. -/
def update (fieldId : BitVec 32) (onScalar : (t : ScalarType) → t.Value → t.Value)
    (onMessage : (fields : Fields) → fields.Values → fields.Values) :
    (fs : Fields) → fs.Values → fs.Values
  | .nil, v => v
  | .scalar field t rest, v =>
      if field.fieldIdentifier = fieldId then (onScalar t v.1, v.2)
      else (v.1, rest.update fieldId onScalar onMessage v.2)
  | .nested field _ fields rest, v =>
      if field.fieldIdentifier = fieldId then (onMessage fields v.1, v.2)
      else (v.1, rest.update fieldId onScalar onMessage v.2)

/-- Every field of the given identifier is a scalar of the wire type. -/
def AdmitsScalar (fieldId : BitVec 32) (protoType : ProtoConstants) : Fields → Prop
  | .nil => True
  | .scalar field t rest =>
      (field.fieldIdentifier = fieldId → protoType = t.protoType) ∧
        rest.AdmitsScalar fieldId protoType
  | .nested field _ _ rest =>
      field.fieldIdentifier ≠ fieldId ∧ rest.AdmitsScalar fieldId protoType

/-- Every field of the given identifier is a nested message whose fields satisfy the
condition. -/
def AdmitsMessage (fieldId : BitVec 32) (condition : Fields → Prop) : Fields → Prop
  | .nil => True
  | .scalar field _ rest =>
      field.fieldIdentifier ≠ fieldId ∧ rest.AdmitsMessage fieldId condition
  | .nested field _ fields rest =>
      (field.fieldIdentifier = fieldId → condition fields) ∧
        rest.AdmitsMessage fieldId condition

end Fields

/-! ## Records and bytes -/

namespace Records

/-- The bytes of a stream that consists of the given records, all of them complete. -/
inductive Encodes : Records → Bytes → Prop where
  | nil : Encodes .nil []
  | scalar {fieldId : BitVec 32} {payload : ProtoAny} {rest : Records} {bs more : Bytes} :
      IsRecord bs fieldId payload → Encodes rest more →
        Encodes (.scalar fieldId payload rest) (bs ++ more)
  | message {fieldId : BitVec 32} {nested rest : Records} {s bs more : Bytes} :
      Encodes nested s → IsRecord bs fieldId (.string s) → Encodes rest more →
        Encodes (.message fieldId nested rest) (bs ++ more)

/-- The wire types of the records match the declared types of the fields. Records of
undeclared identifiers match whatever they are. -/
def Matches : Records → Fields → Prop
  | .nil, _ => True
  | .scalar fieldId payload rest, fs =>
      fs.AdmitsScalar fieldId payload.protoType ∧ rest.Matches fs
  | .message fieldId nested rest, fs =>
      fs.AdmitsMessage fieldId (fun fields => nested.Matches fields) ∧ rest.Matches fs

/-- One sequence after another. -/
def append : Records → Records → Records
  | .nil, others => others
  | .scalar fieldId payload rest, others => .scalar fieldId payload (rest.append others)
  | .message fieldId nested rest, others => .message fieldId nested (rest.append others)

/-- The records of other identifiers. -/
def without (fieldId : BitVec 32) : Records → Records
  | .nil => .nil
  | .scalar id payload rest =>
      if id = fieldId then rest.without fieldId else .scalar id payload (rest.without fieldId)
  | .message id nested rest =>
      if id = fieldId then rest.without fieldId else .message id nested (rest.without fieldId)

/-- The payload of the first record of a scalar field. -/
def firstPayload (fieldId : BitVec 32) : Records → Option ProtoAny
  | .nil => none
  | .scalar id payload rest => if id = fieldId then some payload else rest.firstPayload fieldId
  | .message _ _ rest => rest.firstPayload fieldId

/-- The payload of the last record of a scalar field. -/
def lastPayload (fieldId : BitVec 32) : Records → Option ProtoAny
  | .nil => none
  | .scalar id payload rest =>
      (rest.lastPayload fieldId).or (if id = fieldId then some payload else none)
  | .message _ _ rest => rest.lastPayload fieldId

/-- The records in the payload of the first record of a nested message. -/
def firstNested (fieldId : BitVec 32) : Records → Records
  | .nil => .nil
  | .scalar _ _ rest => rest.firstNested fieldId
  | .message id nested rest => if id = fieldId then nested else rest.firstNested fieldId

/-- The records in the payloads of all records of a nested message, one payload after the
other. -/
def allNested (fieldId : BitVec 32) : Records → Records
  | .nil => .nil
  | .scalar _ _ rest => rest.allNested fieldId
  | .message id nested rest =>
      if id = fieldId then nested.append (rest.allNested fieldId) else rest.allNested fieldId

/-- The records put into a message in their order. -/
def inject : Records → (fs : Fields) → fs.Values → fs.Values
  | .nil, _, v => v
  | .scalar fieldId payload rest, fs, v =>
      rest.inject fs
        (fs.update fieldId (fun t w => (payload.castTo t).getD w) (fun _ w => w) v)
  | .message fieldId nested rest, fs, v =>
      rest.inject fs
        (fs.update fieldId (fun _ w => w) (fun fields w => nested.inject fields w) v)

end Records

/-- The value of a scalar field into which a payload, if there is one, is cast. -/
def ScalarType.afterPayload (t : ScalarType) (v : t.Value) (payload : Option ProtoAny) : t.Value :=
  (payload.bind (ProtoAny.castTo t)).getD v

/-- The message whose every field takes the payload of the first record of its identifier. -/
def Fields.collect : (fs : Fields) → Records → fs.Values → fs.Values
  | .nil, _, v => v
  | .scalar field t rest, rs, v =>
      (t.afterPayload v.1 (rs.firstPayload field.fieldIdentifier), rest.collect rs v.2)
  | .nested field _ fields rest, rs, v =>
      (fields.collect (rs.firstNested field.fieldIdentifier) v.1, rest.collect rs v.2)

/-! ### Lemmas on sequences of records -/

theorem Fields.collect_nil (fs : Fields) (v : fs.Values) : fs.collect .nil v = v := by
  induction fs with
  | nil => rfl
  | scalar field t rest ih => rw [Fields.collect, ih]; rfl
  | nested field info fields rest ihFields ih =>
      rw [Fields.collect, Records.firstNested, ihFields, ih]

namespace Records

theorem inject_append (rs others : Records) (fs : Fields) (v : fs.Values) :
    (rs.append others).inject fs v = others.inject fs (rs.inject fs v) := by
  induction rs generalizing v with
  | nil => rfl
  | scalar id payload rest ih => exact ih _
  | message id nested rest _ ih => exact ih _

theorem Matches.append {rs others : Records} {fs : Fields} (h : rs.Matches fs)
    (ho : others.Matches fs) : (rs.append others).Matches fs := by
  induction rs with
  | nil => exact ho
  | scalar id payload rest ih => exact ⟨h.1, ih h.2⟩
  | message id nested rest _ ih => exact ⟨h.1, ih h.2⟩

theorem Matches.without {rs : Records} {fs : Fields} (h : rs.Matches fs) (fieldId : BitVec 32) :
    (rs.without fieldId).Matches fs := by
  induction rs with
  | nil => exact h
  | scalar id payload rest ih =>
      rw [Records.without]
      split
      · exact ih h.2
      · exact ⟨h.1, ih h.2⟩
  | message id nested rest _ ih =>
      rw [Records.without]
      split
      · exact ih h.2
      · exact ⟨h.1, ih h.2⟩

theorem Matches.of_scalar {rs : Records} {field : FieldInfo} {t : ScalarType} {fs : Fields}
    (h : rs.Matches (.scalar field t fs)) : rs.Matches fs := by
  induction rs with
  | nil => exact h
  | scalar id payload rest ih => exact ⟨h.1.2, ih h.2⟩
  | message id nested rest _ ih => exact ⟨h.1.2, ih h.2⟩

theorem Matches.of_nested {rs : Records} {field : FieldInfo} {info : MessageInfo}
    {fields fs : Fields} (h : rs.Matches (.nested field info fields fs)) : rs.Matches fs := by
  induction rs with
  | nil => exact h
  | scalar id payload rest ih => exact ⟨h.1.2, ih h.2⟩
  | message id nested rest _ ih => exact ⟨h.1.2, ih h.2⟩

theorem Matches.allNested {rs : Records} {field : FieldInfo} {info : MessageInfo}
    {fields fs : Fields} (h : rs.Matches (.nested field info fields fs)) :
    (rs.allNested field.fieldIdentifier).Matches fields := by
  induction rs with
  | nil => trivial
  | scalar id payload rest ih => exact ih h.2
  | message id nested rest _ ih =>
      rw [Records.allNested]
      split
      case isTrue here => exact (h.1.1 here.symm).append (ih h.2)
      case isFalse => exact ih h.2

/-- The last payload of a matching sequence can be cast to the type of the field. -/
theorem Matches.castTo_lastPayload {rs : Records} {field : FieldInfo} {t : ScalarType}
    {fs : Fields} (h : rs.Matches (.scalar field t fs)) {payload : ProtoAny}
    (last : rs.lastPayload field.fieldIdentifier = some payload) :
    (payload.castTo t).isSome := by
  induction rs with
  | nil => cases last
  | scalar id p rest ih =>
      rw [Records.lastPayload, Option.or_eq_some_iff] at last
      rcases last with later | ⟨_, here⟩
      · exact ih h.2 later
      · rw [Option.ite_none_right_eq_some] at here
        obtain ⟨same, samePayload⟩ := here
        cases samePayload
        exact (ProtoAny.castTo_isSome t payload).mpr (h.1.1 same.symm)
  | message id nested rest _ ih => exact ih h.2 last

/-- Injecting into a scalar field keeps the last of its payloads. -/
theorem inject_scalar {rs : Records} {field : FieldInfo} {t : ScalarType} {fs : Fields}
    (h : rs.Matches (.scalar field t fs)) (v : (Fields.scalar field t fs).Values) :
    rs.inject (.scalar field t fs) v =
      (t.afterPayload v.1 (rs.lastPayload field.fieldIdentifier),
        (rs.without field.fieldIdentifier).inject fs v.2) := by
  induction rs generalizing v with
  | nil => rfl
  | scalar id p rest ih =>
      rw [inject, ih h.2, Fields.update, lastPayload, Records.without]
      by_cases here : field.fieldIdentifier = id
      · rw [if_pos here, if_pos here.symm, if_pos here.symm]
        cases last : rest.lastPayload field.fieldIdentifier with
        | none => rfl
        | some q =>
            obtain ⟨w, hw⟩ := Option.isSome_iff_exists.mp (h.2.castTo_lastPayload last)
            simp [ScalarType.afterPayload, hw]
      · rw [if_neg here, if_neg fun h => here h.symm, if_neg fun h => here h.symm, Option.or_none]
        rfl
  | message id nested rest _ ih =>
      rw [inject, ih h.2, Fields.update, lastPayload, Records.without, if_neg h.1.1,
        if_neg fun h' => h.1.1 h'.symm]
      rfl

/-- Injecting into a nested message injects the records of all its payloads. -/
theorem inject_nested {rs : Records} {field : FieldInfo} {info : MessageInfo}
    {fields fs : Fields} (h : rs.Matches (.nested field info fields fs))
    (v : (Fields.nested field info fields fs).Values) :
    rs.inject (.nested field info fields fs) v =
      ((rs.allNested field.fieldIdentifier).inject fields v.1,
        (rs.without field.fieldIdentifier).inject fs v.2) := by
  induction rs generalizing v with
  | nil => rfl
  | scalar id p rest ih =>
      rw [inject, ih h.2, Fields.update, Records.allNested, Records.without, if_neg h.1.1,
        if_neg fun h' => h.1.1 h'.symm]
      rfl
  | message id nested rest _ ih =>
      rw [inject, ih h.2, Fields.update, Records.allNested, Records.without]
      by_cases here : field.fieldIdentifier = id
      · rw [if_pos here, if_pos here.symm, if_pos here.symm, inject_append]
      · rw [if_neg here, if_neg fun h => here h.symm, if_neg fun h => here h.symm]
        rfl

end Records

/-! ## The direct injection -/

namespace FromProtoVisitor

variable (uninit : Nat → Byte)

theorem visit_eq (field : FieldInfo) (t : ScalarType) (v : t.Value) (d : FromProtoVisitor) :
    (visitor uninit).visit field t v d = (visit uninit field t v d, d) := rfl

theorem visitMessage_eq {α : Type} (field : FieldInfo) (obj : Visitable FromProtoVisitor α)
    (v : α) (d : FromProtoVisitor) :
    (visitor uninit).visitMessage field obj v d = (visitMessage uninit field obj v d, d) := rfl

theorem acceptAll_eq {α : Type} (info : MessageInfo)
    (visitFields : α → FromProtoVisitor → α × FromProtoVisitor) (v : α) (d : FromProtoVisitor) :
    acceptAll (visitor uninit) info visitFields v d = visitFields v d := rfl

variable {uninit}

/-- A decoder in a direct injection that has read the given payload. -/
structure Injects (uninit : Nat → Byte) (payload : ProtoAny) (d : FromProtoVisitor) : Prop where
  flag : d.callToDecodeFromWithDirectVisit = true
  member_eq : d.member uninit payload.protoType = payload

theorem acceptField_scalar {payload : ProtoAny} {d : FromProtoVisitor}
    (injects : Injects uninit payload d) {fieldId : BitVec 32} (fs : Fields)
    (admits : fs.AdmitsScalar fieldId payload.protoType) (v : fs.Values) :
    (fs.visitable (visitor uninit)).acceptField fieldId v d =
      (fs.update fieldId (fun t w => (payload.castTo t).getD w) (fun _ w => w) v, d) := by
  induction fs with
  | nil => rfl
  | scalar field t rest ih =>
      rw [Fields.acceptField_scalar, Fields.update]
      by_cases here : field.fieldIdentifier = fieldId
      · simp only [if_pos here, visit_eq, visit, injects.flag, if_true, ← admits.1 here,
          injects.member_eq]
      · simp only [if_neg here, ih admits.2]
  | nested field info fields rest _ ih =>
      rw [Fields.acceptField_nested, Fields.update]
      simp only [if_neg admits.1, ih admits.2]

theorem acceptField_message {s : Bytes} {d : FromProtoVisitor}
    (injects : Injects uninit (.string s) d) {fieldId : BitVec 32} {condition : Fields → Prop}
    {onMessage : (fields : Fields) → fields.Values → fields.Values}
    (decodes : ∀ (info : MessageInfo) (fields : Fields) (w : fields.Values), condition fields →
      (decodeFromInto ((MessageType.mk info fields).visitable (visitor uninit)) init
        (ofBytes s) w).1.1 = onMessage fields w)
    (fs : Fields) (admits : fs.AdmitsMessage fieldId condition) (v : fs.Values) :
    (fs.visitable (visitor uninit)).acceptField fieldId v d =
      (fs.update fieldId (fun _ w => w) onMessage v, d) := by
  induction fs with
  | nil => rfl
  | scalar field t rest ih =>
      rw [Fields.acceptField_scalar, Fields.update]
      simp only [if_neg admits.1, ih admits.2]
  | nested field info fields rest _ ih =>
      rw [Fields.acceptField_nested, Fields.update]
      by_cases here : field.fieldIdentifier = fieldId
      · have bytes : d.stringValue.str uninit d.value.toNat = s :=
          ProtoAny.string.inj injects.member_eq
        simp only [if_pos here, visitMessage_eq, visitMessage, injects.flag, if_true, bytes,
          decodes info fields v.1 (admits.1 here)]
      · simp only [if_neg here, ih admits.2]

/-- The loop of the direct injection on complete records injects them in their order. -/
theorem whileGood_decodeFromIntoBody {rs : Records} {bytes : Bytes} (encodes : rs.Encodes bytes) :
    ∀ (T : MessageType) (v : T.Values) (d : FromProtoVisitor) (is : InputStream),
      rs.Matches T.fields → d.callToDecodeFromWithDirectVisit = true → is.good →
        is.rest = bytes →
      (whileGood (decodeFromIntoBody (T.visitable (visitor uninit))) (v, d) is).1.1 =
        rs.inject T.fields v := by
  induction encodes with
  | nil =>
      intro T v d is _ _ hg hr
      have round : decodeFromIntoBody (T.visitable (visitor uninit)) (v, d) is =
          (true, (v, d), is.exhausted) := by
        simp only [decodeFromIntoBody, readRecord_nil d hg hr]
      rw [whileGood_again (consumes_decodeFromIntoBody _) hg round,
        whileGood_spoiled _ _ (good_exhausted is)]
      rfl
  | @scalar fieldId payload rest bs more isRecord _ ih =>
      intro T v d is hm flag hg hr
      obtain ⟨d', hread, hasRead⟩ := readRecord_append uninit isRecord d hg hr
      have injects : Injects uninit payload d' := ⟨hasRead.flag_eq.trans flag, hasRead.member_eq⟩
      have round : decodeFromIntoBody (T.visitable (visitor uninit)) (v, d) is =
          (true, (T.fields.update fieldId (fun t w => (payload.castTo t).getD w)
            (fun _ w => w) v, d'), is.advance bs.length) := by
        simp only [decodeFromIntoBody, hread, MessageType.acceptField_eq,
          acceptField_scalar injects T.fields hm.1]
      rw [whileGood_again (consumes_decodeFromIntoBody _) hg round]
      exact ih T _ d' _ hm.2 injects.flag (by simpa using hg) (rest_advance_append hr)
  | @message fieldId nested rest s bs more _ isRecord _ ihNested ih =>
      intro T v d is hm flag hg hr
      obtain ⟨d', hread, hasRead⟩ := readRecord_append uninit isRecord d hg hr
      have injects : Injects uninit (.string s) d' :=
        ⟨hasRead.flag_eq.trans flag, hasRead.member_eq⟩
      have decodes : ∀ (info : MessageInfo) (fields : Fields) (w : fields.Values),
          nested.Matches fields →
          (decodeFromInto ((MessageType.mk info fields).visitable (visitor uninit)) init
            (ofBytes s) w).1.1 = nested.inject fields w := by
        intro info fields w matched
        rw [decodeFromInto]
        exact ihNested ⟨info, fields⟩ w _ _ matched rfl (good_ofBytes s) (rest_ofBytes s)
      have round : decodeFromIntoBody (T.visitable (visitor uninit)) (v, d) is =
          (true, (T.fields.update fieldId (fun _ w => w) (fun fields w => nested.inject fields w) v,
            d'), is.advance bs.length) := by
        simp only [decodeFromIntoBody, hread, MessageType.acceptField_eq,
          acceptField_message injects decodes T.fields hm.1]
      rw [whileGood_again (consumes_decodeFromIntoBody _) hg round]
      exact ih T _ d' _ hm.2 injects.flag (by simpa using hg) (rest_advance_append hr)

/-- **The direct injection puts complete records into the message in their order.** -/
theorem decodeDirect_eq_inject {T : MessageType} {rs : Records} {bytes : Bytes}
    (encodes : rs.Encodes bytes) (hm : rs.Matches T.fields) (d : FromProtoVisitor)
    (v : T.Values) : decodeDirect uninit T d bytes v = rs.inject T.fields v := by
  rw [decodeDirect, decodeFromInto]
  exact whileGood_decodeFromIntoBody encodes T v _ _ hm rfl (good_ofBytes bytes)
    (rest_ofBytes bytes)

/-! ## The two stages -/

/-- What the map of a decoder holds for an identifier is the payload of its first record. -/
def Heads (fieldId : BitVec 32) : Records → Option ProtoAny → Prop
  | .nil, found => found = none
  | .scalar id payload rest, found =>
      if id = fieldId then found = some payload else Heads fieldId rest found
  | .message id nested rest, found =>
      if id = fieldId then ∃ s, nested.Encodes s ∧ found = some (.string s)
      else Heads fieldId rest found

/-- The map of a decoder finds for every identifier an earlier value, or else the payload of
the first record of the sequence. -/
def Collected (earlier map : KeyValueMap (BitVec 32) ProtoAny) (rs : Records) : Prop :=
  ∀ fieldId, match earlier.find fieldId with
    | some payload => map.find fieldId = some payload
    | none => Heads fieldId rs (map.find fieldId)

/-- A record whose payload is emplaced before the rest is collected. -/
theorem Collected.cons {earlier map : KeyValueMap (BitVec 32) ProtoAny} {id : BitVec 32}
    {payload : ProtoAny} {r rest : Records} (here : Heads id r (some payload))
    (later : ∀ fieldId found, id ≠ fieldId → Heads fieldId rest found → Heads fieldId r found)
    (collected : Collected (earlier.emplace id payload).1 map rest) : Collected earlier map r := by
  intro fieldId
  have found := collected fieldId
  rw [KeyValueMap.find_emplace] at found
  by_cases same : id = fieldId
  · subst same
    rw [if_pos rfl] at found
    cases he : earlier.find id with
    | none =>
        rw [he] at found
        rw [show map.find id = some payload from found]
        exact here
    | some q =>
        rw [he] at found
        exact found
  · rw [if_neg same] at found
    cases he : earlier.find fieldId with
    | none =>
        rw [he] at found
        exact later fieldId _ same found
    | some q =>
        rw [he] at found
        exact found

variable (uninit) in
theorem decodeFromBody_read {d d' : FromProtoVisitor} {is is' : InputStream} {id : BitVec 32}
    {payload : ProtoAny}
    (hread : d.readRecord is = (some (payload.protoType, id), d', is'))
    (hasRead : HasRead uninit payload d d') :
    decodeFromBody uninit d is =
      (true, { d' with mapOfKeyValues := (d.mapOfKeyValues.emplace id payload).1 }, is') := by
  simp only [decodeFromBody, hread, hasRead.member_eq, hasRead.map_eq]

variable (uninit) in
/-- The loop of the first stage on complete records collects the first record of each
identifier. -/
theorem whileGood_decodeFromBody {rs : Records} {bytes : Bytes} (encodes : rs.Encodes bytes) :
    ∀ (d : FromProtoVisitor) (is : InputStream), is.good → is.rest = bytes →
      Collected d.mapOfKeyValues (whileGood (decodeFromBody uninit) d is).1.mapOfKeyValues rs ∧
        (whileGood (decodeFromBody uninit) d is).1.callToDecodeFromWithDirectVisit =
          d.callToDecodeFromWithDirectVisit := by
  induction encodes with
  | nil =>
      intro d is hg hr
      have round : decodeFromBody uninit d is = (true, d, is.exhausted) := by
        simp only [decodeFromBody, readRecord_nil d hg hr]
      rw [whileGood_again (consumes_decodeFromBody uninit) hg round,
        whileGood_spoiled _ _ (good_exhausted is)]
      refine ⟨fun fieldId => ?_, rfl⟩
      cases hf : d.mapOfKeyValues.find fieldId <;> rfl
  | @scalar id payload rest bs more isRecord _ ih =>
      intro d is hg hr
      obtain ⟨d', hread, hasRead⟩ := readRecord_append uninit isRecord d hg hr
      have round := decodeFromBody_read uninit hread hasRead
      rw [whileGood_again (consumes_decodeFromBody uninit) hg round]
      obtain ⟨collected, flag⟩ := ih _ _ (by simpa using hg) (rest_advance_append hr)
      refine ⟨.cons (by simp [Heads]) ?_ collected, flag.trans hasRead.flag_eq⟩
      intro fieldId found other heads
      rwa [Heads, if_neg other]
  | @message id nested rest s bs more nestedEncodes isRecord _ _ ih =>
      intro d is hg hr
      obtain ⟨d', hread, hasRead⟩ := readRecord_append uninit isRecord d hg hr
      have round := decodeFromBody_read uninit hread hasRead
      rw [whileGood_again (consumes_decodeFromBody uninit) hg round]
      obtain ⟨collected, flag⟩ := ih _ _ (by simpa using hg) (rest_advance_append hr)
      refine ⟨.cons ?_ ?_ collected, flag.trans hasRead.flag_eq⟩
      · rw [Heads, if_pos rfl]
        exact ⟨s, nestedEncodes, rfl⟩
      · intro fieldId found other heads
        rwa [Heads, if_neg other]

theorem heads_scalar {rs : Records} {field : FieldInfo} {t : ScalarType} {fs : Fields}
    (h : rs.Matches (.scalar field t fs)) {found : Option ProtoAny}
    (heads : Heads field.fieldIdentifier rs found) :
    found = rs.firstPayload field.fieldIdentifier := by
  induction rs with
  | nil => exact heads
  | scalar id payload rest ih =>
      rw [Heads] at heads
      rw [Records.firstPayload]
      split
      case isTrue here => rwa [if_pos here] at heads
      case isFalse other =>
          rw [if_neg other] at heads
          exact ih h.2 heads
  | message id nested rest _ ih =>
      rw [Heads, if_neg fun h' => h.1.1 h'.symm] at heads
      exact ih h.2 heads

theorem heads_nested {rs : Records} {field : FieldInfo} {info : MessageInfo}
    {fields fs : Fields} (h : rs.Matches (.nested field info fields fs))
    {found : Option ProtoAny} (heads : Heads field.fieldIdentifier rs found) :
    (found = none ∧ rs.firstNested field.fieldIdentifier = .nil) ∨
      ∃ s, found = some (.string s) ∧ (rs.firstNested field.fieldIdentifier).Encodes s ∧
        (rs.firstNested field.fieldIdentifier).Matches fields := by
  induction rs with
  | nil => exact .inl ⟨heads, rfl⟩
  | scalar id payload rest ih =>
      rw [Heads, if_neg fun h' => h.1.1 h'.symm] at heads
      exact ih h.2 heads
  | message id nested rest _ ih =>
      rw [Heads] at heads
      rw [Records.firstNested]
      split
      case isTrue here =>
          rw [if_pos here] at heads
          obtain ⟨s, encodes, hf⟩ := heads
          exact .inr ⟨s, hf, encodes, h.1.1 here.symm⟩
      case isFalse other =>
          rw [if_neg other] at heads
          exact ih h.2 heads

/-- A message that accepts a decoder takes the first records it collected. -/
theorem accept_eq_collect (fs : Fields) :
    ∀ {rs : Records}, rs.Matches fs → ∀ {d : FromProtoVisitor},
      d.callToDecodeFromWithDirectVisit = false → Collected [] d.mapOfKeyValues rs →
      ∀ v : fs.Values, (fs.visitable (visitor uninit)).accept v d = (fs.collect rs v, d) := by
  induction fs with
  | nil => intros; rfl
  | scalar field t rest ih =>
      intro rs hm d flag collected v
      have found := heads_scalar hm (collected field.fieldIdentifier)
      rw [Fields.accept_scalar, Fields.collect]
      simp only [visit_eq, visit, flag, Bool.false_eq_true, if_false, found,
        ih hm.of_scalar flag collected]
      cases rs.firstPayload field.fieldIdentifier <;> rfl
  | nested field info fields rest ihFields ih =>
      intro rs hm d flag collected v
      rw [Fields.accept_nested, Fields.collect]
      simp only [visitMessage_eq, visitMessage, flag, Bool.false_eq_true, if_false,
        ih hm.of_nested flag collected]
      rcases heads_nested hm (collected field.fieldIdentifier) with
        ⟨absent, noRecords⟩ | ⟨s, found, encodes, matched⟩
      · rw [absent, noRecords, Fields.collect_nil]
      · obtain ⟨nestedCollected, nestedFlag⟩ := whileGood_decodeFromBody uninit encodes
          init (ofBytes s) (good_ofBytes s) (rest_ofBytes s)
        rw [found]
        simp only [MessageType.accept_eq, acceptAll_eq]
        rw [show (decodeFrom uninit init (ofBytes s)).1 =
          (whileGood (decodeFromBody uninit) init (ofBytes s)).1 from rfl,
          ihFields matched nestedFlag nestedCollected]

/-- **The two stages put the first record of each identifier into the message.** -/
theorem decodeTwoStage_eq_collect {T : MessageType} {rs : Records} {bytes : Bytes}
    (encodes : rs.Encodes bytes) (hm : rs.Matches T.fields) {d : FromProtoVisitor}
    (flag : d.callToDecodeFromWithDirectVisit = false) (v : T.Values) :
    decodeTwoStage uninit T d bytes v = T.fields.collect rs v := by
  obtain ⟨collected, sameFlag⟩ := whileGood_decodeFromBody uninit encodes
    { d with mapOfKeyValues := [] } (ofBytes bytes) (good_ofBytes bytes) (rest_ofBytes bytes)
  rw [decodeTwoStage, MessageType.accept_eq, acceptAll_eq, decodeFrom,
    accept_eq_collect T.fields hm (sameFlag.trans flag) collected]

end FromProtoVisitor

end Cluon
