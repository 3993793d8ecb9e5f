import Cluon.Generic.GenericMessage
import Cluon.Message.Simulation
import Cluon.Proto.RoundTrip

/-!
# The generic path and the compiled path

A generic message represents a message of a compiled type if its specification has the same
fields and its map holds the same values (`Fields.Represents`). A uniform visitor cannot tell
them apart (`simulates_visitable`), and both Proto visitors are uniform. What `createFrom`
makes of a specification represents the message with the initial values
(`createFrom_represents`). So a generic message that is filled from the bytes of a message
gives the same bytes again (`encodedData_generic`).
-/

set_option autoImplicit false

namespace Cluon

open Library InputStream

/-! ## Representation -/

/-- The fields of a specification and a map hold the values of a message. -/
def Fields.Represents : (fs : Fields) → (n : Nat) → List MetaField →
    KeyValueMap (BitVec 32) (LinbAny (GenericMessage n)) → fs.Values → Prop
  | .nil, _, fields, _, _ => fields = []
  | .scalar field t rest, n, fields, data, m =>
      ∃ f fs, fields = f :: fs ∧ f.fieldIdentifier = field.fieldIdentifier ∧
        f.fieldDataType = .scalar t ∧
        data.find field.fieldIdentifier = some (.ofScalar t m.1) ∧
        rest.Represents n fs data m.2
  | .nested _ _ _ _, 0, _, _, _ => False
  | .nested field _ inner rest, n + 1, fields, data, m =>
      ∃ f fs, ∃ gm : GenericMessage (n + 1), fields = f :: fs ∧
        f.fieldIdentifier = field.fieldIdentifier ∧ f.fieldDataType = .message ∧
        data.find field.fieldIdentifier = some (.message gm) ∧
        inner.Represents n gm.metaMessage.listOfMetaFields gm.intermediateDataRepresentation m.1 ∧
        rest.Represents (n + 1) fs data m.2

namespace Fields

/-- The identifiers of the fields of a message. -/
abbrev identifiers (fs : Fields) : List (BitVec 32) := fs.keys FieldInfo.fieldIdentifier

/-- Only the values of the fields matter. -/
theorem Represents.congr {n : Nat} {data data' : KeyValueMap (BitVec 32) (LinbAny (GenericMessage n))}
    (fs : Fields) (same : ∀ k ∈ fs.identifiers, data'.find k = data.find k) :
    ∀ {fields : List MetaField} {m : fs.Values},
      fs.Represents n fields data m → fs.Represents n fields data' m := by
  induction fs with
  | nil => intro _ _ h; exact h
  | scalar field t rest ih =>
      rintro fields m ⟨f, fs, rfl, id, type, value, others⟩
      refine ⟨f, fs, rfl, id, type, ?_, ih (fun k hk => same k ?_) others⟩
      · rw [same _ List.mem_cons_self, value]
      · exact List.mem_cons_of_mem _ hk
  | nested field info inner rest _ ih =>
      intro fields m h
      cases n with
      | zero => exact h
      | succ n =>
          obtain ⟨f, fs, gm, rfl, id, type, value, held, others⟩ := h
          refine ⟨f, fs, gm, rfl, id, type, ?_, held, ih (fun k hk => same k ?_) others⟩
          · rw [same _ List.mem_cons_self, value]
          · exact List.mem_cons_of_mem _ hk

/-- Assigning the value of another field. -/
theorem Represents.assign {n : Nat} {data : KeyValueMap (BitVec 32) (LinbAny (GenericMessage n))}
    {fs : Fields} {fields : List MetaField} {m : fs.Values}
    (h : fs.Represents n fields data m) {k : BitVec 32} (other : k ∉ fs.identifiers)
    (any : LinbAny (GenericMessage n)) : fs.Represents n fields (data.assign k any) m := by
  refine Represents.congr fs (fun j hj => ?_) h
  rw [KeyValueMap.find_assign, if_neg]
  rintro rfl
  exact other hj

theorem Represents.identifiers_eq {n : Nat} (fs : Fields) :
    ∀ {fields : List MetaField} {data : KeyValueMap (BitVec 32) (LinbAny (GenericMessage n))}
      {m : fs.Values}, fs.Represents n fields data m →
        fields.map MetaField.fieldIdentifier = fs.identifiers := by
  induction fs with
  | nil => rintro _ _ _ rfl; rfl
  | scalar field t rest ih =>
      rintro fields data m ⟨f, fs, rfl, id, _, _, others⟩
      rw [List.map_cons, id, ih others]
      rfl
  | nested field info inner rest _ ih =>
      intro fields data m h
      cases n with
      | zero => exact h.elim
      | succ n =>
          obtain ⟨f, fs, _, rfl, id, _, _, _, others⟩ := h
          rw [List.map_cons, id, ih others]
          rfl

end Fields

/-! ## Visits -/

namespace GenericMessage

variable {σ : Type} (V : Visitor σ)

section Fields

variable {α : Type} (nested : Visitable σ α)
  {data : KeyValueMap (BitVec 32) (LinbAny α)}

theorem visitField_scalar {f : MetaField} {t : ScalarType} (type : f.fieldDataType = .scalar t)
    {v : t.Value} (value : data.find f.fieldIdentifier = some (.ofScalar t v)) (s : σ) :
    visitField V nested f data s =
      (data.assign f.fieldIdentifier (.ofScalar t (V.visit f.info t v s).1),
        (V.visit f.info t v s).2) := by
  simp only [visitField, type, value, Option.bind_some, LinbAny.castTo_ofScalar]

theorem visitField_message {f : MetaField} (type : f.fieldDataType = .message) {gm : α}
    (value : data.find f.fieldIdentifier = some (.message gm)) (s : σ) :
    visitField V nested f data s =
      (data.assign f.fieldIdentifier (.message (V.visitMessage f.info nested gm s).1),
        (V.visitMessage f.info nested gm s).2) := by
  simp only [visitField, type, value, Option.bind_some, LinbAny.castToMessage]

/-- A visit changes the value of its field only. -/
theorem find_visitField {f : MetaField} {k : BitVec 32} (other : k ≠ f.fieldIdentifier) (s : σ) :
    (visitField V nested f data s).1.find k = data.find k := by
  rw [visitField]
  split
  · split
    · exact (KeyValueMap.find_assign _ _ _ _).trans (if_neg (Ne.symm other))
    · rfl
  · split
    · exact (KeyValueMap.find_assign _ _ _ _).trans (if_neg (Ne.symm other))
    · rfl
  · rfl

theorem find_visitFields {k : BitVec 32} (fs : List MetaField) :
    k ∉ fs.map MetaField.fieldIdentifier →
      ∀ (data : KeyValueMap (BitVec 32) (LinbAny α)) (s : σ),
        (visitFields V nested fs data s).1.find k = data.find k := by
  induction fs with
  | nil => intro _ _ _; rfl
  | cons f fs ih =>
      intro other data s
      rw [List.map_cons, List.mem_cons, not_or] at other
      rw [visitFields, ih other.2, find_visitField V nested other.1]

theorem find_visitFirst {k fieldId : BitVec 32} (s : σ) (fs : List MetaField) :
    k ∉ fs.map MetaField.fieldIdentifier →
      (visitFirst V nested fieldId fs data s).1.find k = data.find k := by
  induction fs with
  | nil => intro _; rfl
  | cons f fs ih =>
      intro other
      rw [List.map_cons, List.mem_cons, not_or] at other
      rw [visitFirst]
      split
      · exact find_visitField V nested other.1 s
      · exact ih other.2

end Fields

variable {V}

theorem acceptAround_eq (uniform : V.Uniform) {α : Type}
    (visit : List MetaField → KeyValueMap (BitVec 32) (LinbAny α) → σ →
      KeyValueMap (BitVec 32) (LinbAny α) × σ) (gm : GenericMessageOf α) (s : σ) :
    acceptAround V visit gm s =
      let visited := visit gm.metaMessage.listOfMetaFields gm.intermediateDataRepresentation s
      ({ gm with intermediateDataRepresentation := visited.1 }, visited.2) :=
  uniform.acceptAll_eq _ _ _ _

/-- A generic message represents a message. -/
def Holds (fs : Fields) {n : Nat} (gm : GenericMessage (n + 1)) (m : fs.Values) : Prop :=
  fs.Represents n gm.metaMessage.listOfMetaFields gm.intermediateDataRepresentation m

/-- The visits of the fields of a specification and of those of a message type are the same. -/
def VisitsAlike (V : Visitor σ) (fs : Fields) : Prop :=
  ∀ {n : Nat} {fields : List MetaField}
    {data : KeyValueMap (BitVec 32) (LinbAny (GenericMessage n))} {m : fs.Values},
    fs.Represents n fields data m → ∀ s,
    (fs.Represents n fields (visitFields V (visitable V n) fields data s).1
        ((fs.visitable V).accept m s).1 ∧
      (visitFields V (visitable V n) fields data s).2 = ((fs.visitable V).accept m s).2) ∧
    ∀ fieldId, fs.Represents n fields (visitFirst V (visitable V n) fieldId fields data s).1
        ((fs.visitable V).acceptField fieldId m s).1 ∧
      (visitFirst V (visitable V n) fieldId fields data s).2 =
        ((fs.visitable V).acceptField fieldId m s).2

theorem simulates_visitable (uniform : V.Uniform) {fs : Fields} (alike : VisitsAlike V fs)
    (info : MessageInfo) (n : Nat) :
    (visitable V (n + 1)).Simulates (Holds fs) ((MessageType.mk info fs).visitable V) where
  accept := by
    intro gm m holds s
    rw [MessageType.accept_eq, uniform.acceptAll_eq]
    have visited := acceptAround_eq uniform (visitFields V (visitable V n)) gm s
    simp only [visitable, visited]
    exact (alike holds s).1
  acceptField := by
    intro gm m holds fieldId s
    rw [MessageType.acceptField_eq]
    have visited := acceptAround_eq uniform (visitFirst V (visitable V n) fieldId) gm s
    simp only [visitable, visited]
    exact (alike holds s).2 fieldId

/-- **A uniform visitor cannot tell a generic message from one of a compiled type.** -/
theorem visitsAlike (uniform : V.Uniform) (fs : Fields) :
    fs.DistinctIdentifiers → VisitsAlike V fs := by
  induction fs with
  | nil =>
      rintro _ n _ data m rfl s
      exact ⟨⟨rfl, rfl⟩, fun _ => ⟨rfl, rfl⟩⟩
  | scalar field t rest ih =>
      rintro ⟨new, distinct⟩ n _ data m ⟨f, fs, rfl, id, type, value, others⟩ s
      have visited := visitField_scalar V (visitable V n) type (id ▸ value) s
      rw [@Visitor.Uniform.visit_eq _ _ uniform f.info field id, id] at visited
      have unvisited : field.fieldIdentifier ∉ fs.map MetaField.fieldIdentifier := by
        rw [others.identifiers_eq]
        exact new
      have others' (any) := others.assign new any
      constructor
      · obtain ⟨⟨represents, same⟩, _⟩ := ih distinct
          (others' (.ofScalar t (V.visit field t m.1 s).1)) (V.visit field t m.1 s).2
        rw [visitFields, visited, Fields.accept_scalar]
        refine ⟨⟨f, fs, rfl, id, type, ?_, represents⟩, same⟩
        rw [find_visitFields V _ fs unvisited, KeyValueMap.find_assign, if_pos rfl]
      · intro fieldId
        rw [visitFirst, visited, Fields.acceptField_scalar, id]
        by_cases this : field.fieldIdentifier = fieldId
        · rw [if_pos this, if_pos this.symm]
          refine ⟨⟨f, fs, rfl, id, type, ?_, others' _⟩, rfl⟩
          rw [KeyValueMap.find_assign, if_pos rfl]
        · rw [if_neg this, if_neg (Ne.symm this)]
          obtain ⟨_, first⟩ := ih distinct others s
          obtain ⟨represents, same⟩ := first fieldId
          refine ⟨⟨f, fs, rfl, id, type, ?_, represents⟩, same⟩
          rw [find_visitFirst V _ s fs unvisited, value]
  | nested field info inner rest ihInner ih =>
      rintro ⟨new, distinctInner, distinct⟩ n fields data m represents s
      cases n with
      | zero => exact represents.elim
      | succ n =>
          obtain ⟨f, fs, gm, rfl, id, type, value, held, others⟩ := represents
          have simulates := simulates_visitable uniform (ihInner distinctInner) info n
          have visited := visitField_message V (visitable V (n + 1)) type (id ▸ value) s
          have alike : f.info.fieldIdentifier = field.fieldIdentifier := id
          obtain ⟨stillHeld, same₁⟩ := uniform.visitMessage_simulates simulates alike held s
          have unvisited : field.fieldIdentifier ∉ fs.map MetaField.fieldIdentifier := by
            rw [others.identifiers_eq]
            exact new
          have others' (any) := others.assign new any
          rw [id] at visited
          constructor
          · obtain ⟨⟨represents, same₂⟩, _⟩ := ih distinct
              (others' (.message (V.visitMessage f.info (visitable V (n + 1)) gm s).1))
              (V.visitMessage f.info (visitable V (n + 1)) gm s).2
            rw [visitFields, visited, Fields.accept_nested]
            simp only [← same₁]
            refine ⟨⟨f, fs, _, rfl, id, type, ?_, stillHeld, represents⟩, same₂⟩
            rw [find_visitFields V _ fs unvisited, KeyValueMap.find_assign, if_pos rfl]
          · intro fieldId
            rw [visitFirst, visited, Fields.acceptField_nested, id]
            by_cases this : field.fieldIdentifier = fieldId
            · rw [if_pos this, if_pos this.symm]
              refine ⟨⟨f, fs, _, rfl, id, type, ?_, stillHeld, others' _⟩, same₁⟩
              rw [KeyValueMap.find_assign, if_pos rfl]
            · rw [if_neg this, if_neg (Ne.symm this)]
              obtain ⟨_, first⟩ := ih distinct others s
              obtain ⟨represents, same⟩ := first fieldId
              refine ⟨⟨f, fs, gm, rfl, id, type, ?_, held, represents⟩, same⟩
              rw [find_visitFirst V _ s fs unvisited, value]

end GenericMessage

/-! ## Creation -/

/-- The message with the values with which a generic message begins: zeros and empty strings. A
message of a generated class begins with the default values of its specification, if it has some. -/
def Fields.initial : (fs : Fields) → fs.Values
  | .nil => ()
  | .scalar _ t rest => (t.initial, rest.initial)
  | .nested _ _ inner rest => (inner.initial, rest.initial)

namespace GenericMessage

/-- The loop of `createFrom(mm, mms)` ends if there is room for the nested messages, and gives
every field its initial value. -/
theorem createFields_represents (mms : List MetaMessage) (fs : Fields) :
    fs.DistinctIdentifiers → ∀ {n : Nat} {fields : List MetaField},
      fs.Describes (mapForScopeOfMetaMessages mms) fields → fs.depth ≤ n →
      ∀ before : KeyValueMap (BitVec 32) (LinbAny (GenericMessage n)), ∃ data,
        fields.foldlM (createField (mapForScopeOfMetaMessages mms) (createFrom mms n)) before =
          some data ∧
        fs.Represents n fields data fs.initial ∧
        ∀ k ∉ fs.identifiers, data.find k = before.find k := by
  induction fs with
  | nil =>
      rintro _ n _ rfl _ before
      exact ⟨before, rfl, rfl, fun _ _ => rfl⟩
  | scalar field t rest ih =>
      rintro ⟨new, distinct⟩ n _ ⟨f, fs, rfl, id, type, described⟩ deep before
      obtain ⟨data, created, represents, frame⟩ :=
        ih distinct described deep (before.assign f.fieldIdentifier (.ofScalar t t.initial))
      refine ⟨data, ?_, ⟨f, fs, rfl, id, type, ?_, represents⟩, fun k other => ?_⟩
      · rw [List.foldlM_cons, createField, type]
        exact created
      · rw [frame _ new, KeyValueMap.find_assign, if_pos id]
        rfl
      · rw [Fields.identifiers, Fields.keys, List.mem_cons, not_or] at other
        rw [frame k other.2, KeyValueMap.find_assign, if_neg (id ▸ Ne.symm other.1)]
  | nested field info inner rest ihInner ih =>
      rintro ⟨new, distinctInner, distinct⟩ n _
        ⟨f, fs, mm, rfl, id, type, found, describedInner, described⟩ deep before
      obtain ⟨deepInner, deep⟩ := max_le_iff.mp deep
      obtain ⟨n, rfl⟩ : ∃ n', n = n' + 1 := ⟨n - 1, by omega⟩
      obtain ⟨inside, createdInner, representsInner, _⟩ :=
        ihInner distinctInner describedInner (Nat.le_of_succ_le_succ deepInner) []
      obtain ⟨data, created, represents, frame⟩ := ih distinct described deep
        (before.assign f.fieldIdentifier (.message ⟨mm, inside⟩))
      refine ⟨data, ?_, ⟨f, fs, ⟨mm, inside⟩, rfl, id, type, ?_, representsInner, represents⟩,
        fun k other => ?_⟩
      · have nested : createFrom mms (n + 1) mm = some ⟨mm, inside⟩ := by
          rw [createFrom, createdInner]
          rfl
        simp only [List.foldlM_cons, createField, type, found, nested, Option.map_some]
        exact created
      · rw [frame _ new, KeyValueMap.find_assign, if_pos id]
      · rw [Fields.identifiers, Fields.keys, List.mem_cons, not_or] at other
        rw [frame k other.2, KeyValueMap.find_assign, if_neg (id ▸ Ne.symm other.1)]

end GenericMessage

/-! ## Both Proto visitors are uniform -/

theorem ToProtoVisitor.uniform : ToProtoVisitor.visitor.Uniform where
  preVisit_eq _ _ := rfl
  postVisit_eq _ := rfl
  visit_eq := by
    intro field field' id t v s
    rw [visit_eq, visit_eq, id]
  visitMessage_simulates := by
    intro α β R obj obj' simulates field field' id v v' related s
    obtain ⟨related', same⟩ := simulates.accept related []
    rw [visitMessage_eq, visitMessage_eq, id, same]
    exact ⟨related', rfl⟩

namespace FromProtoVisitor

variable (uninit : Nat → Byte)

/-- Injecting the records of a stream into two simulating objects. -/
theorem decodeFromInto_simulates {α β : Type} {R : α → β → Prop}
    {obj : Visitable FromProtoVisitor α} {obj' : Visitable FromProtoVisitor β}
    (simulates : obj.Simulates R obj') (d : FromProtoVisitor) (is : InputStream) {v : α} {v' : β}
    (related : R v v') :
    R (decodeFromInto obj d is v).1.1 (decodeFromInto obj' d is v').1.1 := by
  have step : ∀ (s : α × FromProtoVisitor) (t : β × FromProtoVisitor) (is : InputStream),
      R s.1 t.1 ∧ s.2 = t.2 →
      (decodeFromIntoBody obj s is).1 = (decodeFromIntoBody obj' t is).1 ∧
        (R (decodeFromIntoBody obj s is).2.1.1 (decodeFromIntoBody obj' t is).2.1.1 ∧
          (decodeFromIntoBody obj s is).2.1.2 = (decodeFromIntoBody obj' t is).2.1.2) ∧
        (decodeFromIntoBody obj s is).2.2 = (decodeFromIntoBody obj' t is).2.2 := by
    rintro ⟨v, d⟩ ⟨v', d'⟩ is ⟨related, rfl⟩
    simp only [decodeFromIntoBody]
    rcases d.readRecord is with ⟨_ | ⟨type, fieldId⟩, d', is'⟩
    · exact ⟨rfl, ⟨related, rfl⟩, rfl⟩
    · exact ⟨rfl, simulates.acceptField related fieldId d', rfl⟩
  have loop := whileGood_simulates (fun s t => R s.1 t.1 ∧ s.2 = t.2) step is
    (s := (v, { d with callToDecodeFromWithDirectVisit := true }))
    (t := (v', { d with callToDecodeFromWithDirectVisit := true })) ⟨related, rfl⟩
  exact loop.1.1

theorem uniform : (visitor uninit).Uniform where
  preVisit_eq _ _ := rfl
  postVisit_eq _ := rfl
  visit_eq := by
    intro field field' id t v s
    simp only [visitor, visit, id]
  visitMessage_simulates := by
    intro α β R obj obj' simulates field field' id v v' related d
    refine ⟨?_, rfl⟩
    simp only [visitor, visitMessage, id]
    split
    · exact decodeFromInto_simulates simulates _ _ related
    · split
      · exact (simulates.accept related _).1
      · exact related

end FromProtoVisitor

/-! ## The two paths -/

namespace GenericMessage

/-- `decodeFrom(in, gm)` with the direct injection. -/
def decodeDirect (uninit : Nat → Byte) {n : Nat} (d : FromProtoVisitor) (bytes : Bytes)
    (gm : GenericMessage n) : GenericMessage n :=
  (FromProtoVisitor.decodeFromInto (visitable (FromProtoVisitor.visitor uninit) n) d
    (ofBytes bytes) gm).1.1

/-- `decodeFrom(in)` followed by `gm.accept(decoder)`. -/
def decodeTwoStage (uninit : Nat → Byte) {n : Nat} (d : FromProtoVisitor) (bytes : Bytes)
    (gm : GenericMessage n) : GenericMessage n :=
  ((visitable (FromProtoVisitor.visitor uninit) n).accept gm
    (FromProtoVisitor.decodeFrom uninit d (ofBytes bytes)).1).1

/-- `encodedData()` after a generic message accepted a fresh encoder. -/
def encodedData {n : Nat} (gm : GenericMessage n) : Bytes :=
  ToProtoVisitor.encodedDataOf (visitable ToProtoVisitor.visitor n) gm

/-- `createFrom` makes a message with the initial values from a specification. -/
theorem createFrom_holds {mms : List MetaMessage} {mm : MetaMessage} {T : MessageType}
    (described : mm.Describes mms T) (distinct : T.fields.DistinctIdentifiers) {n : Nat}
    (deep : T.fields.depth ≤ n) :
    ∃ gm, createFrom mms (n + 1) mm = some gm ∧ Holds T.fields gm T.fields.initial := by
  obtain ⟨data, created, represents, _⟩ :=
    createFields_represents mms T.fields distinct described deep []
  refine ⟨⟨mm, data⟩, ?_, represents⟩
  rw [createFrom, created]
  rfl

/-- A generic message that holds a message of any values is encoded in the bytes of another message
after it has been filled from them, in either way. -/
theorem encodedData_of_holds (uninit : Nat → Byte) {T : MessageType}
    (distinct : T.fields.DistinctIdentifiers) (ids : T.fields.ProtoIdentifiers) (m : T.Values)
    (short : (ToProtoVisitor.encodedData T m).length < 2 ^ 64) {d : FromProtoVisitor}
    (flag : d.callToDecodeFromWithDirectVisit = false) {n : Nat} {gm : GenericMessage (n + 1)}
    {m₀ : T.Values} (holds : Holds T.fields gm m₀) :
    encodedData (decodeDirect uninit d (ToProtoVisitor.encodedData T m) gm) =
        ToProtoVisitor.encodedData T m ∧
      encodedData (decodeTwoStage uninit d (ToProtoVisitor.encodedData T m) gm) =
        ToProtoVisitor.encodedData T m := by
  have decoders := simulates_visitable (FromProtoVisitor.uniform uninit)
    (visitsAlike (FromProtoVisitor.uniform uninit) T.fields distinct) T.info n
  have encoders := simulates_visitable ToProtoVisitor.uniform
    (visitsAlike ToProtoVisitor.uniform T.fields distinct) T.info n
  have encoded {gm : GenericMessage (n + 1)} {v : T.Values} (holds : Holds T.fields gm v) :
      encodedData gm = ToProtoVisitor.encodedData T v := (encoders.accept holds []).2
  have direct := FromProtoVisitor.decodeDirect_encodedData uninit distinct ids m short d m₀
  have twoStage := FromProtoVisitor.decodeTwoStage_encodedData uninit distinct ids m short flag m₀
  constructor
  · have filled := FromProtoVisitor.decodeFromInto_simulates decoders d
      (ofBytes (ToProtoVisitor.encodedData T m)) holds
    exact (encoded filled).trans (congrArg (ToProtoVisitor.encodedData T) direct)
  · have filled := (decoders.accept holds (FromProtoVisitor.decodeFrom uninit d
      (ofBytes (ToProtoVisitor.encodedData T m))).1).1
    exact (encoded filled).trans (congrArg (ToProtoVisitor.encodedData T) twoStage)

/-- **The generic path gives the bytes of the compiled path.** A generic message is created from
a specification of a message type with distinct identifiers and filled from the bytes of a
message, in either way. Then it is encoded in the same bytes. -/
theorem encodedData_generic (uninit : Nat → Byte) {mms : List MetaMessage} {mm : MetaMessage}
    {T : MessageType} (described : mm.Describes mms T)
    (distinct : T.fields.DistinctIdentifiers) (ids : T.fields.ProtoIdentifiers) (m : T.Values)
    (short : (ToProtoVisitor.encodedData T m).length < 2 ^ 64) {d : FromProtoVisitor}
    (flag : d.callToDecodeFromWithDirectVisit = false) {n : Nat} (deep : T.fields.depth ≤ n) :
    ∃ gm, createFrom mms (n + 1) mm = some gm ∧
      encodedData (decodeDirect uninit d (ToProtoVisitor.encodedData T m) gm) =
        ToProtoVisitor.encodedData T m ∧
      encodedData (decodeTwoStage uninit d (ToProtoVisitor.encodedData T m) gm) =
        ToProtoVisitor.encodedData T m := by
  obtain ⟨gm, created, holds⟩ := createFrom_holds described distinct deep
  exact ⟨gm, created, encodedData_of_holds uninit distinct ids m short flag holds⟩

theorem encodedData_generic_timeStamp :
    let mm : MetaMessage := ⟨[], asciiBytes "cluon.data.TimeStamp", 12,
      [⟨.scalar .int32, asciiBytes "int32", asciiBytes "seconds", 1, []⟩,
        ⟨.scalar .int32, asciiBytes "int32", asciiBytes "microseconds", 2, []⟩]⟩
    let bytes := ToProtoVisitor.encodedData TimeStamp (TimeStamp.of 1 2)
    ∃ gm, createFrom [mm] 1 mm = some gm ∧
      encodedData (decodeDirect (fun _ => 0) FromProtoVisitor.init bytes gm) = bytes ∧
      encodedData (decodeTwoStage (fun _ => 0) FromProtoVisitor.init bytes gm) = bytes := by
  intro mm bytes
  have described : mm.Describes [mm] TimeStamp :=
    ⟨_, _, rfl, rfl, rfl, _, _, rfl, rfl, rfl, rfl⟩
  exact encodedData_generic (fun _ => 0) described
    (by simp [TimeStamp, Fields.Distinct, Fields.keys, FieldInfo.declared])
    (by simp [TimeStamp, Fields.All, FieldInfo.declared]) (TimeStamp.of 1 2)
    (length_encodedData_timeStamp _) rfl le_rfl

/-- **Identifiers that occur twice.** `message Point [id = 7] { int32 x [id = 1]; int32 y; }`
counts 1 as the identifier of `y`. The compiled class has two members, but the generic message
has one place for both values. -/
theorem encodedData_generic_ne :
    let T : MessageType := ⟨⟨7, asciiBytes "Point", asciiBytes "Point"⟩,
      .scalar (.declared "int32_t" "x" 1) .int32 <|
      .scalar (.declared "int32_t" "y" 1) .int32 .nil⟩
    let mm : MetaMessage := ⟨[], asciiBytes "Point", 7,
      [⟨.scalar .int32, asciiBytes "int32", asciiBytes "x", 1, []⟩,
        ⟨.scalar .int32, asciiBytes "int32", asciiBytes "y", 1, []⟩]⟩
    let bytes := ToProtoVisitor.encodedData T (1#32, 2#32, ())
    mm.Describes [mm] T ∧ T.fields.ProtoIdentifiers ∧
      ∃ gm, createFrom [mm] 1 mm = some gm ∧
        encodedData (decodeDirect (fun _ => 0) FromProtoVisitor.init bytes gm) ≠ bytes ∧
        encodedData (decodeTwoStage (fun _ => 0) FromProtoVisitor.init bytes gm) ≠ bytes := by
  intro T mm bytes
  have record (v : BitVec 32) (small : (toZigZag32 v).setWidth 64 < 0x80#64) :
      toVarInt (encodeKey 1#32 .varint) ++ toVarInt ((toZigZag32 v).setWidth 64) =
        [8, ((toZigZag32 v).setWidth 64).setWidth 8] := by
    rw [toVarInt_of_lt small, toVarInt_of_lt (by decide)]
    rfl
  have one := record 1#32 (by decide)
  have two := record 2#32 (by decide)
  have encoded (v w : BitVec 32) :
      ToProtoVisitor.encodedData T (v, w, ()) =
        (toVarInt (encodeKey 1#32 .varint) ++ toVarInt ((toZigZag32 v).setWidth 64)) ++
          (toVarInt (encodeKey 1#32 .varint) ++ toVarInt ((toZigZag32 w).setWidth 64) ++ []) := by
    rw [ToProtoVisitor.encodedData_eq]
    rfl
  have filled : bytes = [8, 2, 8, 4] := by
    refine (encoded 1#32 2#32).trans ?_
    rw [one, two]
    rfl
  have encodedAgain (v : BitVec 32) :
      encodedData (n := 1) ⟨mm, [(1, .int32 v)]⟩ = ToProtoVisitor.encodedData T (v, v, ()) := rfl
  refine ⟨⟨_, _, rfl, rfl, rfl, _, _, rfl, rfl, rfl, rfl⟩, ?_, ⟨mm, [(1, .int32 0)]⟩, rfl, ?_, ?_⟩
  · simp [T, Fields.All, FieldInfo.declared]
  · have second : decodeDirect (n := 1) (fun _ => 0) FromProtoVisitor.init [8, 2, 8, 4]
        ⟨mm, [(1, .int32 0)]⟩ = ⟨mm, [(1, .int32 2#32)]⟩ := by decide
    rw [filled, second, encodedAgain, encoded, two]
    decide
  · have first : decodeTwoStage (n := 1) (fun _ => 0) FromProtoVisitor.init [8, 2, 8, 4]
        ⟨mm, [(1, .int32 0)]⟩ = ⟨mm, [(1, .int32 1#32)]⟩ := rfl
    rw [filled, first, encodedAgain, encoded, one]
    decide

end GenericMessage

end Cluon
