import Cluon.Generic.Codecs
import Cluon.Specification.SelfDescription

/-!
# Messages from their own text, in every format

A program that knows a message only by the text that the message writes about itself creates a
generic message from it. Fields of type `bytes` come back as `string` (`Fields.readBack`), but
both are `std::string` for the visitors, which have one method for them
(`Visitor.BytesAsStrings`). So no sequence of encoders and decoders finds out that the message
has been created from a text (`outcomes_messageSpecification`).
-/

set_option autoImplicit false

namespace Cluon

open Library InputStream MessageParser ToODVDVisitor

variable {σ : Type}

/-! ## Visitors that take bytes for strings -/

/-- A visitor has one method for bytes and strings. -/
def Visitor.BytesAsStrings (V : Visitor σ) : Prop :=
  ∀ field (v : Bytes) s, V.visit field .bytes v s = V.visit field .string v s

theorem ToProtoVisitor.bytesAsStrings : ToProtoVisitor.visitor.BytesAsStrings := fun _ _ _ => rfl

theorem ToJSONVisitor.bytesAsStrings (F : FloatFormat) :
    (ToJSONVisitor.visitor F).BytesAsStrings := fun _ _ _ => rfl

theorem ToLCMVisitor.bytesAsStrings : ToLCMVisitor.visitor.BytesAsStrings := fun _ _ _ => rfl

theorem ToMsgPackVisitor.bytesAsStrings : ToMsgPackVisitor.visitor.BytesAsStrings :=
  fun _ _ _ => rfl

theorem ToCSVVisitor.bytesAsStrings (F : FloatFormat) :
    (ToCSVVisitor.visitor F).BytesAsStrings := fun _ _ _ => rfl

theorem FromLCMVisitor.bytesAsStrings (uninit : Nat → Byte) :
    (FromLCMVisitor.visitor uninit).BytesAsStrings := fun _ _ _ => rfl

theorem FromProtoVisitor.bytesAsStrings (uninit : Nat → Byte) :
    (FromProtoVisitor.visitor uninit).BytesAsStrings := by
  have cast (any : ProtoAny) : any.castTo .bytes = any.castTo .string := by
    cases any <;> rfl
  intro field v s
  simp only [visitor, visit, cast]
  rfl

theorem KeyValueVisitor.bytesAsStrings {κ : Type} {K : EntryKind κ}
    (cast : ∀ any, K.castTo .bytes any = K.castTo .string any) :
    (KeyValueVisitor.visitor K).BytesAsStrings := by
  intro field v s
  simp only [visitor, visit, cast]
  by_cases stopped : s.terminated = true
  · rw [if_pos stopped, if_pos stopped]
  · rw [if_neg stopped, if_neg stopped]
    rcases s.keyValues.find field.name with _ | any
    · rfl
    · dsimp only
      rcases K.castTo .string any with e | v'
      · cases e <;> rfl
      · rfl

theorem FromMsgPackVisitor.bytesAsStrings : FromMsgPackVisitor.visitor.BytesAsStrings :=
  KeyValueVisitor.bytesAsStrings fun any => by cases any <;> rfl

theorem FromJSONVisitor.bytesAsStrings (F : FloatFormat) :
    (FromJSONVisitor.visitor F).BytesAsStrings :=
  KeyValueVisitor.bytesAsStrings fun _ => rfl

/-! ## The fields that come back -/

namespace Fields

variable {V : Visitor σ}

/-- A scalar that comes back is visited as the scalar. -/
theorem visit_readBack (blind : V.BytesAsStrings) (field : FieldInfo) (t : ScalarType)
    (v : t.Value) (s : σ) :
    V.visit field t.readBack (t.asReadBack v) s =
      (t.asReadBack (V.visit field t v s).1, (V.visit field t v s).2) := by
  cases t with
  | bytes => exact (blind field v s).symm
  | _ => rfl

/-- The fields that come back are visited as the fields. -/
structure VisitedReadBack (V : Visitor σ) (fs : Fields) : Prop where
  accept : ∀ m s, (fs.readBack.visitable V).accept (fs.asReadBack m) s =
    (fs.asReadBack ((fs.visitable V).accept m s).1, ((fs.visitable V).accept m s).2)
  acceptField : ∀ fieldId m s,
    (fs.readBack.visitable V).acceptField fieldId (fs.asReadBack m) s =
      (fs.asReadBack ((fs.visitable V).acceptField fieldId m s).1,
        ((fs.visitable V).acceptField fieldId m s).2)

theorem VisitedReadBack.alike {fs : Fields} (visited : VisitedReadBack V fs) (info : MessageInfo) :
    ((MessageType.mk info fs.readBack).visitable V).Alike V.Silent (fun m' m => m' = fs.asReadBack m)
      ((MessageType.mk info fs).visitable V) where
  accept := by
    rintro _ m rfl s
    have same := visited.accept m (V.preVisit info s)
    exact ⟨congrArg Prod.fst same, congrArg V.postVisit (congrArg Prod.snd same)⟩
  acceptField := by
    rintro _ _ m rfl fieldId s
    have same := visited.acceptField fieldId m s
    exact ⟨congrArg Prod.fst same, congrArg Prod.snd same⟩

/-- **Parametric visitors visit the fields that come back** as they visit the fields. -/
theorem visitedReadBack (parametric : V.Parametric) (blind : V.BytesAsStrings) (fs : Fields) :
    VisitedReadBack V fs := by
  induction fs with
  | nil => exact ⟨fun _ _ => rfl, fun _ _ _ => rfl⟩
  | scalar field t rest ih =>
      constructor
      · intro m s
        refine (accept_scalar field t.readBack rest.readBack
          (t.asReadBack m.1, rest.asReadBack m.2) s).trans ?_
        simp only [visit_readBack blind, ih.accept]
        rfl
      · intro fieldId m s
        refine (acceptField_scalar field t.readBack rest.readBack fieldId
          (t.asReadBack m.1, rest.asReadBack m.2) s).trans ?_
        rw [acceptField_scalar]
        simp only [visit_readBack blind, ih.acceptField]
        split <;> rfl
  | nested field info inner rest ihInner ih =>
      have inside (m : inner.Values) (s : σ) :
          V.visitMessage field ((MessageType.mk info inner.readBack).visitable V)
              (inner.asReadBack m) s =
            (inner.asReadBack (V.visitMessage field ((MessageType.mk info inner).visitable V) m s).1,
              (V.visitMessage field ((MessageType.mk info inner).visitable V) m s).2) := by
        obtain ⟨values, states⟩ := parametric.visitMessage_alike (ihInner.alike info)
          (rfl : field.fieldIdentifier = field.fieldIdentifier) rfl rfl s
        exact Prod.ext values states
      constructor
      · intro m s
        refine (accept_nested field info inner.readBack rest.readBack
          (inner.asReadBack m.1, rest.asReadBack m.2) s).trans ?_
        simp only [inside, ih.accept]
        rfl
      · intro fieldId m s
        refine (acceptField_nested field info inner.readBack rest.readBack fieldId
          (inner.asReadBack m.1, rest.asReadBack m.2) s).trans ?_
        rw [acceptField_nested]
        simp only [inside, ih.acceptField]
        split <;> rfl

/-- Initial values come back as initial values. -/
theorem asReadBack_initial (fs : Fields) : fs.asReadBack fs.initial = fs.readBack.initial := by
  induction fs with
  | nil => rfl
  | scalar field t rest ih =>
      have value : t.asReadBack t.initial = t.readBack.initial := by
        cases t <;> rfl
      exact Prod.ext value ih
  | nested field info inner rest ihInner ih => exact Prod.ext ihInner ih

/-- The fields that are read describe the fields that come back with their names. -/
theorem describesNamed_readBack {scope : KeyValueMap Bytes MetaMessage} {fs : Fields} :
    (∀ U ∈ fs.nestedTypes, scope.find U.info.longName = some (metaMessage U) ∧
        (metaMessage U).IsNamed) →
      fs.readBack.DescribesNamed scope (fs.members.map metaField) := by
  induction fs with
  | nil => intro _; rfl
  | scalar field t rest ih => intro found; exact ⟨_, _, rfl, ⟨rfl, rfl⟩, rfl, ih found⟩
  | nested field info inner rest ihInner ih =>
      intro found
      have inside := fun U member => found U (List.mem_append_right _ member)
      obtain ⟨resolved, named⟩ := inside ⟨info, inner⟩ (List.mem_append_right _ List.mem_cons_self)
      refine ⟨_, _, metaMessage ⟨info, inner⟩, rfl, ⟨rfl, rfl⟩, rfl, resolved, named, ?_, ?_⟩
      · exact ihInner fun U member => inside U (List.mem_append_left _ member)
      · exact ih fun U member => found U (List.mem_append_left _ member)

end Fields

/-! ## The messages of a text -/

/-- A message type whose messages write a text that is read without an error. -/
structure MessageType.SpecifiesItself (T : MessageType) : Prop where
  generated : T.Generated
  distinct : T.types.Nodup
  noKeyword : T.NoKeyword
  fields : ∀ U ∈ T.types, U.DistinctFields

theorem isspace_of_isLetter {c : Byte} (h : isLetter c) : GenericMessageOf.isspace c = false := by
  revert h
  decide +revert

/-- The message that is read has a name. -/
theorem isNamed_metaMessage {U : MessageType} (name : IsDottedName U.info.longName) :
    (metaMessage U).IsNamed := by
  obtain ⟨_, others, ⟨c, s, rfl, letter, -⟩, -, long⟩ := name
  refine MetaMessage.isNamed_of_cons rfl long (isspace_of_isLetter letter) ?_
  rintro rfl
  exact absurd letter (by decide)

/-- The types that occur in a type that occurs. -/
theorem MessageType.nestedTypes_subset {T U : MessageType} (member : U ∈ T.types) :
    U.fields.nestedTypes ⊆ T.types := by
  rcases List.mem_append.mp member with nested | self
  · exact fun V inside => List.mem_append_left _ (Fields.nestedTypes_subset nested inside)
  · rw [List.mem_singleton.mp self]
    exact List.subset_append_left _ _

namespace MessageType.SpecifiesItself

variable {T : MessageType} (h : T.SpecifiesItself)
include h

theorem parse_eq (m : T.Values) :
    parse (messageSpecification T m) = some (T.types.map metaMessage, .noMessageParserError) := by
  rw [h.generated.parse_messageSpecification, if_pos h.noKeyword, if_pos ⟨h.distinct, h.fields⟩]

/-- The text describes all types that occur in it, apart from fields of type `bytes`. -/
theorem describesNamed {U : MessageType} (member : U ∈ T.types) :
    (metaMessage U).DescribesNamed (T.types.map metaMessage) ⟨U.info, U.fields.readBack⟩ :=
  ⟨isNamed_metaMessage (h.generated.names U member), Fields.describesNamed_readBack fun V inside =>
    have occurs := MessageType.nestedTypes_subset member inside
    ⟨h.generated.find_scope h.distinct occurs, isNamed_metaMessage (h.generated.names V occurs)⟩⟩

theorem distinctIdentifiers {U : MessageType} (member : U ∈ T.types) :
    U.fields.readBack.DistinctIdentifiers :=
  Fields.distinct_readBack _ (h.fields U member).1 fun V inside =>
    (h.fields V (MessageType.nestedTypes_subset member inside)).1

theorem protoIdentifiers {U : MessageType} (member : U ∈ T.types) :
    U.fields.readBack.ProtoIdentifiers :=
  Fields.all_readBack (fun f inside => (h.generated.fields U member f inside).identifier.2)
    fun V occurs f inside => (h.generated.fields V (MessageType.nestedTypes_subset member occurs) f
      inside).identifier.2

end MessageType.SpecifiesItself

/-- **No sequence of visitors finds out that a message has been created from a text.** The text that
a message writes about itself is parsed, and a generic message is created for one of the types
that occur in it. Whatever encoders and decoders it accepts then, each of them is left in the state
in which a message of the compiled type leaves it whose fields had the same initial values. -/
theorem outcomes_messageSpecification {T : MessageType} (h : T.SpecifiesItself) (m : T.Values)
    {U : MessageType} (member : U ∈ T.types) :
    ∃ mms mm gm, parse (messageSpecification T m) = some (mms, .noMessageParserError) ∧
      (mapForScopeOfMetaMessages mms).find U.info.longName = some mm ∧
      GenericMessage.createFrom mms (mms.length + 1) mm = some gm ∧
      ∀ visits : List ParametricVisitor.Visit,
        (∀ visit ∈ visits, visit.1.visitor.BytesAsStrings) →
        (outcomes (fun V => GenericMessage.visitable V.visitor (mms.length + 1)) visits gm).1 =
          (outcomes (fun V => U.visitable V.visitor) visits U.fields.initial).1 := by
  have distinct := h.distinctIdentifiers member
  obtain ⟨gm, created, holds⟩ :=
    GenericMessage.createFrom_holdsNamed (h.describesNamed member) distinct
  refine ⟨_, _, gm, h.parse_eq m, h.generated.find_scope h.distinct member, created,
    fun visits blind => ?_⟩
  have readBack := GenericMessage.outcomes_of_holdsNamed
    (T := ⟨U.info, U.fields.readBack⟩) distinct holds visits
  -- The type with the fields that come back is in between.
  let obj (V : ParametricVisitor) :=
    (MessageType.mk U.info U.fields.readBack).visitable V.visitor
  have alike (visit) (inside : visit ∈ visits) : (obj visit.1).Alike visit.1.visitor.Silent
      (fun m' m => m' = U.fields.asReadBack m) (U.visitable visit.1.visitor) :=
    (Fields.visitedReadBack visit.1.parametric (blind visit inside) U.fields).alike U.info
  have initial : U.fields.readBack.initial = U.fields.asReadBack U.fields.initial :=
    U.fields.asReadBack_initial.symm
  exact readBack.trans (@outcomes_alike _ _ (fun m' m => m' = U.fields.asReadBack m) obj
    (fun V => U.visitable V.visitor) visits alike _ _ initial).1

theorem specifiesItself_timeStamp : TimeStamp.SpecifiesItself where
  generated := declared_timeStamp.generated rfl
  distinct := List.nodup_singleton TimeStamp
  noKeyword := nofun
  fields U member := by
    obtain rfl := List.mem_singleton.mp member
    decide

theorem outcomes_messageSpecification_timeStamp :
    ∃ mms mm gm, parse (messageSpecification TimeStamp (TimeStamp.of 1 2)) =
        some (mms, .noMessageParserError) ∧
      (mapForScopeOfMetaMessages mms).find TimeStamp.info.longName = some mm ∧
      GenericMessage.createFrom mms (mms.length + 1) mm = some gm ∧
      ∀ visits : List ParametricVisitor.Visit,
        (∀ visit ∈ visits, visit.1.visitor.BytesAsStrings) →
        (outcomes (fun V => GenericMessage.visitable V.visitor (mms.length + 1)) visits gm).1 =
          (outcomes (fun V => TimeStamp.visitable V.visitor) visits TimeStamp.fields.initial).1 :=
  outcomes_messageSpecification specifiesItself_timeStamp _ List.mem_cons_self

end Cluon
