import Cluon.Generic.GenericMessage
import Cluon.Message.DataStructures
import Cluon.Message.KeyValueVisitor

/-!
# Generic messages from concrete ones

`createFrom(msg)` lets a message accept a visitor that writes down its names, its fields, and their
values; the values of nested messages are generic messages that are created in the same way. A
generic message is itself a visitor: a message that accepts it takes its values from the map, by
their identifiers. So every target gets the message back, and also from a copy of the generic
message (`AnyGenericMessage.accept_createFrom`), if the identifiers within each message are pairwise
distinct: the map has one value for each (`AnyGenericMessage.accept_createFrom_ne`).
-/

set_option autoImplicit false

namespace Cluon

open Library

/-- A generic message, nested however deep. -/
inductive AnyGenericMessage where
  | mk (metaMessage : MetaMessage)
      (intermediateDataRepresentation : List (BitVec 32 × LinbAny AnyGenericMessage))

/-- `str.rfind(s)`: the last position at which a string occurs. -/
def rfind (s : Bytes) : Bytes → Option Nat
  | [] => if s = [] then some 0 else none
  | c :: str =>
      match rfind s str with
      | some pos => some (pos + 1)
      | none => if s <+: c :: str then some 0 else none

/-- `str.substr(0, pos - 1)`: for position 0 the unsigned difference is the largest number, so that
nothing is cut off. -/
def substrBefore (str : Bytes) (pos : Nat) : Bytes := if pos = 0 then str else str.take (pos - 1)

/-! ## Creating -/

/-- `GenericMessageVisitor`. -/
structure GenericMessageVisitor where
  metaMessage : MetaMessage
  intermediateDataRepresentation : KeyValueMap (BitVec 32) (LinbAny AnyGenericMessage)

namespace GenericMessageVisitor

/-- A newly constructed visitor. -/
def init : GenericMessageVisitor := ⟨⟨[], [], 0, []⟩, []⟩

/-- `preVisit(id, shortName, longName)`. -/
def preVisit (info : MessageInfo) (gmv : GenericMessageVisitor) : GenericMessageVisitor :=
  let metaMessage := { gmv.metaMessage with
    messageIdentifier := info.id
    messageName := info.shortName }
  { gmv with
    metaMessage :=
      if info.longName ≠ [] then
        match rfind info.shortName info.longName with
        | some pos => { metaMessage with packageName := substrBefore info.longName pos }
        | none => metaMessage
      else metaMessage }

/-- The type under which a scalar is written down; there is one method for all strings. -/
def fieldDataType : ScalarType → MetaFieldDataType
  | .bytes => .scalar .string
  | t => .scalar t

/-- A field and its value are added. -/
def add (field : FieldInfo) (type : MetaFieldDataType) (value : LinbAny AnyGenericMessage)
    (gmv : GenericMessageVisitor) : GenericMessageVisitor where
  metaMessage := { gmv.metaMessage with
    listOfMetaFields := gmv.metaMessage.listOfMetaFields ++
      [⟨type, field.typeName, field.name, field.fieldIdentifier, []⟩] }
  intermediateDataRepresentation :=
    gmv.intermediateDataRepresentation.assign field.fieldIdentifier value

/-- What `createFrom` takes from the visitor. -/
def message (gmv : GenericMessageVisitor) : AnyGenericMessage :=
  .mk gmv.metaMessage gmv.intermediateDataRepresentation

/-- The visitor. -/
def visitor : Visitor GenericMessageVisitor where
  preVisit := preVisit
  postVisit gmv := gmv
  visit field t v gmv := (v, gmv.add field (fieldDataType t) (.ofScalar t v))
  visitMessage field obj v gmv :=
    let nested := obj.accept v init
    (nested.1, gmv.add field .message (.message nested.2.message))

end GenericMessageVisitor

namespace AnyGenericMessage

/-- The members of a generic message. -/
def members : AnyGenericMessage → GenericMessageOf AnyGenericMessage
  | .mk metaMessage intermediateDataRepresentation => ⟨metaMessage, intermediateDataRepresentation⟩

/-- `createFrom(msg)`: the message, which is visited by reference, and the generic message. -/
def createFrom {α : Type} (obj : Visitable GenericMessageVisitor α) (msg : α) :
    α × AnyGenericMessage :=
  let visited := obj.accept msg GenericMessageVisitor.init
  (visited.1, visited.2.message)

/-- The copy constructor, member by member. -/
def copy (gm : AnyGenericMessage) : AnyGenericMessage :=
  .mk gm.members.metaMessage gm.members.intermediateDataRepresentation

/-- The assignment, which overwrites all members. -/
def assign (_ other : AnyGenericMessage) : AnyGenericMessage := other.copy

/-! ## Visiting with a generic message -/

/-- `visit(id, typeName, name, v)` for scalars. -/
def visit (field : FieldInfo) (t : ScalarType) (v : t.Value) (gm : AnyGenericMessage) :
    t.Value × AnyGenericMessage :=
  match gm.members.intermediateDataRepresentation.find field.fieldIdentifier with
  | some any =>
      match any.castTo t with
      | some v' => (v', gm)
      | none => (v, gm)
  | none => (v, gm)

/-- `visit(id, typeName, name, v)` for visitable types: the nested message accepts the generic
message that is stored for it, which is not changed by that. -/
def visitMessage {α : Type} (field : FieldInfo) (obj : Visitable AnyGenericMessage α) (v : α)
    (gm : AnyGenericMessage) : α × AnyGenericMessage :=
  match gm.members.intermediateDataRepresentation.find field.fieldIdentifier with
  | some any =>
      match any.castToMessage with
      | some nested => ((obj.accept v nested).1, gm)
      | none => (v, gm)
  | none => (v, gm)

/-- The visitor, with the generic message as the state. -/
def visitor : Visitor AnyGenericMessage where
  preVisit _ gm := gm
  postVisit gm := gm
  visit := visit
  visitMessage := visitMessage

end AnyGenericMessage

/-! ## What is written down -/

namespace Fields

open GenericMessageVisitor AnyGenericMessage

/-- The fields of a message, as they are written down. -/
def metaFields : Fields → List MetaField
  | .nil => []
  | .scalar field t rest =>
      ⟨fieldDataType t, field.typeName, field.name, field.fieldIdentifier, []⟩ :: rest.metaFields
  | .nested field _ _ rest =>
      ⟨.message, field.typeName, field.name, field.fieldIdentifier, []⟩ :: rest.metaFields

/-- A generic message with the given fields and values. -/
def withFields (info : MessageInfo) (fields : List MetaField)
    (entries : List (BitVec 32 × LinbAny AnyGenericMessage)) : AnyGenericMessage :=
  .mk { (init.preVisit info).metaMessage with listOfMetaFields := fields }
    (KeyValueMap.assignAll [] entries)

/-- The values of a message, as they are written down. -/
def anyEntries : (fs : Fields) → fs.Values → List (BitVec 32 × LinbAny AnyGenericMessage)
  | .nil, _ => []
  | .scalar field t rest, m => (field.fieldIdentifier, .ofScalar t m.1) :: rest.anyEntries m.2
  | .nested field info inner rest, m =>
      (field.fieldIdentifier,
        .message (withFields info inner.metaFields (inner.anyEntries m.1))) :: rest.anyEntries m.2

/-- The generic message of a message. -/
abbrev anyMessage (info : MessageInfo) (fs : Fields) (m : fs.Values) : AnyGenericMessage :=
  withFields info fs.metaFields (fs.anyEntries m)

theorem keys_anyEntries (fs : Fields) :
    ∀ m : fs.Values, (fs.anyEntries m).map Prod.fst = fs.keys FieldInfo.fieldIdentifier := by
  induction fs with
  | nil => intro _; rfl
  | scalar field t rest ih => intro m; exact congrArg (field.fieldIdentifier :: ·) (ih m.2)
  | nested field info inner rest _ ih =>
      intro m
      exact congrArg (field.fieldIdentifier :: ·) (ih m.2)

end Fields

namespace GenericMessageVisitor

/-- The visitor after fields with the given values have been added. -/
def addAll (gmv : GenericMessageVisitor) (fields : List MetaField)
    (entries : List (BitVec 32 × LinbAny AnyGenericMessage)) : GenericMessageVisitor where
  metaMessage := { gmv.metaMessage with
    listOfMetaFields := gmv.metaMessage.listOfMetaFields ++ fields }
  intermediateDataRepresentation := gmv.intermediateDataRepresentation.assignAll entries

theorem addAll_add (gmv : GenericMessageVisitor) (field : FieldInfo) (type : MetaFieldDataType)
    (value : LinbAny AnyGenericMessage) (fields : List MetaField)
    (entries : List (BitVec 32 × LinbAny AnyGenericMessage)) :
    (gmv.add field type value).addAll fields entries =
      gmv.addAll (⟨type, field.typeName, field.name, field.fieldIdentifier, []⟩ :: fields)
        ((field.fieldIdentifier, value) :: entries) := by
  rw [addAll, add, addAll, List.append_assoc]
  rfl

theorem listOfMetaFields_preVisit (info : MessageInfo) (gmv : GenericMessageVisitor) :
    (gmv.preVisit info).metaMessage.listOfMetaFields = gmv.metaMessage.listOfMetaFields := by
  rw [preVisit]
  split
  · split
    · rfl
    · rfl
  · rfl

/-- What a message with the given fields is written down as. -/
theorem message_addAll (info : MessageInfo) (fs : Fields) (m : fs.Values) :
    ((init.preVisit info).addAll fs.metaFields (fs.anyEntries m)).message =
      fs.anyMessage info m := by
  rw [addAll, message, listOfMetaFields_preVisit]
  rfl

/-- **The fields of a message are written down**, and the message is not changed. -/
theorem accept_fields (fs : Fields) :
    ∀ (m : fs.Values) (gmv : GenericMessageVisitor),
      (fs.visitable visitor).accept m gmv = (m, gmv.addAll fs.metaFields (fs.anyEntries m)) := by
  induction fs with
  | nil =>
      intro m gmv
      have same : gmv.addAll [] [] = gmv := by
        rw [addAll, List.append_nil]
        rfl
      exact congrArg (m, ·) same.symm
  | scalar field t rest ih =>
      intro m gmv
      have visited : visitor.visit field t m.1 gmv =
          (m.1, gmv.add field (fieldDataType t) (.ofScalar t m.1)) := rfl
      rw [Fields.accept_scalar, visited]
      simp only [ih, addAll_add]
      rfl
  | nested field info inner rest ihInner ih =>
      intro m gmv
      have nested : acceptAll visitor info (inner.visitable visitor).accept m.1 init =
          (m.1, (init.preVisit info).addAll inner.metaFields (inner.anyEntries m.1)) :=
        ihInner m.1 (init.preVisit info)
      have visited : visitor.visitMessage field ((MessageType.mk info inner).visitable visitor) m.1
          gmv = (m.1, gmv.add field .message (.message (inner.anyMessage info m.1))) := by
        rw [← message_addAll]
        exact congrArg (fun r : inner.Values × GenericMessageVisitor =>
          (r.1, gmv.add field .message (.message r.2.message))) nested
      rw [Fields.accept_nested, visited]
      simp only [ih, addAll_add]
      rfl

end GenericMessageVisitor

/-- **What `createFrom` makes of a message.** -/
theorem AnyGenericMessage.createFrom_eq (T : MessageType) (m : T.Values) :
    createFrom (T.visitable GenericMessageVisitor.visitor) m =
      (m, T.fields.anyMessage T.info m) := by
  have accepted : acceptAll GenericMessageVisitor.visitor T.info
      (T.fields.visitable GenericMessageVisitor.visitor).accept m GenericMessageVisitor.init =
        (m, (GenericMessageVisitor.init.preVisit T.info).addAll T.fields.metaFields
          (T.fields.anyEntries m)) :=
    GenericMessageVisitor.accept_fields T.fields m _
  rw [createFrom, MessageType.accept_eq, accepted]
  simp only [GenericMessageVisitor.message_addAll]

/-! ## The way back -/

/-- A map has the values of a message under the identifiers of its fields. -/
def Fields.Kept : (fs : Fields) → fs.Values → KeyValueMap (BitVec 32) (LinbAny AnyGenericMessage) →
    Prop
  | .nil, _, _ => True
  | .scalar field t rest, m, data =>
      data.find field.fieldIdentifier = some (.ofScalar t m.1) ∧ rest.Kept m.2 data
  | .nested field _ inner rest, m, data =>
      (∃ gm : AnyGenericMessage, data.find field.fieldIdentifier = some (.message gm) ∧
        inner.Kept m.1 gm.members.intermediateDataRepresentation) ∧ rest.Kept m.2 data

/-- The entries of a message keep its values if its identifiers are distinct. -/
theorem Fields.kept_anyEntries (fs : Fields) :
    fs.Distinct FieldInfo.fieldIdentifier → ∀ {m : fs.Values}
      {data : KeyValueMap (BitVec 32) (LinbAny AnyGenericMessage)},
      (∀ e ∈ fs.anyEntries m, data.find e.1 = some e.2) → fs.Kept m data := by
  induction fs with
  | nil => intro _ _ _ _; trivial
  | scalar field t rest ih =>
      intro distinct m data found
      exact ⟨found _ List.mem_cons_self,
        ih distinct.2 fun e he => found e (List.mem_cons_of_mem _ he)⟩
  | nested field info inner rest ihInner ih =>
      intro distinct m data found
      refine ⟨⟨inner.anyMessage info m.1, found _ List.mem_cons_self, ?_⟩,
        ih distinct.2.2 fun e he => found e (List.mem_cons_of_mem _ he)⟩
      have identifiers : ((inner.anyEntries m.1).map Prod.fst).Nodup := by
        rw [inner.keys_anyEntries]
        exact inner.nodup_keys distinct.2.1
      exact ihInner distinct.2.1 fun e he => KeyValueMap.find_assignAll _ identifiers he []

namespace AnyGenericMessage

/-- **A message takes its values from a generic message that keeps them.** -/
theorem accept_of_kept (fs : Fields) :
    ∀ {m : fs.Values} {gm : AnyGenericMessage},
      fs.Kept m gm.members.intermediateDataRepresentation →
      ∀ v : fs.Values, (fs.visitable visitor).accept v gm = (m, gm) := by
  induction fs with
  | nil => intro _ _ _ _; rfl
  | scalar field t rest ih =>
      rintro m gm ⟨found, kept⟩ v
      have visited : visitor.visit field t v.1 gm = (m.1, gm) := by
        change visit field t v.1 gm = _
        rw [visit, found]
        simp only [LinbAny.castTo_ofScalar]
      rw [Fields.accept_scalar, visited]
      simp only [ih kept v.2]
  | nested field info inner rest ihInner ih =>
      rintro m gm ⟨⟨nested, found, keptInner⟩, kept⟩ v
      have accepted : acceptAll visitor info (inner.visitable visitor).accept v.1 nested =
          (m.1, nested) := ihInner keptInner v.1
      have visited : visitor.visitMessage field ((MessageType.mk info inner).visitable visitor) v.1
          gm = (m.1, gm) := by
        change visitMessage field _ v.1 gm = _
        rw [visitMessage, found]
        simp only [LinbAny.castToMessage, MessageType.accept_eq, accepted]
      rw [Fields.accept_nested, visited]
      simp only [ih kept v.2]

theorem copy_eq (gm : AnyGenericMessage) : gm.copy = gm := by
  cases gm
  rfl

/-- The generic messages that behave like a given one: itself, its copies, and what it is assigned
to. -/
inductive Copied (gm : AnyGenericMessage) : AnyGenericMessage → Prop
  | self : Copied gm gm
  | copy {gm' : AnyGenericMessage} : Copied gm gm' → Copied gm gm'.copy
  | assign {gm' : AnyGenericMessage} (old : AnyGenericMessage) :
      Copied gm gm' → Copied gm (old.assign gm')

theorem Copied.eq {gm gm' : AnyGenericMessage} (copied : Copied gm gm') : gm' = gm := by
  induction copied with
  | self => rfl
  | copy _ ih => rw [copy_eq, ih]
  | assign old _ ih => rw [AnyGenericMessage.assign, copy_eq, ih]

/-- **From a message to a generic one and back.** What is created from a message whose identifiers
are distinct, each copy of it, and everything that it is assigned to gives the message to every
target; the message itself is not changed. -/
theorem accept_createFrom (T : MessageType) (distinct : T.fields.Distinct FieldInfo.fieldIdentifier)
    (m : T.Values) :
    let created := createFrom (T.visitable GenericMessageVisitor.visitor) m
    created.1 = m ∧ ∀ gm, Copied created.2 gm →
      ∀ v, ((T.visitable visitor).accept v gm).1 = m := by
  intro created
  have same : created = _ := createFrom_eq T m
  rw [same]
  refine ⟨rfl, fun gm copied v => ?_⟩
  obtain rfl := copied.eq
  have identifiers : ((T.fields.anyEntries m).map Prod.fst).Nodup := by
    rw [T.fields.keys_anyEntries]
    exact T.fields.nodup_keys distinct
  have kept : T.fields.Kept m
      (T.fields.anyMessage T.info m).members.intermediateDataRepresentation :=
    T.fields.kept_anyEntries distinct fun e he => KeyValueMap.find_assignAll _ identifiers he []
  exact congrArg Prod.fst (accept_of_kept T.fields kept v)

theorem accept_createFrom_timeStamp :
    let m := TimeStamp.of 1 2
    let created := createFrom (TimeStamp.visitable GenericMessageVisitor.visitor) m
    created.1 = m ∧ ∀ gm, Copied created.2 gm →
      ∀ v, ((TimeStamp.visitable visitor).accept v gm).1 = m :=
  accept_createFrom TimeStamp
    (by simp [TimeStamp, Fields.Distinct, Fields.keys, FieldInfo.declared]) _

/-- A message with two fields of one identifier. -/
def twice : MessageType where
  info := ⟨1, asciiBytes "Twice", asciiBytes "Twice"⟩
  fields :=
    .scalar (.declared "int32_t" "x" 1) .int32 <|
    .scalar (.declared "int32_t" "y" 1) .int32 <|
    .nil

/-- **The second value takes the place of the first one**, if they have the same identifier. -/
theorem accept_createFrom_ne :
    ¬ ∀ (T : MessageType) (m v : T.Values), ((T.visitable visitor).accept v
      (createFrom (T.visitable GenericMessageVisitor.visitor) m).2).1 = m := by
  intro same
  have second : ((twice.visitable visitor).accept (0#32, 0#32, ())
      (createFrom (twice.visitable GenericMessageVisitor.visitor) (1#32, 2#32, ())).2).1 =
        (2#32, 2#32, ()) := rfl
  have first := congrArg Prod.fst (second.symm.trans (same twice (1#32, 2#32, ()) (0#32, 0#32, ())))
  exact absurd first (by decide)

end AnyGenericMessage

end Cluon
