import Cluon.Library.ByteOrder

/-!
# Messages and visitors

A message type is the list of its fields. A field has an identifier, the name of
its type, and its own name, and is either a scalar or a nested message. The value
of a message assigns to every field a value of the field's type, so a message
value of the wrong shape cannot be built.

The generated message classes are visited: `accept(visitor)` visits the fields
in order between `preVisit` and `postVisit`, and `accept(fieldId, visitor)` visits
the first field with that identifier, without `preVisit` and `postVisit`. A visitor
gets every value by reference and may change it. For a nested message it gets an
object of some visitable type, about which it knows only how to let it accept a
visitor of its own class. `Fields.visitable` is the pair of these two methods for
a given message type.
-/

set_option autoImplicit false

namespace Cluon

open Library

/-- The data types of the fields that are not messages. -/
inductive ScalarType where
  | bool | char | uint8 | int8 | uint16 | int16 | uint32 | int32 | uint64 | int64
  | float | double | bytes | string
  deriving DecidableEq, Repr

/-- The values of a scalar field. Integers are machine words, `float` and `double` are bit
patterns, and `bytes` and `string` are both `std::string`. -/
@[reducible] def ScalarType.Value : ScalarType → Type
  | .bool => Bool
  | .char | .uint8 | .int8 => BitVec 8
  | .uint16 | .int16 => BitVec 16
  | .uint32 | .int32 | .float => BitVec 32
  | .uint64 | .int64 | .double => BitVec 64
  | .bytes | .string => Bytes

instance : (t : ScalarType) → DecidableEq t.Value
  | .bool => inferInstanceAs (DecidableEq Bool)
  | .char | .uint8 | .int8 => inferInstanceAs (DecidableEq (BitVec 8))
  | .uint16 | .int16 => inferInstanceAs (DecidableEq (BitVec 16))
  | .uint32 | .int32 | .float => inferInstanceAs (DecidableEq (BitVec 32))
  | .uint64 | .int64 | .double => inferInstanceAs (DecidableEq (BitVec 64))
  | .bytes | .string => inferInstanceAs (DecidableEq Bytes)

instance : (t : ScalarType) → Nontrivial t.Value
  | .bool => inferInstanceAs (Nontrivial Bool)
  | .char | .uint8 | .int8 => ⟨0#8, 1#8, by decide⟩
  | .uint16 | .int16 => ⟨0#16, 1#16, by decide⟩
  | .uint32 | .int32 | .float => ⟨0#32, 1#32, by decide⟩
  | .uint64 | .int64 | .double => ⟨0#64, 1#64, by decide⟩
  | .bytes | .string => ⟨[], [0#8], by decide⟩

/-- A string has fewer than `n` bytes. -/
def ScalarType.ShorterThan (n : Nat) : (t : ScalarType) → t.Value → Prop
  | .bytes, s | .string, s => s.length < n
  | _, _ => True

/-- What `accept` tells a visitor about a field: its identifier, the name of its type, and
its name. -/
structure FieldInfo where
  fieldIdentifier : BitVec 32
  typeName : Bytes
  name : Bytes
  deriving DecidableEq, Repr

/-- What `accept` tells a visitor about a message: `ID()`, `ShortName()`, and `LongName()`. -/
structure MessageInfo where
  id : BitVec 32
  shortName : Bytes
  longName : Bytes
  deriving DecidableEq, Repr

/-- The fields of a message type, in order. -/
inductive Fields where
  | nil
  | scalar (field : FieldInfo) (type : ScalarType) (rest : Fields)
  | nested (field : FieldInfo) (info : MessageInfo) (fields : Fields) (rest : Fields)
  deriving DecidableEq, Repr

/-- A message type: its names and its fields. -/
structure MessageType where
  info : MessageInfo
  fields : Fields
  deriving DecidableEq, Repr

namespace Fields

/-- The values of a message with the given fields. -/
@[reducible] def Values : Fields → Type
  | .nil => Unit
  | .scalar _ type rest => type.Value × rest.Values
  | .nested _ _ fields rest => fields.Values × rest.Values

/-- What a function gives for the fields of a message, without those of nested messages. -/
def keys {κ : Type} (key : FieldInfo → κ) : Fields → List κ
  | .nil => []
  | .scalar field _ rest => key field :: rest.keys key
  | .nested field _ _ rest => key field :: rest.keys key

/-- A function is injective on the fields of a message, and on those of each nested message. -/
def Distinct {κ : Type} (key : FieldInfo → κ) : Fields → Prop
  | .nil => True
  | .scalar field _ rest => key field ∉ rest.keys key ∧ rest.Distinct key
  | .nested field _ fields rest =>
      key field ∉ rest.keys key ∧ fields.Distinct key ∧ rest.Distinct key

/-- A condition on all fields of a message, those of nested messages included. -/
def All (P : FieldInfo → Prop) : Fields → Prop
  | .nil => True
  | .scalar field _ rest => P field ∧ rest.All P
  | .nested field _ fields rest => P field ∧ fields.All P ∧ rest.All P

/-- A condition on all values of a message that are not messages. -/
def AllValues (P : (t : ScalarType) → t.Value → Prop) : (fs : Fields) → fs.Values → Prop
  | .nil, _ => True
  | .scalar _ type rest, m => P type m.1 ∧ rest.AllValues P m.2
  | .nested _ _ fields rest, m => fields.AllValues P m.1 ∧ rest.AllValues P m.2

/-- A condition on the data types of all fields that are not messages. -/
def AllTypes (P : ScalarType → Prop) : Fields → Prop
  | .nil => True
  | .scalar _ type rest => P type ∧ rest.AllTypes P
  | .nested _ _ fields rest => fields.AllTypes P ∧ rest.AllTypes P

/-- A condition that all values meet. -/
theorem AllValues.of_forall {P : (t : ScalarType) → t.Value → Prop} (all : ∀ t v, P t v)
    (fs : Fields) : ∀ m : fs.Values, fs.AllValues P m := by
  induction fs with
  | nil => intro _; trivial
  | scalar field t rest ih => intro m; exact ⟨all t m.1, ih m.2⟩
  | nested field info inner rest ihInner ih => intro m; exact ⟨ihInner m.1, ih m.2⟩

theorem nonempty_values (fs : Fields) : Nonempty fs.Values := by
  induction fs with
  | nil => exact ⟨()⟩
  | scalar field t rest ih =>
      obtain ⟨v⟩ := ih
      obtain ⟨x, _⟩ := exists_pair_ne t.Value
      exact ⟨(x, v)⟩
  | nested field info inner rest ihInner ih =>
      obtain ⟨v⟩ := ih
      obtain ⟨w⟩ := ihInner
      exact ⟨(w, v)⟩

/-- How deep messages are nested within the fields. -/
def depth : Fields → Nat
  | .nil => 0
  | .scalar _ _ rest => rest.depth
  | .nested _ _ inner rest => max (inner.depth + 1) rest.depth

/-- The number of fields of a message, without those of nested messages. -/
def length : Fields → Nat
  | .nil => 0
  | .scalar _ _ rest => rest.length + 1
  | .nested _ _ _ rest => rest.length + 1

end Fields

namespace MessageType

/-- The values of a message type. -/
abbrev Values (T : MessageType) : Type := T.fields.Values

end MessageType

/-! ## Visitors -/

/-- What a visitor with state `σ` can do with an object of type `α`: let it accept the
visitor for all its fields, or for the field with a given identifier. -/
structure Visitable (σ α : Type) where
  accept : α → σ → α × σ
  acceptField : BitVec 32 → α → σ → α × σ

/-- A visitor with state `σ`. The methods for scalars are one method indexed by the type;
`visitMessage` is the template for visitable types, which can only let the object accept. -/
structure Visitor (σ : Type) where
  preVisit : MessageInfo → σ → σ
  postVisit : σ → σ
  visit : FieldInfo → (t : ScalarType) → t.Value → σ → t.Value × σ
  visitMessage : {α : Type} → FieldInfo → Visitable σ α → α → σ → α × σ

section Accept

variable {σ : Type} (V : Visitor σ)

/-- `accept(visitor)` around the visits of the fields. -/
def acceptAll {α : Type} (info : MessageInfo) (visitFields : α → σ → α × σ) (v : α) (s : σ) :
    α × σ :=
  let visited := visitFields v (V.preVisit info s)
  (visited.1, V.postVisit visited.2)

/-- The visits of the fields of a message, and the visit of a single field. -/
def Fields.visitable : (fs : Fields) → Visitable σ fs.Values
  | .nil => ⟨fun v s => (v, s), fun _ v s => (v, s)⟩
  | .scalar field type rest =>
      ⟨fun v s =>
        let visited := V.visit field type v.1 s
        let others := rest.visitable.accept v.2 visited.2
        ((visited.1, others.1), others.2),
       fun fieldId v s =>
        if field.fieldIdentifier = fieldId then
          let visited := V.visit field type v.1 s
          ((visited.1, v.2), visited.2)
        else
          let others := rest.visitable.acceptField fieldId v.2 s
          ((v.1, others.1), others.2)⟩
  | .nested field info fields rest =>
      let inner : Visitable σ fields.Values :=
        ⟨acceptAll V info fields.visitable.accept, fields.visitable.acceptField⟩
      ⟨fun v s =>
        let visited := V.visitMessage field inner v.1 s
        let others := rest.visitable.accept v.2 visited.2
        ((visited.1, others.1), others.2),
       fun fieldId v s =>
        if field.fieldIdentifier = fieldId then
          let visited := V.visitMessage field inner v.1 s
          ((visited.1, v.2), visited.2)
        else
          let others := rest.visitable.acceptField fieldId v.2 s
          ((v.1, others.1), others.2)⟩

/-- The two `accept` methods of a generated message class. -/
def MessageType.visitable (T : MessageType) : Visitable σ T.Values :=
  ⟨acceptAll V T.info (T.fields.visitable V).accept, (T.fields.visitable V).acceptField⟩

variable {V}

@[simp] theorem MessageType.accept_eq (T : MessageType) (v : T.Values) (s : σ) :
    (T.visitable V).accept v s = acceptAll V T.info (T.fields.visitable V).accept v s := rfl

@[simp] theorem MessageType.acceptField_eq (T : MessageType) (fieldId : BitVec 32)
    (v : T.Values) (s : σ) :
    (T.visitable V).acceptField fieldId v s =
      (T.fields.visitable V).acceptField fieldId v s := rfl

namespace Fields

@[simp] theorem accept_nil (v : Unit) (s : σ) : (nil.visitable V).accept v s = (v, s) := rfl

theorem accept_scalar (field : FieldInfo) (t : ScalarType) (rest : Fields)
    (v : t.Value × rest.Values) (s : σ) :
    ((scalar field t rest).visitable V).accept v s =
      let visited := V.visit field t v.1 s
      let others := (rest.visitable V).accept v.2 visited.2
      ((visited.1, others.1), others.2) := rfl

theorem accept_nested (field : FieldInfo) (info : MessageInfo) (fields rest : Fields)
    (v : fields.Values × rest.Values) (s : σ) :
    ((nested field info fields rest).visitable V).accept v s =
      let visited := V.visitMessage field ((MessageType.mk info fields).visitable V) v.1 s
      let others := (rest.visitable V).accept v.2 visited.2
      ((visited.1, others.1), others.2) := rfl

@[simp] theorem acceptField_nil (fieldId : BitVec 32) (v : Unit) (s : σ) :
    (nil.visitable V).acceptField fieldId v s = (v, s) := rfl

theorem acceptField_scalar (field : FieldInfo) (t : ScalarType) (rest : Fields)
    (fieldId : BitVec 32) (v : t.Value × rest.Values) (s : σ) :
    ((scalar field t rest).visitable V).acceptField fieldId v s =
      if field.fieldIdentifier = fieldId then
        let visited := V.visit field t v.1 s
        ((visited.1, v.2), visited.2)
      else
        let others := (rest.visitable V).acceptField fieldId v.2 s
        ((v.1, others.1), others.2) := rfl

theorem acceptField_nested (field : FieldInfo) (info : MessageInfo) (fields rest : Fields)
    (fieldId : BitVec 32) (v : fields.Values × rest.Values) (s : σ) :
    ((nested field info fields rest).visitable V).acceptField fieldId v s =
      if field.fieldIdentifier = fieldId then
        let visited := V.visitMessage field ((MessageType.mk info fields).visitable V) v.1 s
        ((visited.1, v.2), visited.2)
      else
        let others := (rest.visitable V).acceptField fieldId v.2 s
        ((v.1, others.1), others.2) := rfl

end Fields

end Accept

end Cluon
