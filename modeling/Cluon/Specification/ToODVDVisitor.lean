import Cluon.Library.DecimalNumber
import Cluon.Message.Visitable

/-!
# Messages as specifications

`ToODVDVisitor` writes a specification of the message that accepts it. For every field it appends
a line to its buffer, between the lines of `preVisit` and `postVisit`. The specification of a
nested message is written by a visitor of its own and put in front of all others, every time that
a field has the type of the message. So the text consists of declarations, one for each message
type each time that it occurs (`messageSpecification_eq`).
-/

set_option autoImplicit false

namespace Cluon

open Library

/-! ## The visitor -/

/-- The members of a visitor. -/
structure ToODVDVisitor where
  forwardDeclarations : List Bytes
  buffer : Bytes
  deriving DecidableEq, Repr

namespace ToODVDVisitor

/-- A newly constructed visitor. -/
def init : ToODVDVisitor := ⟨[], []⟩

/-- `messageSpecification()`. -/
def specification (s : ToODVDVisitor) : Bytes := s.forwardDeclarations.flatten ++ s.buffer

/-- `m_buffer << text`. -/
def append (s : ToODVDVisitor) (text : Bytes) : ToODVDVisitor :=
  { s with buffer := s.buffer ++ text }

/-- The type and the default value that are written for a scalar. -/
def scalarText : ScalarType → String × String
  | .bool => ("bool", "false")
  | .char => ("char", "'0'")
  | .int8 => ("int8", "0")
  | .uint8 => ("uint8", "0")
  | .int16 => ("int16", "0")
  | .uint16 => ("uint16", "0")
  | .int32 => ("int32", "0")
  | .uint32 => ("uint32", "0")
  | .int64 => ("int64", "0")
  | .uint64 => ("uint64", "0")
  | .float => ("float", "0.0")
  | .double => ("double", "0.0")
  | .bytes | .string => ("string", "\"\"")

/-- `std::regex_replace(typeName, std::regex("::"), ".")`. -/
def dotted : Bytes → Bytes
  | 0x3A :: 0x3A :: s => 0x2E :: dotted s
  | c :: s => c :: dotted s
  | [] => []

/-- The line of a scalar field. -/
def scalarLine (field : FieldInfo) (t : ScalarType) : Bytes :=
  asciiBytes "    " ++ asciiBytes (scalarText t).1 ++ asciiBytes " " ++ field.name ++
    asciiBytes " [ default = " ++ asciiBytes (scalarText t).2 ++ asciiBytes ", id = " ++
    decimal field.fieldIdentifier.toNat ++ asciiBytes " ];\n"

/-- The line of a nested message. -/
def messageLine (field : FieldInfo) : Bytes :=
  asciiBytes "    " ++ dotted field.typeName ++ asciiBytes " " ++ field.name ++
    asciiBytes " [ id = " ++ decimal field.fieldIdentifier.toNat ++ asciiBytes " ];\n"

/-- The line of `preVisit`. -/
def headLine (info : MessageInfo) : Bytes :=
  asciiBytes "message " ++ info.longName ++ asciiBytes " [ id = " ++ decimalInt info.id.toInt ++
    asciiBytes " ] \x7b\n"

/-- The visitor, with its members as the state. -/
def visitor : Visitor ToODVDVisitor where
  preVisit info s := s.append (headLine info)
  postVisit s := s.append (asciiBytes "\x7d\n")
  visit field t v s := (v, s.append (scalarLine field t))
  visitMessage field obj v s :=
    let nested := obj.accept v init
    (nested.1, { s with forwardDeclarations := nested.2.specification :: s.forwardDeclarations
      }.append (messageLine field))

/-- `messageSpecification()` after a message accepted a fresh visitor. -/
def messageSpecification (T : MessageType) (m : T.Values) : Bytes :=
  ((T.visitable visitor).accept m init).2.specification

end ToODVDVisitor

/-! ## Members and types -/

/-- The type of a field: a scalar, or a message type. -/
inductive FieldType where
  | scalar (t : ScalarType)
  | message (T : MessageType)
  deriving DecidableEq, Repr

namespace Fields

/-- The fields of a message with their types, without those of nested messages. -/
def members : Fields → List (FieldInfo × FieldType)
  | .nil => []
  | .scalar field t rest => (field, .scalar t) :: rest.members
  | .nested field info inner rest => (field, .message ⟨info, inner⟩) :: rest.members

/-- The types of the nested messages, each as often as it occurs: those of later fields in front,
and those that occur within a type in front of it. -/
def nestedTypes : Fields → List MessageType
  | .nil => []
  | .scalar _ _ rest => rest.nestedTypes
  | .nested _ info inner rest => rest.nestedTypes ++ (inner.nestedTypes ++ [⟨info, inner⟩])

end Fields

/-- The message types that occur in a message type, and the type itself. -/
def MessageType.types (T : MessageType) : List MessageType := T.fields.nestedTypes ++ [T]

namespace ToODVDVisitor

/-! ## The text -/

/-- The line of a field. -/
def line : FieldInfo × FieldType → Bytes
  | (field, .scalar t) => scalarLine field t
  | (field, .message _) => messageLine field

/-- The declaration of a message type, without those of nested messages. -/
def declaration (T : MessageType) : Bytes :=
  headLine T.info ++ T.fields.members.flatMap line ++ asciiBytes "\x7d\n"

/-- What a visitor appends that a message accepts. -/
def Appends (fs : Fields) : Prop :=
  ∀ (v : fs.Values) (s : ToODVDVisitor), ∃ forward,
    ((fs.visitable visitor).accept v s).2 =
      ⟨forward ++ s.forwardDeclarations, s.buffer ++ fs.members.flatMap line⟩ ∧
    forward.flatten = fs.nestedTypes.flatMap declaration

theorem specification_accept {fs : Fields} (appends : Appends fs) (info : MessageInfo)
    (v : fs.Values) :
    (((MessageType.mk info fs).visitable visitor).accept v init).2.specification =
      (MessageType.mk info fs).types.flatMap declaration := by
  obtain ⟨forward, state, text⟩ := appends v (init.append (headLine info))
  rw [MessageType.accept_eq, acceptAll]
  change ((((fs.visitable visitor).accept v (init.append (headLine info))).2.append
    (asciiBytes "\x7d\n")).specification) = _
  rw [state, MessageType.types, List.flatMap_append, ← text, List.flatMap_singleton, declaration]
  simp [specification, append, init]

/-- **Accepting a visitor** appends the lines of the fields, and puts the declarations of nested
messages in front. -/
theorem appends (fs : Fields) : Appends fs := by
  induction fs with
  | nil => intro v s; exact ⟨[], by simp [Fields.members], rfl⟩
  | scalar field t rest ih =>
      intro v s
      obtain ⟨forward, state, text⟩ := ih v.2 (s.append (scalarLine field t))
      refine ⟨forward, ?_, text⟩
      rw [Fields.accept_scalar]
      apply state.trans
      rw [Fields.members, List.flatMap_cons]
      simp [append, line]
  | nested field info inner rest ihInner ih =>
      intro v s
      have inside := specification_accept ihInner info v.1
      set nested := ((MessageType.mk info inner).visitable visitor).accept v.1 init with isNested
      obtain ⟨forward, state, text⟩ := ih v.2
        ⟨nested.2.specification :: s.forwardDeclarations, s.buffer ++ messageLine field⟩
      refine ⟨forward ++ [nested.2.specification], ?_, ?_⟩
      · rw [Fields.accept_nested]
        apply state.trans
        rw [Fields.members, List.flatMap_cons, List.append_assoc, List.append_assoc]
        rfl
      · rw [List.flatten_append, text, Fields.nestedTypes, List.flatMap_append, inside]
        simp [MessageType.types]

/-- **The text of a message** consists of the declarations of its types. -/
theorem messageSpecification_eq (T : MessageType) (m : T.Values) :
    messageSpecification T m = T.types.flatMap declaration :=
  specification_accept (appends T.fields) T.info m

end ToODVDVisitor

end Cluon
