import Cluon.Library.Protobuf
import Cluon.Message.MetaMessage

/-!
# Protobuf schemas from message specifications

`MetaMessageToProtoTransformator` turns a `MetaMessage` into a message of a `.proto` file. The
names of messages lose their dots: the package, the prefix of the message name, and the name
itself are joined with underscores. A field whose type is a message gets the name of the package
and the name of that message, joined in the same way (`text_eq_message`).

The messages of a specification make a schema (`schema`), in which a text emitted as the type of
a field means what Protobuf means by it.
-/

set_option autoImplicit false

namespace Cluon

open Library Protobuf

namespace MetaMessageToProtoTransformator

/-- A `fieldEntry`: the type, the name, and the identifier of a field. -/
structure FieldEntry where
  type : Bytes
  name : Bytes
  fieldIdentifier : BitVec 32
  deriving DecidableEq, Repr

/-- `m_dataToBeRendered` and `m_fields`. -/
structure DataToBeRendered where
  messageIdentifier : BitVec 32
  message : Bytes
  fields : List FieldEntry
  deriving DecidableEq, Repr

/-- `std::replace(s.begin(), s.end(), '.', '_')`. -/
def withUnderscores (s : Bytes) : Bytes := s.map fun c => if c = 0x2E then 0x5F else c

/-- `typeToTypeStringMap`. -/
def typeToTypeStringMap : ScalarType → Bytes
  | .bool => asciiBytes "bool"
  | .char => asciiBytes "sint32"
  | .uint8 => asciiBytes "uint32"
  | .int8 => asciiBytes "sint32"
  | .uint16 => asciiBytes "uint32"
  | .int16 => asciiBytes "sint32"
  | .uint32 => asciiBytes "uint32"
  | .int32 => asciiBytes "sint32"
  | .uint64 => asciiBytes "uint64"
  | .int64 => asciiBytes "sint64"
  | .float => asciiBytes "float"
  | .double => asciiBytes "double"
  | .string => asciiBytes "string"
  | .bytes => asciiBytes "bytes"

/-- What stands before and behind the dot that `find_last_of('.')` finds. -/
def splitAtLastDot : Bytes → Option (Bytes × Bytes)
  | [] => none
  | c :: s =>
      match splitAtLastDot s with
      | some (before, after) => some (c :: before, after)
      | none => if c = 0x2E then some ([], s) else none

/-- `completeMessageNameWithUnderscores`. -/
def completeMessageNameWithUnderscores (mm : MetaMessage) : Bytes :=
  let (namespacePrefix, messageName) :=
    (splitAtLastDot mm.messageName).getD ([], mm.messageName)
  let packageNameWithUnderscores := withUnderscores mm.packageName
  let completePackageNameWithNamespacePrefix := packageNameWithUnderscores ++
    (if packageNameWithUnderscores ≠ [] ∧ namespacePrefix ≠ [] then asciiBytes "." else []) ++
    namespacePrefix
  let completePackageNameWithNamespacePrefixWithUnderscores :=
    withUnderscores completePackageNameWithNamespacePrefix
  completePackageNameWithNamespacePrefixWithUnderscores ++
    (if completePackageNameWithNamespacePrefixWithUnderscores ≠ [] then asciiBytes "_" else []) ++
    messageName

/-- The name of a message under the package that refers to it, with underscores. -/
def messageTypeText (packageName messageName : Bytes) : Bytes :=
  withUnderscores packageName ++
    (if withUnderscores packageName ≠ [] then asciiBytes "_" else []) ++ withUnderscores messageName

/-- The type of a field in the schema. -/
def typeText (mm : MetaMessage) (f : MetaField) : Bytes :=
  match f.fieldDataType with
  | .scalar t => typeToTypeStringMap t
  | .message => messageTypeText mm.packageName f.fieldDataTypeName
  -- `typeToTypeStringMap[...]` adds an empty string for a type that it does not have.
  | .undefined => []

/-- `visit(mm)`. -/
def visit (mm : MetaMessage) : DataToBeRendered where
  messageIdentifier := mm.messageIdentifier
  message := completeMessageNameWithUnderscores mm
  fields := mm.listOfMetaFields.map fun f =>
    ⟨typeText mm f, withUnderscores f.fieldName, f.fieldIdentifier⟩

/-! ## The emitted schema -/

/-- The field of a schema that a field entry is rendered to. -/
def FieldEntry.field (entry : FieldEntry) : Field :=
  ⟨entry.fieldIdentifier.toNat, FieldType.ofText entry.type⟩

/-- The message of a schema that the template is rendered to. -/
def DataToBeRendered.schemaMessage (data : DataToBeRendered) : Message :=
  ⟨data.message, data.fields.map FieldEntry.field⟩

/-- The schema of all messages of a specification. -/
def schema (mms : List MetaMessage) : Schema := mms.map fun mm => (visit mm).schemaMessage

/-! ## Names -/

theorem withUnderscores_append (s t : Bytes) :
    withUnderscores (s ++ t) = withUnderscores s ++ withUnderscores t := List.map_append

theorem withUnderscores_eq_nil {s : Bytes} : withUnderscores s = [] ↔ s = [] := List.map_eq_nil_iff

/-- A name without dots stays as it is. -/
theorem withUnderscores_of_notMem {s : Bytes} (h : 0x2E ∉ s) : withUnderscores s = s := by
  refine (List.map_congr_left fun c member => ?_).trans (List.map_id s)
  exact if_neg fun dot : c = 0x2E => h (dot ▸ member)

theorem withUnderscores_idem (s : Bytes) :
    withUnderscores (withUnderscores s) = withUnderscores s := by
  apply withUnderscores_of_notMem
  intro member
  obtain ⟨c, -, dot⟩ := List.mem_map.mp member
  by_cases isDot : c = 0x2E
  · simp [isDot] at dot
  · rw [if_neg isDot] at dot
    exact isDot dot

theorem splitAtLastDot_none : ∀ {s : Bytes}, splitAtLastDot s = none → 0x2E ∉ s
  | [], _ => by simp
  | c :: s, h => by
      rw [splitAtLastDot] at h
      rcases later : splitAtLastDot s with _ | ⟨before, after⟩
      · rw [later] at h
        have notHere : c ≠ 0x2E := fun dot => by simp [dot] at h
        exact List.not_mem_cons_of_ne_of_not_mem (Ne.symm notHere) (splitAtLastDot_none later)
      · rw [later] at h
        cases h

theorem splitAtLastDot_some : ∀ {s before after : Bytes},
    splitAtLastDot s = some (before, after) → before ++ 0x2E :: after = s ∧ 0x2E ∉ after
  | [], _, _, h => nomatch h
  | c :: s, before, after, h => by
      rw [splitAtLastDot] at h
      rcases later : splitAtLastDot s with _ | ⟨before', after'⟩
      · rw [later] at h
        by_cases dot : c = 0x2E
        · rw [if_pos dot] at h
          obtain ⟨rfl, rfl⟩ := Prod.mk.injEq .. ▸ Option.some.inj h
          exact ⟨by rw [dot]; rfl, splitAtLastDot_none later⟩
        · rw [if_neg dot] at h
          cases h
      · rw [later] at h
        obtain ⟨rfl, rfl⟩ := Prod.mk.injEq .. ▸ Option.some.inj h
        obtain ⟨split, last⟩ := splitAtLastDot_some later
        exact ⟨by rw [← split]; rfl, last⟩

/-- **The type of a field is the name of the message it refers to**, if both have the same package
and the name does not begin with a dot. -/
theorem text_eq_message {packageName : Bytes} {mm : MetaMessage}
    (package : mm.packageName = packageName) (name : mm.messageName.head? ≠ some 0x2E) :
    messageTypeText packageName mm.messageName = (visit mm).message := by
  subst package
  simp only [visit, completeMessageNameWithUnderscores, messageTypeText]
  rcases parts : splitAtLastDot mm.messageName with _ | ⟨namespacePrefix, messageName⟩
  · have noDots := withUnderscores_of_notMem (splitAtLastDot_none parts)
    by_cases empty : mm.packageName = []
    · have nothing : withUnderscores [] = [] := rfl
      simp [empty, noDots, nothing]
    · simp [withUnderscores_idem, withUnderscores_eq_nil, empty, noDots]
  · obtain ⟨split, last⟩ := splitAtLastDot_some parts
    have nonempty : namespacePrefix ≠ [] := by
      rintro rfl
      exact name (by rw [← split]; rfl)
    have joined : withUnderscores mm.messageName =
        withUnderscores namespacePrefix ++ (asciiBytes "_" ++ messageName) := by
      rw [← split, withUnderscores_append]
      exact congrArg _ (congrArg _ (withUnderscores_of_notMem last))
    by_cases empty : mm.packageName = []
    · have nothing : withUnderscores [] = [] := rfl
      simp [empty, joined, nothing, withUnderscores_eq_nil, nonempty]
    · have dot : withUnderscores (asciiBytes ".") = asciiBytes "_" := rfl
      simp [withUnderscores_append, withUnderscores_idem, withUnderscores_eq_nil, empty, nonempty,
        dot, joined]

end MetaMessageToProtoTransformator

end Cluon
