import Cluon.Library.KeyValueMap
import Cluon.Message.Visitable

/-!
# Message specifications

A `MetaMessage` describes a message type at run time: its names, its identifier, and its
fields with their types. The type of a nested message is given by name and has to be looked
up among all the messages of a specification.
-/

set_option autoImplicit false

namespace Cluon

open Library

/-- The type of a field in a specification. -/
inductive MetaFieldDataType where
  | scalar (t : ScalarType)
  | message
  | undefined
  deriving DecidableEq, Repr

/-- A field in a specification. -/
structure MetaField where
  fieldDataType : MetaFieldDataType
  fieldDataTypeName : Bytes
  fieldName : Bytes
  fieldIdentifier : BitVec 32
  defaultInitializationValue : Bytes
  deriving DecidableEq, Repr

namespace MetaField

/-- What a visitor is told about a field. -/
def info (f : MetaField) : FieldInfo := ⟨f.fieldIdentifier, f.fieldDataTypeName, f.fieldName⟩

end MetaField

/-- A message in a specification. -/
structure MetaMessage where
  packageName : Bytes
  messageName : Bytes
  messageIdentifier : BitVec 32
  listOfMetaFields : List MetaField
  deriving DecidableEq, Repr

/-- The messages of a specification by their names; the last one of a name counts. -/
def mapForScopeOfMetaMessages (mms : List MetaMessage) : KeyValueMap Bytes MetaMessage :=
  mms.foldl (fun scope mm => scope.assign mm.messageName mm) []

/-- In a specification of messages with different names each of them is found. -/
theorem find_scope_of_mem {mms : List MetaMessage}
    (distinct : (mms.map MetaMessage.messageName).Nodup) {mm : MetaMessage} (member : mm ∈ mms) :
    (mapForScopeOfMetaMessages mms).find mm.messageName = some mm := by
  have entries : mapForScopeOfMetaMessages mms =
      KeyValueMap.assignAll [] (mms.map fun mm => (mm.messageName, mm)) := by
    rw [KeyValueMap.assignAll, List.foldl_map]
    rfl
  rw [entries]
  have inEntries : (mm.messageName, mm) ∈ mms.map fun mm => (mm.messageName, mm) :=
    List.mem_map.mpr ⟨mm, member, rfl⟩
  refine KeyValueMap.find_assignAll _ ?_ inEntries []
  rwa [List.map_map]

/-- The fields of a specification are those of a message type: the same identifiers and types
in the same order, where the nested messages are found in the scope. -/
def Fields.Describes (scope : KeyValueMap Bytes MetaMessage) : Fields → List MetaField → Prop
  | .nil, fields => fields = []
  | .scalar field t rest, fields =>
      ∃ f fs, fields = f :: fs ∧ f.fieldIdentifier = field.fieldIdentifier ∧
        f.fieldDataType = .scalar t ∧ rest.Describes scope fs
  | .nested field _ inner rest, fields =>
      ∃ f fs mm, fields = f :: fs ∧ f.fieldIdentifier = field.fieldIdentifier ∧
        f.fieldDataType = .message ∧ scope.find f.fieldDataTypeName = some mm ∧
        inner.Describes scope mm.listOfMetaFields ∧ rest.Describes scope fs

/-- The specification describes a message type. -/
def MetaMessage.Describes (mms : List MetaMessage) (mm : MetaMessage) (T : MessageType) : Prop :=
  T.fields.Describes (mapForScopeOfMetaMessages mms) mm.listOfMetaFields

end Cluon
