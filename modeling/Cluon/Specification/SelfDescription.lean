import Cluon.Generic.CompiledPath
import Cluon.Specification.Declarations
import Cluon.Specification.DuplicateFree

/-!
# Messages that describe themselves

A message writes its own specification (`messageSpecification`), which the parser reads back to
`MetaMessage`s. A generic message that is created from them is of the same type as the message,
apart from fields of type `bytes`, which come back as `string` (`describes_metaMessage`). So it can
take the place of the message between decoding and encoding.

This does not work for every message. The specification declares a nested type every time that it
occurs, which the parser takes as a duplicate; a name that begins with a keyword is not read as the
type of a field; and two fields may have the same identifier. `describesItself_iff` says that these
are the only cases in which a message does not describe itself.
-/

set_option autoImplicit false

namespace Cluon

open Library MessageParser ToODVDVisitor

/-! ## Duplicates in the text -/

@[simp] theorem identifiers_fieldNode (f : FieldInfo × FieldType) :
    (fieldNode f).identifiers = [numberToken f.1.fieldIdentifier.toNat] := by
  obtain ⟨field, t | T⟩ := f <;> rfl

@[simp] theorem name_fieldNode (f : FieldInfo × FieldType) : (fieldNode f).name = f.1.name := by
  obtain ⟨field, t | T⟩ := f <;> rfl

namespace MessageParser

theorem isBlank_of_isNameCharacter {c : Byte} (h : isNameCharacter c) :
    stringtoolbox.isBlank c = false := by
  revert h
  decide +revert

/-- The blank behind the name of a message type is cut off. -/
theorem IsDottedName.trim_append {w : Bytes} (h : IsDottedName w) :
    stringtoolbox.trim (w ++ [0x20]) = w := by
  have noBlank : ∀ c ∈ w, stringtoolbox.isBlank c = false := by
    intro c member
    rcases h.all c member with character | rfl
    · exact isBlank_of_isNameCharacter character
    · rfl
  rw [stringtoolbox.trim, stringtoolbox.rtrim, List.rdropWhile_concat_pos _ _ _ rfl]
  exact stringtoolbox.trim_eq_self noBlank

end MessageParser

namespace MessageType

/-- The fields of a message type have different names and different identifiers. -/
def DistinctFields (T : MessageType) : Prop :=
  (T.fields.keys FieldInfo.fieldIdentifier).Nodup ∧ (T.fields.keys FieldInfo.name).Nodup

instance (T : MessageType) : Decidable T.DistinctFields :=
  inferInstanceAs (Decidable ((T.fields.keys FieldInfo.fieldIdentifier).Nodup ∧
    (T.fields.keys FieldInfo.name).Nodup))

theorem firstDistinct_declarationNode (T : MessageType) :
    (declarationNode T).FirstDistinct ↔ T.DistinctFields := by
  have identifiers : ((T.fields.members.map fieldNode).filterMap
      fun f => f.identifiers.head?).map number =
        (T.fields.keys FieldInfo.fieldIdentifier).map BitVec.toNat := by
    rw [← Fields.map_members, List.filterMap_map, List.map_map]
    simp [Function.comp_def, number_numberToken]
  have names : (T.fields.members.map fieldNode).map FieldNode.name =
      T.fields.keys FieldInfo.name := by
    rw [← Fields.map_members, List.map_map]
    simp [Function.comp_def]
  rw [MessageDeclaration.FirstDistinct, declarationNode, identifiers, names,
    List.nodup_map_iff fun _ _ same => BitVec.eq_of_toNat_eq same]
  rfl

namespace Generated

variable {T : MessageType} (h : T.Generated)
include h

theorem checkable : (tree T).Checkable := by
  intro node member
  obtain ⟨U, inTypes, rfl⟩ := List.mem_map.mp member
  refine ⟨?_, fun f inFields token first => ?_⟩
  · change number (numberToken U.identifier) < 2 ^ 31
    rw [number_numberToken, identifier]
    have := U.info.id.toInt_lt
    have := h.identifiers U inTypes
    omega
  · obtain ⟨g, inMembers, rfl⟩ := List.mem_map.mp inFields
    rw [identifiers_fieldNode] at first
    obtain rfl := Option.some.inj first
    rw [number_numberToken]
    exact (h.fields U inTypes g inMembers).identifier.2.trans (by norm_num)

/-- What the check finds in the text of a message. -/
theorem firstDistinct_iff :
    (tree T).FirstDistinct ↔ T.types.Nodup ∧ ∀ U ∈ T.types, U.DistinctFields := by
  have each : (∀ m ∈ (tree T).messages, m.FirstDistinct) ↔ ∀ U ∈ T.types, U.DistinctFields :=
    List.forall_mem_map.trans (forall₂_congr fun U _ => U.firstDistinct_declarationNode)
  have numbers : ((tree T).messages.map fun m => number m.identifier) = T.types.map identifier := by
    rw [tree, List.map_map]
    exact List.map_congr_left fun U _ => number_numberToken U.identifier
  have names : ((tree T).messages.map fun m => stringtoolbox.trim m.messageName) =
      T.types.map fun U => U.info.longName := by
    rw [tree, List.map_map]
    exact List.map_congr_left fun U member => (h.names U member).trim_append
  rw [MessagesSpecification.FirstDistinct, each, numbers, names]
  constructor
  · rintro ⟨fields, distinct, -⟩
    exact ⟨distinct.of_map _, fields⟩
  · rintro ⟨distinct, fields⟩
    refine ⟨fields, ?_, ?_⟩
    · refine distinct.map_on fun U inTypes V inTypes' same =>
        h.sameIdentifier U inTypes V inTypes' ?_
      have := h.identifiers U inTypes
      have := h.identifiers V inTypes'
      rw [identifier, identifier] at same
      exact BitVec.eq_of_toInt_eq (by omega)
    · exact distinct.map_on fun U inTypes V inTypes' same => h.sameName U inTypes V inTypes' same

end Generated

end MessageType

/-! ## The messages that are read -/

/-- The type in which a scalar comes back. -/
def ScalarType.readBack : ScalarType → ScalarType
  | .bytes => .string
  | t => t

/-- The field of a specification that a field is read as. -/
def metaField : FieldInfo × FieldType → MetaField
  | (field, .scalar t) =>
      ⟨.scalar t.readBack, asciiBytes (scalarText t).1, field.name, field.fieldIdentifier,
        asciiBytes (scalarText t).2⟩
  | (field, .message T) => ⟨.message, T.info.longName, field.name, field.fieldIdentifier, []⟩

/-- The message of a specification that a message type is read as. -/
def metaMessage (T : MessageType) : MetaMessage :=
  ⟨[], T.info.longName, T.info.id, T.fields.members.map metaField⟩

namespace MessageParser

theorem fieldDataType_scalarText (t : ScalarType) :
    fieldDataType (asciiBytes (scalarText t).1) = .scalar t.readBack ∧
      stringtoolbox.trim (asciiBytes (scalarText t).1) = asciiBytes (scalarText t).1 := by
  cases t <;> exact ⟨rfl, rfl⟩

/-- A token with a blank is none of a scalar type. -/
theorem fieldDataType_append (w : Bytes) : fieldDataType (w ++ [0x20]) = .message := by
  have noBlank : ∀ entry ∈ stringToDataTypeMap, (0x20 : Byte) ∉ entry.1 := by decide
  have none : (stringToDataTypeMap.find? fun entry => entry.1 = w ++ [0x20]) = none := by
    refine List.find?_eq_none.mpr fun entry member same => noBlank entry member ?_
    rw [of_decide_eq_true same]
    exact List.mem_append_right _ List.mem_cons_self
  rw [fieldDataType, none]

/-- The default value of a scalar is read as it is written. -/
theorem initializerValue_defaultNode (t : ScalarType) :
    (defaultNode t).initializerValue = asciiBytes (scalarText t).2 := by
  cases t <;> rfl

/-- What is made of the node of a field. -/
theorem metaField_eq {f : FieldInfo × FieldType} (generated : GeneratedField f) :
    (⟨fieldDataType (fieldNode f).primitiveType, stringtoolbox.trim (fieldNode f).primitiveType,
      f.1.name, BitVec.ofNat 32 (number (numberToken f.1.fieldIdentifier.toNat)),
      (fieldNode f).defaultInitializerValue⟩ : MetaField) =
        metaField f := by
  rw [number_numberToken, BitVec.ofNat_toNat, BitVec.setWidth_eq]
  obtain ⟨field, t | T⟩ := f
  · obtain ⟨type, trimmed⟩ := fieldDataType_scalarText t
    have value : (fieldNode (field, .scalar t)).defaultInitializerValue =
        asciiBytes (scalarText t).2 := initializerValue_defaultNode t
    rw [value]
    simp only [fieldNode, metaField, type, trimmed]
  · obtain ⟨-, isDotted, -⟩ := generated.typeName T rfl
    have value : (fieldNode (field, .message T)).defaultInitializerValue = [] := rfl
    rw [value]
    simp only [fieldNode, metaField, fieldDataType_append, isDotted.trim_append]

theorem createMetaFields_fieldNode {fs : List (FieldInfo × FieldType)} :
    (∀ f ∈ fs, GeneratedField f) → (∀ f ∈ fs, FieldWellFormed (fieldNode f)) →
      ∀ counter, createMetaFields counter (fs.map fieldNode) = some (fs.map metaField) := by
  induction fs with
  | nil => intro _ _ _; rfl
  | cons f fs ih =>
      intro generated wellFormed counter
      obtain ⟨here, others⟩ := List.forall_mem_cons.mp generated
      obtain ⟨isWellFormed, wellFormed⟩ := List.forall_mem_cons.mp wellFormed
      have creatable : (fieldNode f).Creatable := by
        intro token last
        rw [identifiers_fieldNode] at last
        have same : numberToken f.1.fieldIdentifier.toNat = token := Option.some.inj last
        rw [← same, number_numberToken]
        exact here.identifier.2.trans (by norm_num)
      rw [List.map_cons, createMetaFields_cons isWellFormed, if_pos creatable,
        ih others wellFormed, identifiers_fieldNode, name_fieldNode]
      exact congrArg (fun field => some (field :: fs.map metaField)) (metaField_eq here)

end MessageParser

namespace MessageType.Generated

variable {T : MessageType} (h : T.Generated)
include h

theorem transform2MetaMessages_tree (wellFormed : ∀ m ∈ (tree T).messages, MessageWellFormed m) :
    transform2MetaMessages (tree T) = some (T.types.map metaMessage) := by
  have each : ∀ U ∈ T.types, createMetaMessage [] (declarationNode U) =
      if True then some (metaMessage U) else none := by
    intro U member
    have isWellFormed := wellFormed _ (List.mem_map_of_mem member)
    have number := stoi_of_isNumber isWellFormed.identifier
    have small := (h.checkable _ (List.mem_map_of_mem member)).1
    have fields := createMetaFields_fieldNode (h.fields U member)
      (List.forall_mem_map.mp isWellFormed.fields) 0
    have id : BitVec.ofInt 32 (MessageParser.number (declarationNode U).identifier) =
        U.info.id := by
      have positive := h.identifiers U member
      rw [declarationNode, number_numberToken, identifier, Int.natAbs_of_nonneg positive.le,
        BitVec.ofInt_toInt]
    have name : stringtoolbox.trim (declarationNode U).messageName = U.info.longName :=
      (h.names U member).trim_append
    rw [if_pos small] at number
    rw [if_pos trivial, createMetaMessage, number, Option.bind_eq_bind, Option.bind_some, name, id]
    exact congrArg (fun fields => fields.bind fun fields =>
      some (⟨[], U.info.longName, U.info.id, fields⟩ : MetaMessage)) fields
  have all := mapM_eq_ite each
  rw [if_pos fun _ _ => trivial] at all
  exact (List.mapM_map ..).trans all

/-- **What the parser finds** in the text of a message. -/
theorem parse_messageSpecification (m : T.Values) :
    parse (messageSpecification T m) =
      if T.NoKeyword then
        if T.types.Nodup ∧ ∀ U ∈ T.types, U.DistinctFields then
          some (T.types.map metaMessage, .noMessageParserError)
        else some ([], .duplicateIdentifiers)
      else some ([], .syntaxError) := by
  have text := syntaxTree_messageSpecification h m
  rw [parse, text]
  by_cases noKeyword : T.NoKeyword
  · rw [if_pos noKeyword] at text ⊢
    have wellFormed := wellFormed_of_syntaxTree text
    simp only [resultOf_eq wellFormed, if_pos h.checkable, if_pos noKeyword,
      h.transform2MetaMessages_tree wellFormed, Option.map_some, h.firstDistinct_iff]
  · rw [if_neg noKeyword, if_neg noKeyword]

end MessageType.Generated

/-! ## The description -/

namespace ScalarType

/-- A value in the type in which it comes back. -/
def asReadBack : (t : ScalarType) → t.Value → t.readBack.Value
  | .bool, v => v
  | .char, v => v
  | .uint8, v => v
  | .int8, v => v
  | .uint16, v => v
  | .int16, v => v
  | .uint32, v => v
  | .int32, v => v
  | .uint64, v => v
  | .int64, v => v
  | .float, v => v
  | .double, v => v
  | .bytes, v => v
  | .string, v => v

end ScalarType

namespace Fields

/-- The fields of a message that come back. -/
def readBack : Fields → Fields
  | .nil => .nil
  | .scalar field t rest => .scalar field t.readBack rest.readBack
  | .nested field info inner rest => .nested field info inner.readBack rest.readBack

/-- A message with the fields that come back. -/
def asReadBack : (fs : Fields) → fs.Values → fs.readBack.Values
  | .nil, _ => ()
  | .scalar _ t rest, m => (t.asReadBack m.1, rest.asReadBack m.2)
  | .nested _ _ inner rest, m => (inner.asReadBack m.1, rest.asReadBack m.2)

/-- The bytes of a message do not depend on it. -/
theorem protoBytes_readBack (fs : Fields) :
    ∀ m : fs.Values, fs.readBack.protoBytes (fs.asReadBack m) = fs.protoBytes m := by
  induction fs with
  | nil => intro _; rfl
  | scalar field t rest ih =>
      intro m
      have same : ToProtoVisitor.encode t.readBack (t.asReadBack m.1) =
          ToProtoVisitor.encode t m.1 := by
        cases t <;> rfl
      have type : t.readBack.protoType = t.protoType := by
        cases t <;> rfl
      change toVarInt (encodeKey field.fieldIdentifier t.readBack.protoType) ++
        ToProtoVisitor.encode t.readBack (t.asReadBack m.1) ++
          rest.readBack.protoBytes (rest.asReadBack m.2) = _
      rw [same, type, ih]
      rfl
  | nested field info inner rest ihInner ih =>
      intro m
      change toVarInt (encodeKey field.fieldIdentifier .lengthDelimited) ++
        ToProtoVisitor.encodeString (inner.readBack.protoBytes (inner.asReadBack m.1)) ++
          rest.readBack.protoBytes (rest.asReadBack m.2) = _
      rw [ihInner, ih]
      rfl

@[simp] theorem keys_readBack {κ : Type} (key : FieldInfo → κ) (fs : Fields) :
    fs.readBack.keys key = fs.keys key := by
  induction fs with
  | nil => rfl
  | scalar field t rest ih => exact congrArg (key field :: ·) ih
  | nested field info inner rest _ ih => exact congrArg (key field :: ·) ih

@[simp] theorem depth_readBack (fs : Fields) : fs.readBack.depth = fs.depth := by
  induction fs with
  | nil => rfl
  | scalar field t rest ih => exact ih
  | nested field info inner rest ihInner ih => rw [readBack, depth, depth, ihInner, ih]

/-- If a function is injective on the fields of all types that occur, then it is so at all
depths. -/
theorem distinct_readBack {κ : Type} (key : FieldInfo → κ) {fs : Fields} :
    (fs.keys key).Nodup → (∀ U ∈ fs.nestedTypes, (U.fields.keys key).Nodup) →
      fs.readBack.Distinct key := by
  induction fs with
  | nil => intro _ _; trivial
  | scalar field t rest ih =>
      intro here nested
      obtain ⟨new, others⟩ := List.nodup_cons.mp here
      exact ⟨(keys_readBack key rest).symm ▸ new, ih others nested⟩
  | nested field info inner rest ihInner ih =>
      intro here nested
      obtain ⟨new, others⟩ := List.nodup_cons.mp here
      have inside := fun U member => nested U (List.mem_append_right _ member)
      refine ⟨(keys_readBack key rest).symm ▸ new, ihInner ?_ ?_,
        ih others fun U member => nested U (List.mem_append_left _ member)⟩
      · exact inside ⟨info, inner⟩ (List.mem_append_right _ List.mem_cons_self)
      · exact fun U member => inside U (List.mem_append_left _ member)

/-- What holds of the fields of all types that occur holds at all depths. -/
theorem all_readBack {P : FieldInfo → Prop} {fs : Fields} :
    (∀ f ∈ fs.members, P f.1) → (∀ U ∈ fs.nestedTypes, ∀ f ∈ U.fields.members, P f.1) →
      fs.readBack.All P := by
  induction fs with
  | nil => intro _ _; trivial
  | scalar field t rest ih =>
      intro here nested
      obtain ⟨first, others⟩ := List.forall_mem_cons.mp here
      exact ⟨first, ih others nested⟩
  | nested field info inner rest ihInner ih =>
      intro here nested
      obtain ⟨first, others⟩ := List.forall_mem_cons.mp here
      have inside := fun U member => nested U (List.mem_append_right _ member)
      refine ⟨first, ihInner ?_ ?_,
        ih others fun U member => nested U (List.mem_append_left _ member)⟩
      · exact inside ⟨info, inner⟩ (List.mem_append_right _ List.mem_cons_self)
      · exact fun U member => inside U (List.mem_append_left _ member)

/-- **The fields that are read describe the fields that come back**, if the scope has the types of
nested messages. -/
theorem describes_readBack {scope : KeyValueMap Bytes MetaMessage} {fs : Fields} :
    (∀ U ∈ fs.nestedTypes, scope.find U.info.longName = some (metaMessage U)) →
      fs.readBack.Describes scope (fs.members.map metaField) := by
  induction fs with
  | nil => intro _; rfl
  | scalar field t rest ih => intro found; exact ⟨_, _, rfl, rfl, rfl, ih found⟩
  | nested field info inner rest ihInner ih =>
      intro found
      have inside := fun U member => found U (List.mem_append_right _ member)
      refine ⟨_, _, metaMessage ⟨info, inner⟩, rfl, rfl, rfl, ?_, ?_, ?_⟩
      · exact inside ⟨info, inner⟩ (List.mem_append_right _ List.mem_cons_self)
      · exact ihInner fun U member => inside U (List.mem_append_left _ member)
      · exact ih fun U member => found U (List.mem_append_left _ member)

end Fields

/-! ## Self-description -/

/-- A message describes itself: the parser reads the text of the message without an error, the
messages that it finds have one of the name of the message type, and every generic message that
is created from it gives the bytes of the message again after it has been decoded from them. -/
def DescribesItself (T : MessageType) (m : T.Values) : Prop :=
  ∃ mms, parse (messageSpecification T m) = some (mms, .noMessageParserError) ∧
    ∃ mm, (mapForScopeOfMetaMessages mms).find T.info.longName = some mm ∧
      ∀ (uninit : Nat → Byte) (n : Nat), T.fields.depth ≤ n →
        ∃ gm, GenericMessage.createFrom mms (n + 1) mm = some gm ∧
          GenericMessage.encodedData (GenericMessage.decodeDirect uninit FromProtoVisitor.init
            (ToProtoVisitor.encodedData T m) gm) = ToProtoVisitor.encodedData T m ∧
          GenericMessage.encodedData (GenericMessage.decodeTwoStage uninit FromProtoVisitor.init
            (ToProtoVisitor.encodedData T m) gm) = ToProtoVisitor.encodedData T m

namespace MessageType.Generated

variable {T : MessageType} (h : T.Generated)
include h

/-- Every type of a message is found in the scope of its text. -/
theorem find_scope (distinct : T.types.Nodup) {U : MessageType} (member : U ∈ T.types) :
    (mapForScopeOfMetaMessages (T.types.map metaMessage)).find U.info.longName =
      some (metaMessage U) := by
  have inScope : metaMessage U ∈ T.types.map metaMessage := List.mem_map_of_mem member
  have names : ((T.types.map metaMessage).map MetaMessage.messageName).Nodup := by
    rw [List.map_map]
    exact distinct.map_on fun U inTypes V inTypes' same => h.sameName U inTypes V inTypes' same
  exact find_scope_of_mem names inScope

/-- **The text of a message describes its type**, apart from fields of type `bytes`. -/
theorem describes_metaMessage (distinct : T.types.Nodup) :
    (metaMessage T).Describes (T.types.map metaMessage) ⟨T.info, T.fields.readBack⟩ :=
  Fields.describes_readBack fun _ member =>
    h.find_scope distinct (List.mem_append_left _ member)

/-- The bytes of a message pass through the generic messages of its text. -/
theorem exists_encodedData_eq (distinct : T.types.Nodup)
    (fields : ∀ U ∈ T.types, U.DistinctFields) (m : T.Values)
    (short : (ToProtoVisitor.encodedData T m).length < 2 ^ 64) (uninit : Nat → Byte) {n : Nat}
    (deep : T.fields.depth ≤ n) :
    ∃ gm, GenericMessage.createFrom (T.types.map metaMessage) (n + 1) (metaMessage T) = some gm ∧
      GenericMessage.encodedData (GenericMessage.decodeDirect uninit FromProtoVisitor.init
        (ToProtoVisitor.encodedData T m) gm) = ToProtoVisitor.encodedData T m ∧
      GenericMessage.encodedData (GenericMessage.decodeTwoStage uninit FromProtoVisitor.init
        (ToProtoVisitor.encodedData T m) gm) = ToProtoVisitor.encodedData T m := by
  have self : T ∈ T.types := List.mem_append_right _ List.mem_cons_self
  have distinctIdentifiers : T.fields.readBack.DistinctIdentifiers :=
    Fields.distinct_readBack _ (fields T self).1 fun U member =>
      (fields U (List.mem_append_left _ member)).1
  have ids : T.fields.readBack.ProtoIdentifiers :=
    Fields.all_readBack (fun f member => (h.fields T self f member).identifier.2)
      fun U inTypes f member =>
        (h.fields U (List.mem_append_left _ inTypes) f member).identifier.2
  have bytes : ToProtoVisitor.encodedData ⟨T.info, T.fields.readBack⟩ (T.fields.asReadBack m) =
      ToProtoVisitor.encodedData T m := by
    rw [ToProtoVisitor.encodedData_eq, ToProtoVisitor.encodedData_eq]
    exact T.fields.protoBytes_readBack m
  obtain ⟨gm, created, holds⟩ := GenericMessage.createFrom_holds (h.describes_metaMessage distinct)
    distinctIdentifiers (n := n) (by rwa [Fields.depth_readBack])
  have through := GenericMessage.encodedData_of_holds uninit
    (T := ⟨T.info, T.fields.readBack⟩) distinctIdentifiers ids (T.fields.asReadBack m)
    (by rwa [bytes]) (d := FromProtoVisitor.init) rfl holds
  rw [bytes] at through
  exact ⟨gm, created, through⟩

end MessageType.Generated

/-- **When messages describe themselves.** The text of a message is not read back without error if
a nested type occurs twice, if the name of a nested type begins with a keyword, or if two fields of
a type have the same identifier or name. In all other cases the message describes itself. -/
theorem describesItself_iff {T : MessageType} (generated : T.Generated) (m : T.Values)
    (short : (ToProtoVisitor.encodedData T m).length < 2 ^ 64) :
    DescribesItself T m ↔
      T.types.Nodup ∧ T.NoKeyword ∧ ∀ U ∈ T.types, U.DistinctFields := by
  have parsed := generated.parse_messageSpecification m
  constructor
  · rintro ⟨mms, noError, -⟩
    rw [parsed] at noError
    by_cases noKeyword : T.NoKeyword
    · by_cases distinct : T.types.Nodup ∧ ∀ U ∈ T.types, U.DistinctFields
      · exact ⟨distinct.1, noKeyword, distinct.2⟩
      · rw [if_pos noKeyword, if_neg distinct] at noError
        cases noError
    · rw [if_neg noKeyword] at noError
      cases noError
  · rintro ⟨distinct, noKeyword, fields⟩
    rw [if_pos noKeyword, if_pos ⟨distinct, fields⟩] at parsed
    have found := generated.find_scope distinct (List.mem_append_right _ List.mem_cons_self)
    exact ⟨_, parsed, _, found, fun uninit n deep =>
      generated.exists_encodedData_eq distinct fields m short uninit deep⟩

/-! ## The messages of libcluon -/

theorem isDottedName_cluonData {w : Bytes} (h : IsName w) :
    IsDottedName (asciiBytes "cluon.data." ++ w) := by
  have cluon : IsName (asciiBytes "cluon") := isName_asciiBytes rfl rfl
  have data : IsName (asciiBytes "data") := isName_asciiBytes rfl rfl
  refine ⟨asciiBytes "cluon", [asciiBytes "data", w], cluon, ?_, ?_⟩
  · exact List.forall_mem_cons.mpr ⟨data, List.forall_mem_cons.mpr ⟨h, nofun⟩⟩
  · rw [List.flatMap_cons, List.flatMap_cons, List.flatMap_nil, List.append_nil]
    rfl

theorem isDottedName_timeStamp : IsDottedName TimeStamp.info.longName :=
  isDottedName_cluonData (w := asciiBytes "TimeStamp") (isName_asciiBytes rfl rfl)

/-- A scalar field of libcluon. -/
theorem generatedField_scalar {typeName name : String} {id : Nat} (t : ScalarType)
    (isName : IsName (asciiBytes name)) (range : 0 < id ∧ id < 2 ^ 29) :
    GeneratedField (.declared typeName name id, .scalar t) := by
  have small : (BitVec.ofNat 32 id).toNat = id := Nat.mod_eq_of_lt (range.2.trans (by norm_num))
  exact ⟨isName, by rw [FieldInfo.declared, small]; exact range, nofun⟩

theorem declared_timeStamp : TimeStamp.Declared where
  name := isDottedName_timeStamp
  identifier := by decide
  fields := by
    refine List.forall_mem_cons.mpr ⟨?_, List.forall_mem_cons.mpr ⟨?_, nofun⟩⟩
    · exact generatedField_scalar .int32 (isName_asciiBytes rfl rfl) (by norm_num)
    · exact generatedField_scalar .int32 (isName_asciiBytes rfl rfl) (by norm_num)

/-- A message without nested messages has one type. -/
theorem MessageType.Declared.generated {T : MessageType} (h : T.Declared)
    (flat : T.fields.nestedTypes = []) : T.Generated := by
  have types : T.types = [T] := by rw [MessageType.types, flat, List.nil_append]
  have only {U : MessageType} (member : U ∈ T.types) : U = T := by
    rw [types] at member
    exact List.mem_singleton.mp member
  refine ⟨fun U member => ?_, fun U member => ?_, fun U member => ?_,
    fun U inTypes V inTypes' _ => (only inTypes).trans (only inTypes').symm,
    fun U inTypes V inTypes' _ => (only inTypes).trans (only inTypes').symm⟩
  · exact only member ▸ h.name
  · exact only member ▸ h.identifier
  · exact only member ▸ h.fields

/-- A time stamp in a message of libcluon. -/
theorem generatedField_timeStamp {name : String} {id : Nat} (isName : IsName (asciiBytes name))
    (range : 0 < id ∧ id < 2 ^ 29) :
    GeneratedField (.declared "cluon::data::TimeStamp" name id, .message TimeStamp) := by
  have small : (BitVec.ofNat 32 id).toNat = id := Nat.mod_eq_of_lt (range.2.trans (by norm_num))
  refine ⟨isName, by rw [FieldInfo.declared, small]; exact range, fun T same => ?_⟩
  obtain rfl := FieldType.message.inj same
  have inCpp : asciiBytes "cluon::data::TimeStamp" = colons TimeStamp.info.longName := by decide
  exact ⟨inCpp, isDottedName_timeStamp, by decide⟩

/-- A message with time stamps has two types. -/
theorem MessageType.Declared.generated_of_timeStamps {T : MessageType} (h : T.Declared)
    (types : ∀ U ∈ T.types, U = TimeStamp ∨ U = T)
    (otherName : TimeStamp.info.longName ≠ T.info.longName)
    (otherIdentifier : TimeStamp.info.id ≠ T.info.id) : T.Generated := by
  have declared {U : MessageType} (member : U ∈ T.types) : U.Declared := by
    rcases types U member with rfl | rfl
    · exact declared_timeStamp
    · exact h
  refine ⟨fun U member => (declared member).name, fun U member => (declared member).identifier,
    fun U member => (declared member).fields, fun U inTypes V inTypes' same => ?_,
    fun U inTypes V inTypes' same => ?_⟩
  · rcases types U inTypes with rfl | rfl <;> rcases types V inTypes' with rfl | rfl
    · rfl
    · exact absurd same otherName
    · exact absurd same.symm otherName
    · rfl
  · rcases types U inTypes with rfl | rfl <;> rcases types V inTypes' with rfl | rfl
    · rfl
    · exact absurd same otherIdentifier
    · exact absurd same.symm otherIdentifier
    · rfl

/-- A reading at a time. -/
def Reading : MessageType where
  info := ⟨7, asciiBytes "Reading", asciiBytes "cluon.data.Reading"⟩
  fields :=
    .nested (.declared "cluon::data::TimeStamp" "taken" 1) TimeStamp.info TimeStamp.fields <|
    .scalar (.declared "uint32_t" "value" 2) .uint32 .nil

theorem describesItself_reading : DescribesItself Reading (TimeStamp.of 1 2, 3#32, ()) := by
  have declared : Reading.Declared := by
    refine ⟨isDottedName_cluonData (w := asciiBytes "Reading") (isName_asciiBytes rfl rfl),
      by decide, List.forall_mem_cons.mpr ⟨?_, List.forall_mem_cons.mpr ⟨?_, nofun⟩⟩⟩
    · exact generatedField_timeStamp (isName_asciiBytes rfl rfl) (by norm_num)
    · exact generatedField_scalar .uint32 (isName_asciiBytes rfl rfl) (by norm_num)
  have types (U : MessageType) (member : U ∈ Reading.types) : U = TimeStamp ∨ U = Reading := by
    have members : Reading.types = [TimeStamp, Reading] := rfl
    rw [members] at member
    simpa using member
  have generated := declared.generated_of_timeStamps types (by decide) (by decide)
  refine (describesItself_iff generated _ (by decide +kernel)).mpr ⟨by decide, by decide, ?_⟩
  intro U member
  rcases types U member with rfl | rfl
  · decide
  · decide

/-- `cluon.data.Envelope` is generated. -/
theorem generated_envelope : Envelope.Generated := by
  have envelope : Envelope.Declared := by
    refine ⟨isDottedName_cluonData (w := asciiBytes "Envelope") (isName_asciiBytes rfl rfl),
      by decide, ?_⟩
    refine List.forall_mem_cons.mpr ⟨?_, List.forall_mem_cons.mpr ⟨?_, List.forall_mem_cons.mpr
      ⟨?_, List.forall_mem_cons.mpr ⟨?_, List.forall_mem_cons.mpr ⟨?_, List.forall_mem_cons.mpr
      ⟨?_, fun _ h => absurd h List.not_mem_nil⟩⟩⟩⟩⟩⟩
    · exact generatedField_scalar .int32 (isName_asciiBytes rfl rfl) (by norm_num)
    · exact generatedField_scalar .bytes (isName_asciiBytes rfl rfl) (by norm_num)
    · exact generatedField_timeStamp (isName_asciiBytes rfl rfl) (by norm_num)
    · exact generatedField_timeStamp (isName_asciiBytes rfl rfl) (by norm_num)
    · exact generatedField_timeStamp (isName_asciiBytes rfl rfl) (by norm_num)
    · exact generatedField_scalar .uint32 (isName_asciiBytes rfl rfl) (by norm_num)
  refine envelope.generated_of_timeStamps (fun U member => ?_) (by decide) (by decide)
  have members : Envelope.types = [TimeStamp, TimeStamp, TimeStamp, Envelope] := rfl
  rw [members] at member
  simpa using member

/-- **An envelope does not describe itself.** It has three time stamps, and its text declares the
type of each of them. -/
theorem not_describesItself : Envelope.Generated ∧ ¬ DescribesItself Envelope Envelope.initial := by
  refine ⟨generated_envelope, fun ⟨mms, noError, _⟩ => ?_⟩
  rw [generated_envelope.parse_messageSpecification] at noError
  have again : ¬ Envelope.types.Nodup := by decide
  split at noError
  · rw [if_neg fun h => again h.1] at noError
    cases noError
  · cases noError

end Cluon
