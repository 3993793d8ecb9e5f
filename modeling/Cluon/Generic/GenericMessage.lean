import Cluon.Message.MetaMessage

/-!
# Generic messages

A `GenericMessage` is a message whose type is known at run time only. It consists of a
`MetaMessage` and a map from field identifiers to values of any type, where the values of
nested messages are generic messages again. `createFrom(mm, mms)` fills the map with a value
for each field of the specification `mm`. A generic message accepts visitors like a message of
a compiled type, but it visits only what the map holds with the type of the specification.

The messages of type `GenericMessage n` are those whose messages are nested less than `n`
deep.
-/

set_option autoImplicit false

namespace Cluon

open Library

/-- What a `linb::any` in the map of a generic message holds; `α` are the nested messages. -/
inductive LinbAny (α : Type) where
  | bool (v : Bool)
  | char (v : BitVec 8)
  | uint8 (v : BitVec 8)
  | int8 (v : BitVec 8)
  | uint16 (v : BitVec 16)
  | int16 (v : BitVec 16)
  | uint32 (v : BitVec 32)
  | int32 (v : BitVec 32)
  | uint64 (v : BitVec 64)
  | int64 (v : BitVec 64)
  | float (v : BitVec 32)
  | double (v : BitVec 64)
  | string (s : Bytes)
  | message (gm : α)
  deriving DecidableEq

namespace LinbAny

variable {α : Type}

/-- `linb::any{v}` for the value of a scalar field. -/
def ofScalar : (t : ScalarType) → t.Value → LinbAny α
  | .bool, v => .bool v
  | .char, v => .char v
  | .uint8, v => .uint8 v
  | .int8, v => .int8 v
  | .uint16, v => .uint16 v
  | .int16, v => .int16 v
  | .uint32, v => .uint32 v
  | .int32, v => .int32 v
  | .uint64, v => .uint64 v
  | .int64, v => .int64 v
  | .float, v => .float v
  | .double, v => .double v
  | .bytes, v => .string v
  | .string, v => .string v

/-- `linb::any_cast` to the type of a scalar field; a failed cast gives none. -/
def castTo : (t : ScalarType) → LinbAny α → Option t.Value
  | .bool, .bool v => some v
  | .char, .char v => some v
  | .uint8, .uint8 v => some v
  | .int8, .int8 v => some v
  | .uint16, .uint16 v => some v
  | .int16, .int16 v => some v
  | .uint32, .uint32 v => some v
  | .int32, .int32 v => some v
  | .uint64, .uint64 v => some v
  | .int64, .int64 v => some v
  | .float, .float v => some v
  | .double, .double v => some v
  | .bytes, .string s => some s
  | .string, .string s => some s
  | _, _ => none

/-- `linb::any_cast<cluon::GenericMessage &>`. -/
def castToMessage : LinbAny α → Option α
  | .message gm => some gm
  | _ => none

@[simp] theorem castTo_ofScalar (t : ScalarType) (v : t.Value) :
    castTo t (ofScalar t v : LinbAny α) = some v := by
  cases t <;> rfl

end LinbAny

/-- A generic message whose nested messages are of type `α`. -/
structure GenericMessageOf (α : Type) where
  metaMessage : MetaMessage
  intermediateDataRepresentation : KeyValueMap (BitVec 32) (LinbAny α)
  deriving DecidableEq

/-- The generic messages whose messages are nested less than `n` deep. -/
@[reducible] def GenericMessage : Nat → Type
  | 0 => Empty
  | n + 1 => GenericMessageOf (GenericMessage n)

namespace GenericMessageOf

variable {α : Type}

/-- `LongName()`. -/
def longName (gm : GenericMessageOf α) : Bytes :=
  gm.metaMessage.packageName ++ (if gm.metaMessage.packageName ≠ [] then asciiBytes "." else []) ++
    gm.metaMessage.messageName

/-- `std::isspace(c)`. -/
def isspace (c : Byte) : Bool := decide (c = 0x20) || decide (0x09 ≤ c ∧ c ≤ 0x0D)

/-- The tokens of the long name, between dots and white space. -/
def tokens (gm : GenericMessageOf α) : List Bytes :=
  let tmp := gm.longName.map fun c => if c = 0x2E then 0x20 else c
  (tmp.splitOnP isspace).filter (· ≠ [])

/-- `ShortName()`: the last of the tokens. A message without a token in its name has no
`tokens.back()`; it ends the program when it accepts a visitor (`MetaMessage.IsNamed`). -/
def shortName (gm : GenericMessageOf α) : Bytes := gm.tokens.getLastD []

/-- What the visitors of a generic message are told about it. -/
def info (gm : GenericMessageOf α) : MessageInfo :=
  ⟨gm.metaMessage.messageIdentifier, gm.shortName, gm.longName⟩

end GenericMessageOf

/-- The name of a message has a token. -/
def MetaMessage.IsNamed (mm : MetaMessage) : Prop :=
  (GenericMessageOf.mk mm [] : GenericMessageOf Empty).tokens ≠ []

instance (mm : MetaMessage) : Decidable mm.IsNamed := inferInstanceAs (Decidable (_ ≠ _))

/-- A message whose name begins with a character of a token has a name. -/
theorem MetaMessage.isNamed_of_cons {mm : MetaMessage} (unpackaged : mm.packageName = []) {c : Byte}
    {s : Bytes} (name : mm.messageName = c :: s) (noSpace : GenericMessageOf.isspace c = false)
    (noDot : c ≠ 0x2E) : mm.IsNamed := by
  have longName : (GenericMessageOf.mk mm [] : GenericMessageOf Empty).longName = c :: s := by
    rw [GenericMessageOf.longName, unpackaged, name]
    rfl
  intro none
  rw [GenericMessageOf.tokens, longName] at none
  simp only [List.map_cons, if_neg noDot] at none
  rw [List.splitOnP_cons_eq_if_modifyHead, noSpace, if_neg Bool.false_ne_true] at none
  obtain ⟨first, others, split⟩ := List.exists_cons_of_ne_nil (List.splitOnP_ne_nil
    GenericMessageOf.isspace (s.map fun c => if c = 0x2E then 0x20 else c))
  rw [split, List.modifyHead_cons, List.filter_cons_of_pos (by simp)] at none
  exact List.cons_ne_nil _ _ none

/-! ## Creating a generic message from a specification -/

/-- The value with which a generic message begins. -/
def ScalarType.initial : (t : ScalarType) → t.Value
  | .bool => false
  | .char | .uint8 | .int8 => 0#8
  | .uint16 | .int16 => 0#16
  | .uint32 | .int32 | .float => 0#32
  | .uint64 | .int64 | .double => 0#64
  | .bytes | .string => []

namespace GenericMessage

/-- One round of the loop of `createFrom(mm, mms)`; `create` makes the nested messages. -/
def createField {α : Type} (scope : KeyValueMap Bytes MetaMessage)
    (create : MetaMessage → Option α) (data : KeyValueMap (BitVec 32) (LinbAny α))
    (f : MetaField) : Option (KeyValueMap (BitVec 32) (LinbAny α)) :=
  match f.fieldDataType with
  | .scalar t => some (data.assign f.fieldIdentifier (.ofScalar t t.initial))
  | .message =>
      match scope.find f.fieldDataTypeName with
      | some mm => (create mm).map fun gm => data.assign f.fieldIdentifier (.message gm)
      | none => some data
  | .undefined => some data

/-- `createFrom(mm, mms)`, if it does not nest messages `n` deep. -/
def createFrom (mms : List MetaMessage) : (n : Nat) → MetaMessage → Option (GenericMessage n)
  | 0, _ => none
  | n + 1, mm =>
      (mm.listOfMetaFields.foldlM
        (createField (mapForScopeOfMetaMessages mms) (createFrom mms n)) []).map
        (GenericMessageOf.mk mm)

/-- The message, and those that are nested in what is created from it less than `n` deep, have a
token in their names. Otherwise the program ends when the visitors come to them. -/
def partsNamed (mms : List MetaMessage) : (n : Nat) → MetaMessage → Bool
  | 0, _ => true
  | n + 1, mm =>
      decide mm.IsNamed && mm.listOfMetaFields.all fun f =>
        decide (f.fieldDataType ≠ .message) ||
          ((mapForScopeOfMetaMessages mms).find f.fieldDataTypeName).all (partsNamed mms n)

/-! ## Visiting a generic message -/

section Accept

variable {σ : Type} (V : Visitor σ)

section Fields

variable {α : Type} (nested : Visitable σ α)

/-- The visit of a field, if the map holds a value of the type of the field. -/
def visitField (f : MetaField) (data : KeyValueMap (BitVec 32) (LinbAny α)) (s : σ) :
    KeyValueMap (BitVec 32) (LinbAny α) × σ :=
  match f.fieldDataType with
  | .scalar t =>
      match (data.find f.fieldIdentifier).bind (LinbAny.castTo t) with
      | some v =>
          let visited := V.visit f.info t v s
          (data.assign f.fieldIdentifier (.ofScalar t visited.1), visited.2)
      | none => (data, s)
  | .message =>
      match (data.find f.fieldIdentifier).bind LinbAny.castToMessage with
      | some gm =>
          let visited := V.visitMessage f.info nested gm s
          (data.assign f.fieldIdentifier (.message visited.1), visited.2)
      | none => (data, s)
  | .undefined => (data, s)

/-- The loop of `accept(visitor)`. -/
def visitFields : List MetaField → KeyValueMap (BitVec 32) (LinbAny α) → σ →
    KeyValueMap (BitVec 32) (LinbAny α) × σ
  | [], data, s => (data, s)
  | f :: fs, data, s =>
      let visited := visitField V nested f data s
      visitFields fs visited.1 visited.2

/-- The loop of `accept(fieldId, visitor)`: it ends with the first field of that identifier. -/
def visitFirst (fieldId : BitVec 32) : List MetaField → KeyValueMap (BitVec 32) (LinbAny α) → σ →
    KeyValueMap (BitVec 32) (LinbAny α) × σ
  | [], data, s => (data, s)
  | f :: fs, data, s =>
      if fieldId = f.fieldIdentifier then visitField V nested f data s
      else visitFirst fieldId fs data s

/-- A visit of the fields between `preVisit` and `postVisit`. -/
def acceptAround (visit : List MetaField → KeyValueMap (BitVec 32) (LinbAny α) → σ →
    KeyValueMap (BitVec 32) (LinbAny α) × σ) (gm : GenericMessageOf α) (s : σ) :
    GenericMessageOf α × σ :=
  acceptAll V gm.info (fun gm s =>
    let visited := visit gm.metaMessage.listOfMetaFields gm.intermediateDataRepresentation s
    ({ gm with intermediateDataRepresentation := visited.1 }, visited.2)) gm s

end Fields

/-- The two `accept` methods of a generic message. -/
def visitable : (n : Nat) → Visitable σ (GenericMessage n)
  | 0 => ⟨fun gm s => (gm, s), fun _ gm s => (gm, s)⟩
  | n + 1 =>
      ⟨fun gm s => acceptAround V (visitFields V (visitable n)) gm s,
       fun fieldId gm s => acceptAround V (visitFirst V (visitable n) fieldId) gm s⟩

end Accept

end GenericMessage

end Cluon
