import Cluon.Proto.MetaMessageToProtoTransformator
import Cluon.Specification.DuplicateFree
import Cluon.Specification.ReadingBack

/-!
# C++ headers from message specifications

`MetaMessageToCPPTransformator` turns a `MetaMessage` into a class in the namespace of its package
and of the prefix of its name. Its header has an include guard, which is made of the package and
the name of the message: dots become underscores, and all letters upper-case (`headerGuard_eq`).

A field whose type is a message has the name of the package and the name of that message as its
type, which is the name of its class with all namespaces (`type_eq_className`).
-/

set_option autoImplicit false

namespace Cluon

open Library MetaMessageToProtoTransformator

namespace MetaMessageToCPPTransformator

/-- A `fieldEntry`. A field of a nested message has no default value. -/
structure FieldEntry where
  name : Bytes
  type : Bytes
  fieldDefaultInitializationValue : Option Bytes
  initializerSuffix : Option Bytes
  fieldIdentifier : BitVec 32
  deriving DecidableEq, Repr

/-- `m_dataToBeRendered` and `m_fields`. -/
structure DataToBeRendered where
  headerGuard : Bytes
  namespaceOpening : Bytes
  completePackageName : Bytes
  completePackageNameWithColonSeparators : Bytes
  message : Bytes
  namespaceClosing : Bytes
  identifier : BitVec 32
  fields : List FieldEntry
  deriving DecidableEq, Repr

/-- `typeToTypeStringMap`. -/
def typeToTypeStringMap : ScalarType → Bytes
  | .bool => asciiBytes "bool"
  | .char => asciiBytes "char"
  | .uint8 => asciiBytes "uint8_t"
  | .int8 => asciiBytes "int8_t"
  | .uint16 => asciiBytes "uint16_t"
  | .int16 => asciiBytes "int16_t"
  | .uint32 => asciiBytes "uint32_t"
  | .int32 => asciiBytes "int32_t"
  | .uint64 => asciiBytes "uint64_t"
  | .int64 => asciiBytes "int64_t"
  | .float => asciiBytes "float"
  | .double => asciiBytes "double"
  | .string => asciiBytes "std::string"
  | .bytes => asciiBytes "std::string"

/-- `typeToDefaultInitizationValueMap`. -/
def typeToDefaultInitizationValueMap : ScalarType → Bytes
  | .bool => asciiBytes "false"
  | .char => asciiBytes "'\\0'"
  | .float | .double => asciiBytes "0.0"
  | .string | .bytes => asciiBytes "\"\""
  | _ => asciiBytes "0"

/-- `initializerSuffix`. -/
def initializerSuffix : ScalarType → Bytes
  | .float => asciiBytes "f"
  | .string | .bytes => asciiBytes "s"
  | _ => []

/-- `toupper` in the locale of C. -/
def toupper (c : Byte) : Byte := if 0x61 ≤ c ∧ c ≤ 0x7A then c - 0x20 else c

/-- `std::regex_replace(s, std::regex("\\."), text)`. -/
def replaceDots (text : Bytes) (s : Bytes) : Bytes := s.flatMap fun c => if c = 0x2E then text else [c]

/-- `namespacePrefix` and `messageName`. -/
def splitName (mm : MetaMessage) : Bytes × Bytes :=
  (splitAtLastDot mm.messageName).getD ([], mm.messageName)

def completePackageName (mm : MetaMessage) : Bytes :=
  mm.packageName ++ (if mm.packageName ≠ [] ∧ (splitName mm).1 ≠ [] then asciiBytes "." else []) ++
    (splitName mm).1

def headerGuard (mm : MetaMessage) : Bytes :=
  let headerGuard := replaceDots (asciiBytes "_") (completePackageName mm)
  (headerGuard ++ (if headerGuard ≠ [] then asciiBytes "_" else []) ++ (splitName mm).2).map toupper

/-- `completeDataTypeNameWithDoubleColons`. -/
def completeDataTypeNameWithDoubleColons (packageName fieldDataTypeName : Bytes) : Bytes :=
  replaceDots (asciiBytes "::")
    (packageName ++ (if packageName ≠ [] then asciiBytes "." else []) ++ fieldDataTypeName)

/-- The entry of a field that is none of a nested message. -/
def scalarEntry (f : MetaField) (type defaultValue suffix : Bytes) : FieldEntry :=
  ⟨replaceDots (asciiBytes "_") f.fieldName, type,
    some (if f.defaultInitializationValue = [] then defaultValue else f.defaultInitializationValue),
    some suffix, f.fieldIdentifier⟩

def fieldEntry (mm : MetaMessage) (f : MetaField) : FieldEntry :=
  match f.fieldDataType with
  | .scalar t =>
      scalarEntry f (typeToTypeStringMap t) (typeToDefaultInitizationValueMap t)
        (initializerSuffix t)
  | .message =>
      ⟨replaceDots (asciiBytes "_") f.fieldName,
        completeDataTypeNameWithDoubleColons mm.packageName f.fieldDataTypeName, none, none,
        f.fieldIdentifier⟩
  -- The maps add empty strings for a type that they do not have.
  | .undefined => scalarEntry f [] [] []

/-- `visit(mm)`. -/
def visit (mm : MetaMessage) : DataToBeRendered :=
  let completePackageName := completePackageName mm
  let withColonSeparators := replaceDots (asciiBytes "::") completePackageName
  let namespaceHeader := replaceDots (asciiBytes " \x7b namespace ") completePackageName
  { headerGuard := headerGuard mm
    namespaceOpening :=
      if namespaceHeader ≠ [] then
        asciiBytes "namespace " ++ namespaceHeader ++ asciiBytes " \x7b"
      else []
    completePackageName :=
      completePackageName ++ (if completePackageName ≠ [] then asciiBytes "." else [])
    completePackageNameWithColonSeparators :=
      withColonSeparators ++ (if withColonSeparators ≠ [] then asciiBytes "::" else [])
    message := (splitName mm).2
    namespaceClosing :=
      List.replicate (namespaceHeader.count 0x7B + if namespaceHeader ≠ [] then 1 else 0) 0x7D
    identifier := mm.messageIdentifier
    fields := mm.listOfMetaFields.map (fieldEntry mm) }

/-- The name of the class with its namespaces, as the template has it. -/
def DataToBeRendered.className (data : DataToBeRendered) : Bytes :=
  data.completePackageNameWithColonSeparators ++ data.message

/-! ## Names -/

theorem replaceDots_append (text s t : Bytes) :
    replaceDots text (s ++ t) = replaceDots text s ++ replaceDots text t := List.flatMap_append

/-- A name without dots stays as it is. -/
theorem replaceDots_of_notMem {text s : Bytes} (h : 0x2E ∉ s) : replaceDots text s = s := by
  induction s with
  | nil => rfl
  | cons c s ih =>
      obtain ⟨here, others⟩ := not_or.mp (mt List.mem_cons.mpr h)
      rw [replaceDots, List.flatMap_cons, if_neg (Ne.symm here)]
      exact congrArg (c :: ·) (ih others)

theorem replaceDots_eq_nil {text s : Bytes} (some : text ≠ []) : replaceDots text s = [] ↔ s = [] := by
  cases s with
  | nil => exact iff_of_true rfl rfl
  | cons c s =>
      refine iff_of_false (fun empty => ?_) (List.cons_ne_nil c s)
      have first : (if c = 0x2E then text else [c]) = [] := (List.append_eq_nil_iff.mp empty).1
      split at first
      · exact some first
      · cases first

/-- One underscore for every dot. -/
theorem replaceDots_underscore (s : Bytes) :
    replaceDots (asciiBytes "_") s = withUnderscores s := by
  induction s with
  | nil => rfl
  | cons c s ih =>
      change (if c = 0x2E then asciiBytes "_" else [c]) ++ replaceDots (asciiBytes "_") s =
        (if c = 0x2E then 0x5F else c) :: withUnderscores s
      rw [ih]
      split <;> rfl

/-- The name of a message is cut at its last dot. -/
theorem qualified_splitName {mm : MetaMessage} (name : mm.messageName.head? ≠ some 0x2E) :
    qualified mm.packageName mm.messageName =
        qualified (completePackageName mm) (splitName mm).2 ∧ 0x2E ∉ (splitName mm).2 := by
  rcases parts : splitAtLastDot mm.messageName with _ | ⟨namespacePrefix, messageName⟩
  · have split : splitName mm = ([], mm.messageName) := by
      rw [splitName, parts]
      rfl
    rw [completePackageName, split]
    refine ⟨?_, splitAtLastDot_none parts⟩
    simp
  · have split : splitName mm = (namespacePrefix, messageName) := by
      rw [splitName, parts]
      rfl
    obtain ⟨joined, last⟩ := splitAtLastDot_some parts
    have nonempty : namespacePrefix ≠ [] := by
      rintro rfl
      exact name (by rw [← joined]; rfl)
    rw [completePackageName, split]
    refine ⟨?_, last⟩
    have joined : mm.messageName = namespacePrefix ++ (asciiBytes "." ++ messageName) :=
      joined.symm
    by_cases empty : mm.packageName = []
    · simp [qualified, empty, nonempty, joined]
    · simp [qualified, empty, nonempty, joined]

/-- The dots of a name with its package are replaced one part after the other. -/
theorem replaceDots_qualified {text packageName messageName : Bytes} (some : text ≠ [])
    (noDot : 0x2E ∉ messageName) :
    replaceDots text (qualified packageName messageName) =
      replaceDots text packageName ++ (if replaceDots text packageName ≠ [] then text else []) ++
        messageName := by
  have dot : replaceDots text (asciiBytes ".") = text := List.append_nil text
  rw [qualified]
  by_cases empty : packageName = []
  · have nothing : replaceDots text [] = [] := rfl
    simp [empty, nothing, replaceDots_of_notMem noDot]
  · simp [empty, replaceDots_eq_nil some, replaceDots_append, replaceDots_of_notMem noDot, dot]

/-- **The include guard** is the name of the message with its package, with underscores and in
upper case. -/
theorem headerGuard_eq {mm : MetaMessage} (name : mm.messageName.head? ≠ some 0x2E) :
    (visit mm).headerGuard =
      (withUnderscores (qualified mm.packageName mm.messageName)).map toupper := by
  obtain ⟨same, noDot⟩ := qualified_splitName name
  rw [← replaceDots_underscore, same, replaceDots_qualified (by decide) noDot]
  rfl

/-- The class of a message. -/
theorem className_eq {mm : MetaMessage} (name : mm.messageName.head? ≠ some 0x2E) :
    (visit mm).className =
      replaceDots (asciiBytes "::") (qualified mm.packageName mm.messageName) := by
  obtain ⟨same, noDot⟩ := qualified_splitName name
  rw [same, replaceDots_qualified (by decide) noDot]
  rfl

/-- The type of a field of a nested message. -/
theorem completeDataTypeNameWithDoubleColons_eq (packageName fieldDataTypeName : Bytes) :
    completeDataTypeNameWithDoubleColons packageName fieldDataTypeName =
      replaceDots (asciiBytes "::") (qualified packageName fieldDataTypeName) := by
  rw [completeDataTypeNameWithDoubleColons, qualified]
  by_cases empty : packageName = []
  · simp [empty]
  · simp [empty]

/-- **The type of a field is the class of the message it refers to**, if both have the same package
and the name does not begin with a dot. -/
theorem type_eq_className {mm : MetaMessage} (name : mm.messageName.head? ≠ some 0x2E) :
    completeDataTypeNameWithDoubleColons mm.packageName mm.messageName = (visit mm).className :=
  (completeDataTypeNameWithDoubleColons_eq ..).trans (className_eq name).symm

end MetaMessageToCPPTransformator

end Cluon
