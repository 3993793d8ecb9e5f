import Cluon.Specification.ConcreteSyntax
import Cluon.Specification.DuplicateFree

/-!
# Messages and their declarations

The messages that `parse` returns mirror the declarations of the text if there is one for each
declaration, in their order, with what is declared (`Mirrors`). They do so exactly for plain
declarations (`AcceptedSpecification.mirrors_iff`):

* a specification with a package has messages, because a package alone is taken for a message;
* names and types have no white space, except for blanks and tabs at their ends, which are cut off;
* no blank separates the digits of an identifier, because `std::stoi` reads the first ones only;
* numbers contain no white space, and quoted literals none at their ends, where it is either kept
  as a part of a number or lost;
* a field has no two different identifiers or default values, of which the last ones count.
-/

set_option autoImplicit false

namespace Cluon

open Library PEG MessageParser

/-! ## What is declared -/

/-- The number that the digits of a token make. -/
def writtenNumber (token : Bytes) : Nat := ofDecimal (token.filter isDigit)

def Quoted.written (literal : Quoted) : Bytes := literal.before ++ literal.text ++ literal.behind

/-- The default value as it is written. -/
def DeclaredDefault.written : DeclaredDefault → Bytes
  | .number token => plainName token
  | .bool token => token
  | .character literal => asciiBytes "'" ++ literal.written ++ asciiBytes "'"
  | .string literal => asciiBytes "\"" ++ literal.written ++ asciiBytes "\""

/-- The data type that is declared. -/
def DeclaredType.dataType : DeclaredType → MetaFieldDataType
  | .scalar t => .scalar t
  | .message _ => .message

/-- The name of the type that is declared. -/
def DeclaredType.name : DeclaredType → Bytes
  | .scalar t => asciiBytes (keyword t)
  | .message token => plainName token

namespace DeclaredField

def identifiers (f : DeclaredField) : List Bytes :=
  f.options.filterMap fun
    | .identifier token => some token
    | .default _ => none

def defaults (f : DeclaredField) : List DeclaredDefault :=
  f.options.filterMap fun
    | .default value => some value
    | .identifier _ => none

end DeclaredField

/-- A field of a message with what is declared for it. -/
structure MirrorsField (f : DeclaredField) (mf : MetaField) : Prop where
  dataType : mf.fieldDataType = f.type.dataType
  dataTypeName : mf.fieldDataTypeName = f.type.name
  fieldName : mf.fieldName = f.name
  identifiers : ∀ token ∈ f.identifiers, mf.fieldIdentifier.toNat = writtenNumber token
  defaults : ∀ value ∈ f.defaults, mf.defaultInitializationValue = value.written
  noDefault : f.defaults = [] → mf.defaultInitializationValue = []

/-- A message with what is declared for it, and nothing else. -/
structure MirrorsMessage (packageName : Option Bytes) (m : DeclaredMessage) (mm : MetaMessage) :
    Prop where
  packageName : mm.packageName = (packageName.map plainName).getD []
  messageName : mm.messageName = plainName m.messageName
  messageIdentifier : mm.messageIdentifier.toInt = writtenNumber m.identifier
  fields : List.Forall₂ MirrorsField m.fields mm.listOfMetaFields

/-- One message for each declaration, in textual order. -/
def Mirrors (declared : DeclaredSpecification) (mms : List MetaMessage) : Prop :=
  List.Forall₂ (MirrorsMessage declared.packageName) declared.messages mms

/-! ## Plain declarations -/

/-- Only blanks and tabs at the ends of a token are white space. -/
def Unspaced (token : Bytes) : Prop := ∀ c ∈ stringtoolbox.trim token, isWhitespace c = false

/-- No digit stands behind something else. -/
def DigitsTogether (token : Bytes) : Prop := ∀ c ∈ token.dropWhile isDigit, isDigit c = false

def DeclaredDefault.Plain : DeclaredDefault → Prop
  | .number token => ∀ c ∈ token, isWhitespace c = false
  | .bool _ => True
  | .character literal | .string literal => literal.before = [] ∧ literal.behind = []

structure DeclaredField.Plain (f : DeclaredField) : Prop where
  type : ∀ token, f.type = .message token → Unspaced token
  identifiers : ∀ token ∈ f.identifiers.getLast?, DigitsTogether token
  sameIdentifier : ∀ token ∈ f.identifiers, ∀ token' ∈ f.identifiers,
    writtenNumber token = writtenNumber token'
  defaults : ∀ value ∈ f.defaults.getLast?, value.Plain
  sameDefault : ∀ value ∈ f.defaults, ∀ value' ∈ f.defaults, value.written = value'.written

structure DeclaredMessage.Plain (m : DeclaredMessage) : Prop where
  messageName : Unspaced m.messageName
  identifier : DigitsTogether m.identifier
  fields : ∀ f ∈ m.fields, f.Plain

structure DeclaredSpecification.Plain (s : DeclaredSpecification) : Prop where
  packageName : ∀ token ∈ s.packageName, s.messages ≠ [] ∧ Unspaced token
  messages : ∀ m ∈ s.messages, m.Plain

namespace MessageParser

/-! ## Tokens -/

/-- Blanks and tabs at the ends are the only white space that is cut off. -/
theorem trim_eq_plainName_iff (token : Bytes) :
    stringtoolbox.trim token = plainName token ↔ Unspaced token := by
  constructor
  · intro same c member
    rw [same, plainName] at member
    exact (Bool.not_eq_true' _).mp (List.mem_filter.mp member).2
  · intro unspaced
    rw [← plainName_trim]
    refine (List.filter_eq_self.mpr fun c member => ?_).symm
    exact (Bool.not_eq_true' _).mpr (unspaced c member)

/-- `std::stoi` reads the number of the first digits. -/
theorem number_eq_writtenNumber_iff {token : Bytes} (h : IsNumber token) :
    number token = writtenNumber token ↔ DigitsTogether token := by
  have split : token.filter isDigit =
      token.takeWhile isDigit ++ (token.dropWhile isDigit).filter isDigit := by
    conv_lhs => rw [← List.takeWhile_append_dropWhile (p := isDigit) (l := token),
      List.filter_append]
    congr 1
    exact List.filter_eq_self.mpr fun c member => List.mem_takeWhile_imp member
  have together : DigitsTogether token ↔ (token.dropWhile isDigit).filter isDigit = [] := by
    rw [List.filter_eq_nil_iff]
    exact forall₂_congr fun c _ => Bool.not_eq_true _ |>.symm.to_iff
  rw [together, writtenNumber, split]
  constructor
  · intro same
    by_contra more
    exact absurd same (ofDecimal_lt_append (number_pos h) more).ne
  · intro none
    rw [none, List.append_nil, number]

theorem initializerValue_eq_written_iff (value : DeclaredDefault) :
    value.node.initializerValue = value.written ↔ value.Plain := by
  have literal (quote : String) (literal : Quoted) :
      asciiBytes quote ++ literal.text ++ asciiBytes quote =
        asciiBytes quote ++ literal.written ++ asciiBytes quote ↔
      literal.before = [] ∧ literal.behind = [] := by
    rw [List.append_left_inj, List.append_right_inj, Quoted.written]
    constructor
    · intro same
      have lengths := congrArg List.length same
      simp only [List.length_append] at lengths
      exact ⟨List.eq_nil_of_length_eq_zero (by omega), List.eq_nil_of_length_eq_zero (by omega)⟩
    · rintro ⟨before, behind⟩
      rw [before, behind, List.nil_append, List.append_nil]
  cases value with
  | number token =>
      have same : token = plainName token ↔ ∀ c ∈ token, (!isWhitespace c) = true :=
        eq_comm.trans List.filter_eq_self
      exact same.trans (forall₂_congr fun c _ => by rw [Bool.not_eq_true'])
  | bool token => exact iff_of_true rfl trivial
  | character quoted => exact literal "'" quoted
  | string quoted => exact literal "\"" quoted

theorem dataType_and_trim_keyword (t : ScalarType) :
    fieldDataType (asciiBytes (keyword t)) = .scalar t ∧
      stringtoolbox.trim (asciiBytes (keyword t)) = asciiBytes (keyword t) := by
  refine ⟨by cases t <;> rfl, trim_keyword ?_⟩
  have keywords : primitiveTypes = scalarTypes.map keyword := rfl
  rw [keywords]
  exact List.mem_map_of_mem (by cases t <;> decide)

end MessageParser

namespace DeclaredField

theorem identifiers_node (f : DeclaredField) : f.node.identifiers = f.identifiers := by
  rw [FieldNode.identifiers, node, List.filterMap_map]
  apply List.filterMap_congr
  intro option _
  cases option <;> rfl

theorem defaults_node (f : DeclaredField) :
    f.node.defaults = f.defaults.map DeclaredDefault.node := by
  rw [FieldNode.defaults, node, List.filterMap_map, defaults, List.map_filterMap]
  apply List.filterMap_congr
  intro option _
  cases option <;> rfl

end DeclaredField

/-! ## Lists that are made one element after the other -/

section Lists

variable {α β : Type}

/-- The last element of a list stands for the others if they are the same. -/
theorem forall_eq_iff_getLast? {as : List α} {written : α → β} {b : β}
    {Good : α → Prop} (last : ∀ a ∈ as.getLast?, b = written a ↔ Good a) :
    (∀ a ∈ as, b = written a) ↔
      (∀ a ∈ as.getLast?, Good a) ∧ ∀ a ∈ as, ∀ a' ∈ as, written a = written a' := by
  constructor
  · intro all
    refine ⟨fun a isLast => (last a isLast).mp (all a (List.mem_of_getLast? isLast)), ?_⟩
    intro a member a' member'
    rw [← all a member, all a' member']
  · rintro ⟨good, same⟩ a member
    rcases found : as.getLast? with _ | a'
    · rw [List.getLast?_eq_none_iff.mp found] at member
      cases member
    · rw [same a member a' (List.mem_of_getLast? found)]
      exact (last a' found).mpr (good a' found)

/-- What holds of every element and what is made of it. -/
theorem forall₂_iff_forall {R S : α → β → Prop} {P : α → Prop} {as : List α} {bs : List β}
    (made : List.Forall₂ R as bs) (each : ∀ a ∈ as, ∀ b, R a b → (S a b ↔ P a)) :
    List.Forall₂ S as bs ↔ ∀ a ∈ as, P a := by
  induction made with
  | nil => exact iff_of_true .nil nofun
  | cons here _ ih =>
      obtain ⟨first, others⟩ := List.forall_mem_cons.mp each
      rw [List.forall₂_cons, List.forall_mem_cons, first _ here, ih others]

/-- The results of a function that does not fail. -/
theorem forall₂_of_mapM {f : α → Option β} {as : List α} {bs : List β}
    (h : as.mapM f = some bs) : List.Forall₂ (fun a b => f a = some b) as bs := by
  have same := map_eq_of_mapM h
  rw [← List.forall₂_eq_eq_eq, List.forall₂_map_left_iff, List.forall₂_map_right_iff] at same
  exact same

end Lists

/-! ## Fields -/

/-- What `createMetaMessage` makes of a node `FIELD`. -/
structure MadeField (f : FieldNode) (mf : MetaField) : Prop where
  dataType : mf.fieldDataType = fieldDataType f.primitiveType
  dataTypeName : mf.fieldDataTypeName = stringtoolbox.trim f.primitiveType
  fieldName : mf.fieldName = f.name
  identifier : ∀ token ∈ f.identifiers.getLast?, mf.fieldIdentifier.toNat = number token
  default : mf.defaultInitializationValue = f.defaultInitializerValue

namespace MessageParser

theorem madeFields {fs : List FieldNode} (wellFormed : ∀ f ∈ fs, FieldWellFormed f) :
    ∀ {counter : BitVec 32} {mfs : List MetaField}, createMetaFields counter fs = some mfs →
      List.Forall₂ MadeField fs mfs := by
  induction fs with
  | nil =>
      intro counter mfs h
      obtain rfl := Option.some.inj h
      exact .nil
  | cons f fs ih =>
      intro counter mfs h
      obtain ⟨here, others⟩ := List.forall_mem_cons.mp wellFormed
      rw [createMetaFields_cons here] at h
      by_cases creatable : f.Creatable
      · rw [if_pos creatable] at h
        obtain ⟨mfs, found, rfl⟩ := Option.map_eq_some_iff.mp h
        refine .cons ⟨rfl, rfl, rfl, fun token isLast => ?_, rfl⟩ (ih others found)
        have small := creatable token isLast
        rw [Option.mem_def] at isLast
        simp only [isLast, BitVec.toNat_ofNat]
        exact Nat.mod_eq_of_lt (by omega)
      · rw [if_neg creatable] at h
        cases h

section Field

variable {f : DeclaredField} {mf : MetaField}

theorem dataType_of_madeField (noKeyword : f.type.NoKeyword) (made : MadeField f.node mf) :
    mf.fieldDataType = f.type.dataType := by
  rw [made.dataType, DeclaredField.node]
  cases isType : f.type with
  | scalar t => exact (dataType_and_trim_keyword t).1
  | message token => exact fieldDataType_of_not_keyword (noKeyword token isType)

theorem dataTypeName_of_madeField (made : MadeField f.node mf) :
    mf.fieldDataTypeName = f.type.name ↔ ∀ token, f.type = .message token → Unspaced token := by
  rw [made.dataTypeName, DeclaredField.node]
  cases isType : f.type with
  | scalar t =>
      apply iff_of_true (dataType_and_trim_keyword t).2
      intro token same
      cases same
  | message token =>
      refine (trim_eq_plainName_iff token).trans ⟨?_, fun all => all token rfl⟩
      intro unspaced token' same
      cases same
      exact unspaced

/-- The identifier is that of the first digits of the last one. -/
theorem identifiers_of_madeField (wellFormed : FieldWellFormed f.node)
    (made : MadeField f.node mf) :
    (∀ token ∈ f.identifiers, mf.fieldIdentifier.toNat = writtenNumber token) ↔
      (∀ token ∈ f.identifiers.getLast?, DigitsTogether token) ∧
        ∀ token ∈ f.identifiers, ∀ token' ∈ f.identifiers,
          writtenNumber token = writtenNumber token' := by
  apply forall_eq_iff_getLast?
  intro token isLast
  have isNumber : IsNumber token := by
    apply wellFormed.identifiers
    rw [f.identifiers_node]
    exact List.mem_of_getLast? isLast
  rw [made.identifier token (by rw [f.identifiers_node]; exact isLast)]
  exact number_eq_writtenNumber_iff isNumber

theorem initializationValue_of_madeField (made : MadeField f.node mf) :
    mf.defaultInitializationValue =
      (f.defaults.getLast?.map fun value => value.node.initializerValue).getD [] := by
  rw [made.default, FieldNode.defaultInitializerValue, f.defaults_node, List.getLast?_map,
    Option.map_map]
  rfl

/-- The default value is the token of the last one. -/
theorem defaults_of_madeField (made : MadeField f.node mf) :
    (∀ value ∈ f.defaults, mf.defaultInitializationValue = value.written) ↔
      (∀ value ∈ f.defaults.getLast?, value.Plain) ∧
        ∀ value ∈ f.defaults, ∀ value' ∈ f.defaults, value.written = value'.written := by
  apply forall_eq_iff_getLast?
  intro value isLast
  rw [initializationValue_of_madeField made, Option.mem_def.mp isLast]
  exact initializerValue_eq_written_iff value

/-- **A field mirrors its declaration** exactly if the declaration is plain. -/
theorem mirrorsField_iff (wellFormed : FieldWellFormed f.node) (noKeyword : f.type.NoKeyword)
    (made : MadeField f.node mf) : MirrorsField f mf ↔ f.Plain := by
  have typeName := dataTypeName_of_madeField made
  have identifiers := identifiers_of_madeField wellFormed made
  have defaults := defaults_of_madeField made
  constructor
  · intro h
    obtain ⟨together, same⟩ := identifiers.mp h.identifiers
    obtain ⟨plain, same'⟩ := defaults.mp h.defaults
    exact ⟨typeName.mp h.dataTypeName, together, same, plain, same'⟩
  · intro h
    refine ⟨dataType_of_madeField noKeyword made, typeName.mpr h.type, made.fieldName,
      identifiers.mpr ⟨h.identifiers, h.sameIdentifier⟩,
      defaults.mpr ⟨h.defaults, h.sameDefault⟩, fun none => ?_⟩
    rw [initializationValue_of_madeField made, none]
    rfl

end Field

/-! ## Messages -/

section Message

variable {packageName : Option Bytes} {m : DeclaredMessage} {mm : MetaMessage}

/-- The identifier is that of the first digits. -/
theorem messageIdentifier_of_created {packageName : Bytes} (wellFormed : MessageWellFormed m.node)
    (created : Created packageName m.node mm) :
    mm.messageIdentifier.toInt = writtenNumber m.identifier ↔ DigitsTogether m.identifier := by
  have small : number m.identifier < 2 ^ 31 := created.identifier
  have made : mm.messageIdentifier = BitVec.ofNat 32 (number m.identifier) :=
    created.messageIdentifier
  have unsigned : (BitVec.ofNat 32 (number m.identifier)).toNat = number m.identifier := by
    rw [BitVec.toNat_ofNat]
    exact Nat.mod_eq_of_lt (by omega)
  rw [made, BitVec.toInt_eq_toNat_of_lt (by omega), unsigned, Nat.cast_inj]
  exact number_eq_writtenNumber_iff wellFormed.identifier

theorem fields_of_createMetaMessage {packageName : Bytes} (wellFormed : MessageWellFormed m.node)
    (noKeyword : ∀ f ∈ m.fields, f.type.NoKeyword)
    (made : createMetaMessage packageName m.node = some mm) :
    List.Forall₂ MirrorsField m.fields mm.listOfMetaFields ↔ ∀ f ∈ m.fields, f.Plain := by
  rw [createMetaMessage] at made
  obtain ⟨_, -, made⟩ := Option.bind_eq_some_iff.mp made
  obtain ⟨mfs, fields, made⟩ := Option.bind_eq_some_iff.mp made
  obtain rfl := Option.some.inj made
  have madeFields := madeFields wellFormed.fields fields
  rw [DeclaredMessage.node, List.forall₂_map_left_iff] at madeFields
  apply forall₂_iff_forall madeFields
  intro f member mf made
  exact mirrorsField_iff (wellFormed.fields f.node (List.mem_map_of_mem member))
    (noKeyword f member) made

/-- **A message mirrors its declaration** exactly if the declaration is plain, and its package. -/
theorem mirrorsMessage_iff (wellFormed : MessageWellFormed m.node)
    (noKeyword : ∀ f ∈ m.fields, f.type.NoKeyword)
    (made : createMetaMessage (packageName.getD []) m.node = some mm) :
    MirrorsMessage packageName m mm ↔
      (∀ token ∈ packageName, Unspaced token) ∧ m.Plain := by
  have created := created_of_createMetaMessage wellFormed made
  have package : mm.packageName = (packageName.map plainName).getD [] ↔
      ∀ token ∈ packageName, Unspaced token := by
    rw [created.packageName]
    cases packageName with
    | none =>
        apply iff_of_true rfl
        intro token isPackage
        cases isPackage
    | some token =>
        refine (trim_eq_plainName_iff token).trans ⟨?_, fun all => all token rfl⟩
        intro unspaced token' isPackage
        cases isPackage
        exact unspaced
  have name : mm.messageName = plainName m.messageName ↔ Unspaced m.messageName := by
    rw [created.messageName]
    exact trim_eq_plainName_iff m.messageName
  have identifier := messageIdentifier_of_created wellFormed created
  have fields := fields_of_createMetaMessage wellFormed noKeyword made
  constructor
  · intro h
    exact ⟨package.mp h.packageName, name.mp h.messageName, identifier.mp h.messageIdentifier,
      fields.mp h.fields⟩
  · rintro ⟨unspaced, plain⟩
    exact ⟨package.mpr unspaced, name.mpr plain.messageName, identifier.mpr plain.identifier,
      fields.mpr plain.fields⟩

end Message

/-- **The messages mirror the declarations** exactly if these are plain. -/
theorem mirrors_of_transform2MetaMessages {declared : DeclaredSpecification}
    (wellFormed : ∀ m ∈ declared.node.messages, MessageWellFormed m)
    (noKeyword : ∀ m ∈ declared.messages, ∀ f ∈ m.fields, f.type.NoKeyword)
    {mms : List MetaMessage} (made : transform2MetaMessages declared.node = some mms) :
    Mirrors declared mms ↔ declared.Plain := by
  obtain ⟨packageName, messages⟩ := declared
  have several (made : (messages.map DeclaredMessage.node).mapM
      (createMetaMessage (packageName.getD [])) = some mms) :
      Mirrors ⟨packageName, messages⟩ mms ↔
        ∀ m ∈ messages, (∀ token ∈ packageName, Unspaced token) ∧ m.Plain := by
    rw [List.mapM_map] at made
    apply forall₂_iff_forall (forall₂_of_mapM made)
    intro m member mm made
    exact mirrorsMessage_iff (wellFormed m.node (List.mem_map_of_mem member))
      (noKeyword m member) made
  rcases packageName with _ | packageName
  · rw [several made]
    exact ⟨fun h => ⟨nofun, fun m member => (h m member).2⟩,
      fun h m member => ⟨nofun, h.messages m member⟩⟩
  · cases messages with
    | nil =>
        obtain rfl := Option.some.inj made
        exact iff_of_false nofun fun h => (h.packageName packageName rfl).1 rfl
    | cons m ms =>
        rw [several made]
        constructor
        · intro h
          refine ⟨fun token isPackage => ⟨List.cons_ne_nil m ms, ?_⟩,
            fun m' member => (h m' member).2⟩
          exact (h m List.mem_cons_self).1 token isPackage
        · intro h m' member
          exact ⟨fun token isPackage => (h.packageName token isPackage).2, h.messages m' member⟩

end MessageParser

/-! ## Accepted specifications -/

namespace AcceptedSpecification

/-- **The result mirrors the declarations** of an accepted text exactly if these are plain. -/
theorem mirrors_iff (S : AcceptedSpecification) : ∃ declared, declarations S.text = some declared ∧
    (Mirrors declared S.messages ↔ declared.Plain) := by
  obtain ⟨ast, tree, -, -, made⟩ := parse_eq_noMessageParserError.mp S.accepted
  have wellFormed := wellFormed_of_syntaxTree tree
  rw [syntaxTree_eq_node] at tree
  obtain ⟨declared, found, rfl⟩ := Option.map_eq_some_iff.mp tree
  exact ⟨declared, found,
    mirrors_of_transform2MetaMessages wellFormed (noKeyword_of_declarations found) made⟩

/-- **A package alone.** There is a message that has not been declared. -/
theorem not_mirrors : ¬ ∀ S : AcceptedSpecification, ∃ declared,
    declarations S.text = some declared ∧ Mirrors declared S.messages := by
  intro h
  have accepted : parse (asciiBytes "package a;") =
      some ([⟨[], [], 0, []⟩], .noMessageParserError) := by
    decide +kernel
  have read : declarations (asciiBytes "package a;") = some ⟨some (asciiBytes "a"), []⟩ := by
    decide +kernel
  obtain ⟨declared, found, mirrors⟩ := h ⟨_, _, accepted⟩
  obtain rfl := Option.some.inj (read.symm.trans found)
  cases mirrors

end AcceptedSpecification

end Cluon
