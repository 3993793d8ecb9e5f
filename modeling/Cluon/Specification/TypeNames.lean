import Cluon.Specification.SelfDescription

/-!
# The type names of fields

A field without options consists of its type and its name. `PRIMITIVE_TYPE` tries the keywords
before the names of messages, and takes a keyword also where more letters follow. So a line with
the name of a message type is read as a field of this type if and only if no keyword is the
beginning of the name (`readAsMessageField_iff`).
-/

set_option autoImplicit false

namespace Cluon

open Library PEG MessageParser ToODVDVisitor

/-! ## Lines without options -/

/-- A field without options. -/
structure FieldLine where
  type : Bytes
  name : Bytes
  deriving DecidableEq, Repr

namespace FieldLine

def text (f : FieldLine) : Bytes := f.type ++ 0x20 :: (f.name ++ asciiBytes ";")

/-- The type is a keyword, or the name of a message type that does not begin with one. -/
structure Readable (f : FieldLine) : Prop where
  type : (∃ k ∈ primitiveTypes, f.type = asciiBytes k) ∨
    IsDottedName f.type ∧ ¬ BeginsWithKeyword f.type
  name : IsName f.name

/-- The token of the type ends with the blank behind it, unless it is a keyword. -/
def typeToken (f : FieldLine) : Bytes :=
  if ∃ k ∈ primitiveTypes, f.type = asciiBytes k then f.type else f.type ++ [0x20]

def node (f : FieldLine) : FieldNode := ⟨f.typeToken, f.name, []⟩

/-- The field of a message, where the fields before it have been counted. -/
def metaField (counter : BitVec 32) (f : FieldLine) : MetaField :=
  ⟨fieldDataType f.type, f.type, f.name, counter + 1, []⟩

/-- The fields of a message, where some have been counted before. -/
def metaFields : BitVec 32 → List FieldLine → List MetaField
  | _, [] => []
  | counter, f :: fs => f.metaField counter :: metaFields (counter + 1) fs

theorem metaFields_append (fs gs : List FieldLine) (counter : BitVec 32) :
    ∃ counter', metaFields counter (fs ++ gs) = metaFields counter fs ++ metaFields counter' gs := by
  induction fs generalizing counter with
  | nil => exact ⟨counter, rfl⟩
  | cons f fs ih =>
      obtain ⟨counter', split⟩ := ih (counter + 1)
      exact ⟨counter', congrArg (f.metaField counter :: ·) split⟩

theorem length_metaFields (fs : List FieldLine) (counter : BitVec 32) :
    (metaFields counter fs).length = fs.length := by
  induction fs generalizing counter with
  | nil => rfl
  | cons f fs ih => exact congrArg (· + 1) (ih (counter + 1))

end FieldLine

/-- The text of a message with fields without options. -/
def linesText (info : MessageInfo) (fs : List FieldLine) : Bytes :=
  headLine info ++ (fs.flatMap FieldLine.text ++ asciiBytes "\x7d\n")

/-- The line is read as a field of the message type, whatever follows it, and a message with this
line among others is accepted. -/
structure ReadAsMessageField (f : FieldLine) : Prop where
  node : ∀ s, ∃ type t, field (f.text ++ s) = some (⟨type, f.name, []⟩, t) ∧
    fieldDataType type = .message ∧ stringtoolbox.trim type = f.type
  accepted : ∀ (info : MessageInfo) (before after : List FieldLine),
    IsDottedName info.longName → 0 < info.id.toInt →
    (∀ g ∈ before ++ after, g.Readable) → ((before ++ f :: after).map FieldLine.name).Nodup →
    ∃ first id second, parse (linesText info (before ++ f :: after)) =
        some ([⟨[], info.longName, info.id,
          first ++ ⟨.message, f.type, f.name, id, []⟩ :: second⟩], .noMessageParserError) ∧
      first.length = before.length ∧ second.length = after.length

/-! ## Reading lines -/

namespace MessageParser

/-- No keyword is the beginning of another one. -/
theorem eq_of_keyword_prefix : ∀ k ∈ primitiveTypes, ∀ k' ∈ primitiveTypes,
    asciiBytes k' <+: asciiBytes k → k' = k := by
  decide +kernel

/-- A keyword with a blank behind it is read as it is written. -/
theorem primitiveType_keyword {k : String} (member : k ∈ primitiveTypes) (s : Bytes) :
    primitiveType (asciiBytes k ++ 0x20 :: s) = some (asciiBytes k, s.dropWhile isWhitespace) := by
  obtain ⟨k', member', t, split, found⟩ := alternatives_of_keyword (do let _ ← messageType)
    ⟨k, member, List.prefix_append (asciiBytes k) (0x20 :: s)⟩
  have isPrefix : asciiBytes k' <+: asciiBytes k :=
    prefix_of_prefix_append_blank (noBlank_primitiveTypes k' member') ⟨t, split.symm⟩
  obtain rfl := eq_of_keyword_prefix k member k' member' isPrefix
  obtain rfl := List.append_cancel_left split
  exact (token_append found).trans rfl

end MessageParser

namespace FieldLine

variable {f : FieldLine}

theorem text_append (f : FieldLine) (s : Bytes) :
    f.text ++ s = f.type ++ 0x20 :: (f.name ++ (asciiBytes ";" ++ s)) := by
  simp only [text, List.append_assoc, List.cons_append]

theorem typeToken_of_not_keyword (other : ∀ k ∈ primitiveTypes, f.type ≠ asciiBytes k) :
    f.typeToken = f.type ++ [0x20] := by
  rw [typeToken, if_neg]
  rintro ⟨k, member, same⟩
  exact other k member same

theorem not_keyword {w : Bytes} (h : ¬ BeginsWithKeyword w) :
    ∀ k ∈ primitiveTypes, w ≠ asciiBytes k := by
  rintro k member rfl
  exact h ⟨k, member, List.prefix_refl _⟩

namespace Readable

variable (h : f.Readable)
include h

theorem primitiveType_append {s : Bytes} (follows : Follows s) :
    primitiveType (f.type ++ 0x20 :: s) = some (f.typeToken, s) := by
  rcases h.type with ⟨k, member, keyword⟩ | ⟨isDotted, noKeyword⟩
  · have read := primitiveType_keyword member s
    rw [follows.dropWhile, ← keyword] at read
    rw [read, typeToken, if_pos ⟨k, member, keyword⟩]
  · rw [typeToken_of_not_keyword (not_keyword noKeyword)]
    exact primitiveType_message isDotted noKeyword follows

/-- **A readable line is read as its node.** -/
theorem field_append (s : Bytes) :
    field (f.text ++ s) = some (f.node, s.dropWhile isWhitespace) := by
  have type := h.primitiveType_append (Follows.of_isName h.name (asciiBytes ";" ++ s))
  have named : MessageParser.name (f.name ++ (asciiBytes ";" ++ s)) =
      some (f.name, asciiBytes ";" ++ s) :=
    (name_append h.name (by rintro c ⟨⟩; rfl)).trans rfl
  have noOptions : opt fieldOptions (asciiBytes ";" ++ s) = some (none, asciiBytes ";" ++ s) :=
    opt_of_none rfl
  have semicolon := lit_append ";" s
  rw [text_append]
  exact (bind_of_some type).trans <| (bind_of_some named).trans <|
    (bind_of_some noOptions).trans <| bind_of_some semicolon

/-- What the token of the type stands for. -/
theorem typeToken_eq : fieldDataType f.typeToken = fieldDataType f.type ∧
    stringtoolbox.trim f.typeToken = f.type := by
  rcases h.type with ⟨k, member, keyword⟩ | ⟨isDotted, noKeyword⟩
  · rw [typeToken, if_pos ⟨k, member, keyword⟩]
    refine ⟨rfl, ?_⟩
    rw [keyword]
    exact trim_keyword member
  · rw [typeToken_of_not_keyword (not_keyword noKeyword)]
    refine ⟨?_, isDotted.trim_append⟩
    rw [fieldDataType_append, fieldDataType_of_not_keyword (not_keyword noKeyword)]

theorem beginsWithLetter : BeginsWithLetter f.type := by
  rcases h.type with ⟨k, member, keyword⟩ | ⟨⟨first, others, ⟨c, t, rfl, letter, -⟩, -, split⟩, -⟩
  · obtain ⟨c, s, split, letter, -⟩ := isName_keyword k member
    exact ⟨c, s, keyword.trans split, letter⟩
  · exact ⟨c, _, split, letter⟩

/-- No blanks are skipped before a readable line. -/
theorem dropWhile_append (s : Bytes) : (f.text ++ s).dropWhile isWhitespace = f.text ++ s := by
  obtain ⟨c, t, split, letter⟩ := h.beginsWithLetter
  rw [text_append, split]
  apply List.dropWhile_cons_of_neg
  rw [isWhitespace_of_isLetter letter]
  exact Bool.false_ne_true

end Readable

/-- The lines of a message are read up to its end. -/
theorem many_field_lines {fs : List FieldLine} : (∀ f ∈ fs, f.Readable) →
    many field ((fs.flatMap text ++ asciiBytes "\x7d\n").dropWhile isWhitespace) =
      some (fs.map node, asciiBytes "\x7d\n") := by
  induction fs with
  | nil => intro _; exact many_of_none rfl
  | cons f fs ih =>
      intro readable
      obtain ⟨here, others⟩ := List.forall_mem_cons.mp readable
      rw [List.flatMap_cons, List.append_assoc, here.dropWhile_append]
      exact many_of_some consumes_field (here.field_append _) (ih others)

theorem isPlain_text (h : f.Readable) : ∀ c ∈ f.text, isPlain c := by
  have type : ∀ c ∈ f.type, isPlain c := by
    rcases h.type with ⟨k, member, keyword⟩ | ⟨isDotted, -⟩
    · rw [keyword]
      exact (isName_keyword k member).isPlain
    · exact isDotted.isPlain
  have blank : isPlain 0x20 := rfl
  simp only [text, List.forall_mem_append, List.forall_mem_cons]
  exact ⟨type, blank, h.name.isPlain, isPlain_asciiBytes rfl⟩

/-- What is made of the nodes of lines. -/
theorem createMetaFields_node {fs : List FieldLine} : (∀ f ∈ fs, f.Readable) →
    ∀ counter, createMetaFields counter (fs.map node) = some (metaFields counter fs) := by
  induction fs with
  | nil => intro _ _; rfl
  | cons f fs ih =>
      intro readable counter
      obtain ⟨here, others⟩ := List.forall_mem_cons.mp readable
      have wellFormed : FieldWellFormed f.node := ⟨here.name, nofun⟩
      obtain ⟨type, trimmed⟩ := here.typeToken_eq
      have creatable : f.node.Creatable := nofun
      rw [List.map_cons, createMetaFields_cons wellFormed, if_pos creatable]
      rw [if_pos (show f.node.identifiers = [] from rfl), ih others, Option.map_some]
      refine congrArg (fun field => some (field :: metaFields (counter + 1) fs)) ?_
      change (⟨fieldDataType f.typeToken, stringtoolbox.trim f.typeToken, f.name, counter + 1, []⟩ :
        MetaField) = f.metaField counter
      rw [type, trimmed]
      rfl

end FieldLine

/-! ## Messages -/

/-- The node that the text of a message is read as. -/
def linesNode (info : MessageInfo) (fs : List FieldLine) : MessageDeclaration :=
  ⟨info.longName ++ [0x20], numberToken info.id.toInt.natAbs, fs.map FieldLine.node⟩

section

variable {info : MessageInfo} {fs : List FieldLine} (isDotted : IsDottedName info.longName)
  (positive : 0 < info.id.toInt) (readable : ∀ f ∈ fs, f.Readable)
include isDotted positive

theorem declared_lines : (⟨info, .nil⟩ : MessageType).Declared :=
  ⟨isDotted, positive, nofun⟩

include readable

theorem syntaxTree_linesText :
    syntaxTree (linesText info fs) = some ⟨none, [linesNode info fs]⟩ := by
  have declared := declared_lines isDotted positive
  have plain : ∀ c ∈ linesText info fs, isPlain c := by
    simp only [linesText, headLine, declared.decimalInt_eq, List.forall_mem_append]
    refine ⟨⟨⟨⟨⟨isPlain_asciiBytes rfl, isDotted.isPlain⟩, isPlain_asciiBytes rfl⟩,
      isPlain_decimal _⟩, isPlain_asciiBytes rfl⟩, ?_, isPlain_asciiBytes rfl⟩
    intro c member
    obtain ⟨f, inLines, inText⟩ := List.mem_flatMap.mp member
    exact FieldLine.isPlain_text (readable f inLines) c inText
  have noBlank : (linesText info fs).dropWhile isWhitespace = linesText info fs := rfl
  have noPackage : opt packageDeclaration (linesText info fs) = some (none, linesText info fs) :=
    opt_of_none rfl
  have fields := FieldLine.many_field_lines readable
  have closed : lit "\x7d" (asciiBytes "\x7d\n") = some ((), []) := rfl
  have message : messageDeclaration (linesText info fs) = some (linesNode info fs, []) := by
    rw [linesText, declared.messageDeclaration_headLine]
    exact (bind_of_some fields).trans (bind_of_some closed)
  have messages : many messageDeclaration (linesText info fs) = some ([linesNode info fs], []) :=
    many_of_some consumes_messageDeclaration message rfl
  rw [syntaxTree_eq plain, parseGrammar, noBlank, messagesSpecification, bind_of_some noPackage,
    bind_of_some messages]
  rfl

/-- **A message with readable lines is accepted** if their names are different. -/
theorem parse_linesText (distinct : (fs.map FieldLine.name).Nodup) :
    parse (linesText info fs) =
      some ([⟨[], info.longName, info.id, FieldLine.metaFields 0 fs⟩], .noMessageParserError) := by
  have tree := syntaxTree_linesText isDotted positive readable
  have wellFormed := wellFormed_of_syntaxTree tree
  have value : number (linesNode info fs).identifier = info.id.toInt.natAbs := number_numberToken _
  have small : number (linesNode info fs).identifier < 2 ^ 31 := by
    rw [value]
    have := info.id.toInt_lt
    omega
  have checkable : (⟨none, [linesNode info fs]⟩ : MessagesSpecification).Checkable :=
    List.forall_mem_singleton.mpr ⟨small, List.forall_mem_map.mpr fun f _ => nofun⟩
  have first : (⟨none, [linesNode info fs]⟩ : MessagesSpecification).FirstDistinct := by
    have noIdentifiers : ((fs.map FieldLine.node).filterMap fun f => f.identifiers.head?) = [] := by
      rw [List.filterMap_map]
      exact List.filterMap_eq_nil_iff.mpr fun f _ => rfl
    have names : (fs.map FieldLine.node).map FieldNode.name = fs.map FieldLine.name :=
      List.map_map
    refine ⟨List.forall_mem_singleton.mpr ⟨?_, ?_⟩, List.nodup_singleton _, List.nodup_singleton _⟩
    · rw [linesNode, noIdentifiers]
      exact List.nodup_nil
    · rw [linesNode, names]
      exact distinct
  have message : createMetaMessage [] (linesNode info fs) =
      some ⟨[], info.longName, info.id, FieldLine.metaFields 0 fs⟩ := by
    have isNumber := (wellFormed _ List.mem_cons_self).identifier
    have id : BitVec.ofInt 32 (info.id.toInt.natAbs : Int) = info.id := by
      rw [Int.natAbs_of_nonneg positive.le, BitVec.ofInt_toInt]
    have fields : createMetaFields 0 (linesNode info fs).fields = _ :=
      FieldLine.createMetaFields_node readable 0
    have trimmed : stringtoolbox.trim (linesNode info fs).messageName = info.longName :=
      isDotted.trim_append
    rw [createMetaMessage, stoi_of_isNumber isNumber, if_pos small, value, Option.bind_eq_bind,
      Option.bind_some, fields, trimmed, id]
    rfl
  rw [parse, tree]
  change resultOf ⟨none, [linesNode info fs]⟩ = _
  rw [resultOf_eq wellFormed, if_pos checkable, if_pos first, transform2MetaMessages,
    Option.getD_none, List.mapM_cons, message]
  · rfl
  · rintro packageName ⟨⟩

end

/-! ## Names that begin with a keyword -/

/-- **A line is read as a field of a message type** if and only if the name of the type does not
begin with a keyword. -/
theorem readAsMessageField_iff {f : FieldLine} (isDotted : IsDottedName f.type)
    (other : ∀ k ∈ primitiveTypes, f.type ≠ asciiBytes k) (isName : IsName f.name) :
    ReadAsMessageField f ↔ ¬ BeginsWithKeyword f.type := by
  constructor
  · intro h keyword
    obtain ⟨type, t, read, -⟩ := h.node []
    rw [FieldLine.text_append, field_of_keyword isDotted keyword other isName] at read
    cases read
  · intro noKeyword
    have here : f.Readable := ⟨.inr ⟨isDotted, noKeyword⟩, isName⟩
    have type := fieldDataType_of_not_keyword other
    obtain ⟨tokenType, trimmed⟩ := here.typeToken_eq
    refine ⟨fun s => ⟨_, _, here.field_append s, tokenType.trans type, trimmed⟩, ?_⟩
    intro info before after isDotted positive readable distinct
    have all : ∀ g ∈ before ++ f :: after, g.Readable := by
      rw [List.forall_mem_append] at readable ⊢
      exact ⟨readable.1, List.forall_mem_cons.mpr ⟨here, readable.2⟩⟩
    obtain ⟨counter, split⟩ := FieldLine.metaFields_append before (f :: after) 0
    refine ⟨FieldLine.metaFields 0 before, counter + 1, FieldLine.metaFields (counter + 1) after,
      ?_, FieldLine.length_metaFields .., FieldLine.length_metaFields ..⟩
    rw [parse_linesText isDotted positive all distinct, split, ← type]
    rfl

/-- The name of a type in a package is read. -/
theorem readAsMessageField_point :
    ReadAsMessageField ⟨asciiBytes "geometry.Point", asciiBytes "p"⟩ := by
  have geometry : IsName (asciiBytes "geometry") := isName_asciiBytes rfl rfl
  have point : IsName (asciiBytes "Point") := isName_asciiBytes rfl rfl
  have isDotted : IsDottedName (asciiBytes "geometry.Point") :=
    ⟨_, [asciiBytes "Point"], geometry, List.forall_mem_singleton.mpr point, rfl⟩
  exact (readAsMessageField_iff isDotted (by decide) (isName_asciiBytes rfl rfl)).mpr (by decide)

/-- **A message type whose name begins with a keyword.** The field is not accepted. -/
theorem not_readAsMessageField :
    ¬ ∀ f : FieldLine, IsDottedName f.type → (∀ k ∈ primitiveTypes, f.type ≠ asciiBytes k) →
      IsName f.name → ReadAsMessageField f := by
  intro h
  have isName : IsName (asciiBytes "boolean") := isName_asciiBytes rfl rfl
  have isDotted : IsDottedName (asciiBytes "boolean") := ⟨_, [], isName, nofun, rfl⟩
  have read := h ⟨asciiBytes "boolean", asciiBytes "x"⟩ isDotted (by decide)
    (isName_asciiBytes rfl rfl)
  have isA : IsName (asciiBytes "A") := isName_asciiBytes rfl rfl
  have info : IsDottedName (asciiBytes "A") := ⟨_, [], isA, nofun, rfl⟩
  obtain ⟨first, id, second, accepted, -⟩ :=
    read.accepted ⟨1, asciiBytes "A", asciiBytes "A"⟩ [] [] info (by decide) nofun
      (List.nodup_singleton _)
  have notAccepted : parse (linesText ⟨1, asciiBytes "A", asciiBytes "A"⟩
      [⟨asciiBytes "boolean", asciiBytes "x"⟩]) = some ([], .syntaxError) := by
    decide +kernel
  exact absurd (notAccepted.symm.trans accepted) nofun

end Cluon
