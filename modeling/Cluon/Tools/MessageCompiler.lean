import Cluon.Proto.ProtoFiles
import Cluon.Proto.StandardMeaning
import Cluon.Specification.GeneratedNames
import Cluon.Specification.Mirror

/-!
# The tool `cluon-msc`

`cluon-msc` compiles a specification: it renders each message that the parser returns, and writes
the results one after the other. For an accepted text, the `.proto` file is one of that language with
the messages of the specification, exactly if no name has white space in it, each message has a
name, and the names and numbers are legal there (`compile_cluonMsc`). So a program that has nothing
but this file finds in the encoded messages the values of their fields
(`read_encodedData_cluonMsc`).
-/

set_option autoImplicit false

namespace Cluon

open Library PEG ProtoFile MessageParser MetaMessageToProtoTransformator

namespace CluonMsc

/-- The flags of the command line. -/
structure Commandline where
  generateCPP : Bool
  generateProto : Bool
  deriving DecidableEq, Repr

/-- The loop over the messages: what is written for them. The content of a header file is that of
`MetaMessageToCPPTransformator`. -/
def written (cppContent : MetaMessage → Bytes) (commandline : Commandline) :
    Bool → List MetaMessage → Bytes
  | _, [] => []
  | addHeaderForFirstProtoFile, e :: es =>
      let content := if commandline.generateCPP then cppContent e else []
      let (content, addHeaderForFirstProtoFile) :=
        if commandline.generateProto then
          ((visit e).content addHeaderForFirstProtoFile, false)
        else (content, addHeaderForFirstProtoFile)
      content ++ newline :: written cppContent commandline addHeaderForFirstProtoFile es

/-- `result.second` as a number. -/
def errorCode : MessageParserErrorCodes → Int
  | .noMessageParserError => 0
  | .syntaxError => 1
  | .duplicateIdentifiers => 2

end CluonMsc

open CluonMsc

/-- `cluon_msc(argc, argv)` with a file as its input: the returned value, and what has been written
to the output file or to the standard output; no result if an exception ends the program. -/
def cluonMsc (cppContent : MetaMessage → Bytes) (commandline : Commandline)
    (inputFile : Option Bytes) : Option (Int × Bytes) :=
  match inputFile with
  | none => some (1, [])
  | some input => do
      let (messages, code) ← MessageParser.parse input
      return (errorCode code, written cppContent commandline true messages)

namespace CluonMsc

/-- With the flag, the files of the messages are the contents of the schema. -/
theorem written_eq_contents (cppContent : MetaMessage → Bytes) {commandline : Commandline}
    (proto : commandline.generateProto) (mms : List MetaMessage) :
    written cppContent commandline true mms = contents (mms.map visit) := by
  have others (es : List MetaMessage) : written cppContent commandline false es =
      (es.map visit).flatMap fun data => data.content false ++ [newline] := by
    induction es with
    | nil => rfl
    | cons e es ih =>
        simp only [written, proto, if_true, ih]
        rw [List.map_cons, List.flatMap_cons, List.append_assoc]
        rfl
  cases mms with
  | nil => rfl
  | cons e es =>
      simp only [written, proto, if_true, others]
      rfl

end CluonMsc

/-! ## Names -/

namespace MessageParser

/-- What the names of packages, messages and types consist of. -/
def isNamePart (c : Byte) : Bool := isNameCharacter c || decide (c = 0x2E) || isWhitespace c

/-- The text of a name: it begins with a letter, and may have dots and white space in it. -/
def IsNameText (w : Bytes) : Prop := BeginsWithLetter w ∧ ∀ c ∈ w, isNamePart c

/-- All characters may be parts of names. -/
def NameParts (w : Bytes) : Prop := ∀ c ∈ w, isNamePart c

theorem closed_nameParts : AppendClosed NameParts :=
  ⟨List.forall_mem_nil _, fun hv hw => List.forall_mem_append.mpr ⟨hv, hw⟩⟩

theorem isNamePart_of_isWhitespace {c : Byte} (h : isWhitespace c) : isNamePart c := by
  rw [isNamePart, h, Bool.or_true]

theorem isNamePart_of_isNameCharacter {c : Byte} (h : isNameCharacter c) : isNamePart c := by
  rw [isNamePart, h, Bool.true_or, Bool.true_or]

theorem isNameCharacter_of_isLetter {c : Byte} (h : isLetter c) : isNameCharacter c := by
  rw [isNameCharacter, h, Bool.true_or, Bool.true_or]

theorem takesNameParts_token {α : Type} {e : Parser Byte α} (h : Takes NameParts e) :
    Takes NameParts (token e) := by
  have blanks : Takes NameParts (skipWhile isWhitespace) :=
    takes_skipWhile fun w all c mem => isNamePart_of_isWhitespace (all c mem)
  exact Takes.bind closed_nameParts h.textOf fun _ =>
    Takes.bind closed_nameParts blanks fun _ => Takes.pure closed_nameParts _

theorem takesNameParts_dottedName : Takes NameParts dottedName := by
  have character : Takes NameParts (satisfy isNameCharacter) :=
    takes_satisfy fun c here => List.forall_mem_singleton.mpr (isNamePart_of_isNameCharacter here)
  have letter : Takes NameParts (satisfy isLetter) :=
    takes_satisfy fun c here => List.forall_mem_singleton.mpr
      (isNamePart_of_isNameCharacter (isNameCharacter_of_isLetter here))
  have name : Takes NameParts name :=
    takesNameParts_token (Takes.bind closed_nameParts letter fun _ =>
      Takes.many closed_nameParts character)
  have dot : Takes NameParts (lit ".") := by
    have blanks : Takes NameParts (skipWhile isWhitespace) :=
      takes_skipWhile fun w all c mem => isNamePart_of_isWhitespace (all c mem)
    exact Takes.bind closed_nameParts (takes_word (List.forall_mem_singleton.mpr rfl))
      fun _ => blanks
  exact Takes.bind closed_nameParts name fun _ => Takes.bind closed_nameParts
    (Takes.many closed_nameParts (Takes.bind closed_nameParts dot fun _ => name))
    fun _ => Takes.pure closed_nameParts _

/-- The text that an expression takes is of the kind that it takes. -/
theorem of_textOf {α : Type} {P : Bytes → Prop} {e : Parser Byte α} (takes : Takes P e)
    {s w t : Bytes} (h : textOf e s = some (w, t)) : P w ∧ s = w ++ t := by
  obtain ⟨a, found, text⟩ := textOf_eq_some.mp h
  obtain ⟨v, isKind, rfl⟩ := takes s a t found
  rw [List.length_append, Nat.add_sub_cancel, List.take_left] at text
  exact text ▸ ⟨isKind, rfl⟩

/-- The name of a message or a package is the text of a name. -/
theorem isNameText_of_messageName {s w t : Bytes} (h : messageName s = some (w, t)) :
    IsNameText w := by
  obtain ⟨u, text, -⟩ := token_eq_some.mp h
  exact ⟨beginsWithLetter_of_messageName h, (of_textOf takesNameParts_dottedName text).1⟩

theorem takes_messageType : Takes IsNameText messageType := by
  intro s w t h
  obtain ⟨u, text, rfl⟩ := token_eq_some.mp h
  obtain ⟨parts, rfl⟩ := of_textOf takesNameParts_dottedName text
  obtain ⟨c, v, rfl, letter⟩ := beginsWithLetter_of_messageName h
  refine ⟨c :: v ++ u.takeWhile isWhitespace, ⟨⟨c, _, rfl, letter⟩, ?_⟩, ?_⟩
  · exact List.forall_mem_append.mpr ⟨parts, fun d mem =>
      isNamePart_of_isWhitespace (List.mem_takeWhile_imp mem)⟩
  · rw [List.append_assoc, List.takeWhile_append_dropWhile]

theorem isNameText_of_isName {w : Bytes} (h : IsName w) : IsNameText w := by
  obtain ⟨c, v, rfl, letter, others⟩ := h
  exact ⟨⟨c, v, rfl, letter⟩, List.forall_mem_cons.mpr
    ⟨isNamePart_of_isNameCharacter (isNameCharacter_of_isLetter letter),
      fun d mem => isNamePart_of_isNameCharacter (others d mem)⟩⟩

/-- The type of a field is the text of a name. -/
theorem isNameText_of_primitiveType {s w t : Bytes} (h : primitiveType s = some (w, t)) :
    IsNameText w := by
  have forgotten : (do let _ ← messageType : Parser Byte Unit) = (fun _ => ()) <$> messageType :=
    (map_eq_pure_bind _ _).symm
  have all : ∀ keywords : List String, (∀ k ∈ keywords, IsName (asciiBytes k)) →
      Takes IsNameText (keywords.foldr (fun keyword others => litInToken keyword <|> others)
        (do let _ ← messageType)) := by
    intro keywords
    induction keywords with
    | nil =>
        intro _
        rw [List.foldr_nil, forgotten]
        intro s a t found
        obtain ⟨w, found, -⟩ := map_eq_some.mp found
        exact takes_messageType s w t found
    | cons keyword keywords ih =>
        intro names
        obtain ⟨first, others⟩ := List.forall_mem_cons.mp names
        exact Takes.orElse (takes_word (isNameText_of_isName first)) (ih others)
  obtain ⟨u, text, -⟩ := token_eq_some.mp h
  exact (of_textOf (all primitiveTypes isName_keyword) text).1

/-- What a name begins with. -/
theorem of_isLetter {c : Byte} (letter : isLetter c) :
    stringtoolbox.isBlank c = false ∧ isIdentifierStart c ∧ c ≠ 0x2E := by
  revert letter
  decide +revert

theorem isIdentifierPart_of_isNameCharacter {c : Byte} (character : isNameCharacter c) :
    isIdentifierPart c := by
  simp only [isNameCharacter, isLetter, Bool.or_eq_true, decide_eq_true_eq] at character
  simp only [isIdentifierPart, isIdentifierStart, Bool.or_eq_true, decide_eq_true_eq]
  tauto

/-- What a name consists of, with an underscore for a dot. -/
theorem isIdentifierPart_underscore {c : Byte} (part : isNameCharacter c ∨ c = 0x2E) :
    isIdentifierPart (if c = 0x2E then 0x5F else c) := by
  split
  · rfl
  · rename_i noDot
    exact isIdentifierPart_of_isNameCharacter (part.resolve_right noDot)

/-- White space in a name stays. -/
theorem isSpace_underscore {c : Byte} (white : isWhitespace c) :
    isSpace (if c = 0x2E then 0x5F else c) := by
  rw [isWhitespace, decide_eq_true_iff] at white
  rcases white with rfl | rfl | rfl | rfl <;> rfl

/-- Blanks that are cut off may be missing from a name. -/
theorem IsNameText.trim {w : Bytes} (h : IsNameText w) : IsNameText (stringtoolbox.trim w) := by
  obtain ⟨⟨c, s, rfl, letter⟩, parts⟩ := h
  obtain ⟨t, b, trimmed, rfl, -⟩ := trim_cons (of_isLetter letter).1 s
  rw [trimmed]
  obtain ⟨first, others⟩ := List.forall_mem_cons.mp parts
  exact ⟨⟨c, t, rfl, letter⟩,
    List.forall_mem_cons.mpr ⟨first, (List.forall_mem_append.mp others).1⟩⟩

/-- A name with a package in front of it is a name. -/
theorem IsNameText.qualified {packageName w : Bytes}
    (package : packageName = [] ∨ IsNameText packageName) (h : IsNameText w) :
    IsNameText (qualified packageName w) := by
  rw [Cluon.qualified]
  split
  · exact h
  · rename_i some
    obtain ⟨⟨c, s, rfl, letter⟩, parts⟩ := package.resolve_left some
    refine ⟨⟨c, _, rfl, letter⟩, ?_⟩
    exact List.forall_mem_append.mpr
      ⟨List.forall_mem_append.mpr ⟨parts, List.forall_mem_singleton.mpr rfl⟩, h.2⟩

/-- With underscores for its dots, a name consists of words. -/
theorem IsNameText.isWords {w : Bytes} (h : IsNameText w) : IsWords (withUnderscores w) := by
  obtain ⟨⟨c, s, rfl, letter⟩, parts⟩ := h
  obtain ⟨-, start, noDot⟩ := of_isLetter letter
  have part (d : Byte) (isPart : isNamePart d) :
      isIdentifierPart (if d = 0x2E then 0x5F else d) ∨
        isSpace (if d = 0x2E then 0x5F else d) := by
    rw [isNamePart, Bool.or_eq_true, Bool.or_eq_true, decide_eq_true_iff] at isPart
    exact isPart.imp isIdentifierPart_underscore isSpace_underscore
  refine ⟨c, withUnderscores s, ?_, start, ?_⟩
  · rw [withUnderscores, List.map_cons, if_neg noDot]
    rfl
  · intro d mem
    obtain ⟨d', mem', rfl⟩ := List.mem_map.mp mem
    exact part d' (parts d' (List.mem_cons_of_mem _ mem'))

theorem isIdentifier_of_isName {w : Bytes} (h : IsName w) : IsIdentifier w := by
  obtain ⟨c, v, rfl, letter, others⟩ := h
  exact ⟨c, v, rfl, (of_isLetter letter).2.1,
    fun d mem => isIdentifierPart_of_isNameCharacter (others d mem)⟩

/-- A name without dots is an identifier. -/
theorem isIdentifier_withUnderscores {w : Bytes} (h : IsName w) :
    IsIdentifier (withUnderscores w) := by
  obtain ⟨c, s, rfl, letter, others⟩ := h
  obtain ⟨-, start, noDot⟩ := of_isLetter letter
  refine ⟨c, withUnderscores s, ?_, start, ?_⟩
  · rw [withUnderscores, List.map_cons, if_neg noDot]
    rfl
  · intro d mem
    obtain ⟨d', mem', rfl⟩ := List.mem_map.mp mem
    exact isIdentifierPart_underscore (.inl (others d' mem'))

/-! ## Names of a text -/

/-- The names in a syntax tree. -/
structure NamesOf (ast : MessagesSpecification) : Prop where
  packageName : ∀ token ∈ ast.packageName, IsNameText token
  messageNames : ∀ m ∈ ast.messages, IsNameText m.messageName
  types : ∀ m ∈ ast.messages, ∀ f ∈ m.fields, IsNameText f.primitiveType

theorem isNameText_of_field {s t : Bytes} {f : FieldNode} (h : MessageParser.field s = some (f, t)) :
    IsNameText f.primitiveType := by
  obtain ⟨type, _, isType, h⟩ := bind_eq_some.mp h
  obtain ⟨_, _, -, h⟩ := bind_eq_some.mp h
  obtain ⟨_, _, -, h⟩ := bind_eq_some.mp h
  obtain ⟨_, _, -, h⟩ := bind_eq_some.mp h
  obtain ⟨rfl, -⟩ := pure_eq_some.mp h
  exact isNameText_of_primitiveType isType

theorem names_of_messageDeclaration {s t : Bytes} {m : MessageDeclaration}
    (h : messageDeclaration s = some (m, t)) :
    IsNameText m.messageName ∧ ∀ f ∈ m.fields, IsNameText f.primitiveType := by
  obtain ⟨_, _, -, h⟩ := bind_eq_some.mp h
  obtain ⟨messageName, _, isName, h⟩ := bind_eq_some.mp h
  obtain ⟨_, _, -, h⟩ := bind_eq_some.mp h
  obtain ⟨_, _, -, h⟩ := bind_eq_some.mp h
  obtain ⟨_, _, -, h⟩ := bind_eq_some.mp h
  obtain ⟨_, _, -, h⟩ := bind_eq_some.mp h
  obtain ⟨_, _, -, h⟩ := bind_eq_some.mp h
  obtain ⟨fields, _, areFields, h⟩ := bind_eq_some.mp h
  obtain ⟨_, _, -, h⟩ := bind_eq_some.mp h
  obtain ⟨rfl, -⟩ := pure_eq_some.mp h
  exact ⟨isNameText_of_messageName isName,
    forall_of_many (fun _ _ _ => isNameText_of_field) areFields⟩

theorem names_of_packageDeclaration {s w t : Bytes} (h : packageDeclaration s = some (w, t)) :
    IsNameText w := by
  obtain ⟨_, _, -, h⟩ := bind_eq_some.mp h
  obtain ⟨packageName, _, isName, h⟩ := bind_eq_some.mp h
  obtain ⟨_, _, -, h⟩ := bind_eq_some.mp h
  obtain ⟨rfl, -⟩ := pure_eq_some.mp h
  exact isNameText_of_messageName isName

theorem names_of_syntaxTree {input : Bytes} {ast : MessagesSpecification}
    (h : syntaxTree input = some ast) : NamesOf ast := by
  rw [syntaxTree, parseGrammar] at h
  split at h
  · rename_i ast' found
    obtain rfl := Option.some.inj h
    obtain ⟨packageName, _, package, found⟩ := bind_eq_some.mp found
    obtain ⟨messages, _, many, found⟩ := bind_eq_some.mp found
    obtain ⟨rfl, -⟩ := pure_eq_some.mp found
    have each := forall_of_many (fun _ _ _ => names_of_messageDeclaration) many
    refine ⟨?_, fun m mem => (each m mem).1, fun m mem => (each m mem).2⟩
    intro token isPackage
    obtain rfl := Option.mem_def.mp isPackage
    rw [PEG.opt] at package
    split at package
    · rename_i declared
      obtain ⟨same, -⟩ := Prod.mk.inj (Option.some.inj package)
      obtain rfl := Option.some.inj same
      exact names_of_packageDeclaration declared
    · cases (Prod.mk.inj (Option.some.inj package)).1
  · cases h

end MessageParser

/-! ## What is rendered -/

namespace MetaMessageToProtoTransformator

theorem messageTypeText_eq (packageName messageName : Bytes) :
    messageTypeText packageName messageName =
      withUnderscores (qualified packageName messageName) := by
  rw [messageTypeText, qualified]
  by_cases empty : packageName = []
  · rw [if_pos empty, empty]
    rfl
  · rw [if_neg empty, if_pos (mt withUnderscores_eq_nil.mp empty), withUnderscores_append,
      withUnderscores_append]
    rfl

theorem isWords_typeToTypeStringMap (t : ScalarType) : IsWords (typeToTypeStringMap t) := by
  have isName : IsName (typeToTypeStringMap t) := by
    cases t <;> exact isName_asciiBytes rfl rfl
  exact (isIdentifier_of_isName isName).isWords

/-- The type of a field consists of words. -/
theorem isWords_typeText {mm : MetaMessage} {f : FieldNode} {mf : MetaField} (made : MadeField f mf)
    (package : mm.packageName = [] ∨ IsNameText mm.packageName)
    (type : IsNameText f.primitiveType) : IsWords (typeText mm mf) := by
  rw [typeText, made.dataType, fieldDataType]
  split
  · rename_i isScalar
    split at isScalar
    · exact isWords_typeToTypeStringMap _
    · cases isScalar
  · rw [messageTypeText_eq, made.dataTypeName]
    exact (type.trim.qualified package).isWords
  · rename_i undefined
    split at undefined
    · cases undefined
    · cases undefined

/-- Each element of the second of two lists is related to one of the first. -/
theorem exists_of_forall₂ {α β : Type} {R : α → β → Prop} {as : List α} {bs : List β}
    (h : List.Forall₂ R as bs) {b : β} (mem : b ∈ bs) : ∃ a ∈ as, R a b := by
  induction h with
  | nil => cases mem
  | cons related _ ih =>
      rcases List.mem_cons.mp mem with rfl | mem
      · exact ⟨_, List.mem_cons_self, related⟩
      · obtain ⟨a, isIn, others⟩ := ih mem
        exact ⟨a, List.mem_cons_of_mem _ isIn, others⟩

/-- What is rendered for a declaration consists of words. -/
theorem lexical_visit {packageName : Bytes} {m : MessageDeclaration} {mm : MetaMessage}
    (wellFormed : MessageWellFormed m) (package : packageName = [] ∨ IsNameText packageName)
    (name : IsNameText m.messageName) (types : ∀ f ∈ m.fields, IsNameText f.primitiveType)
    (made : createMetaMessage packageName m = some mm) : (visit mm).Lexical := by
  have created := created_of_createMetaMessage wellFormed made
  have trimmed : mm.packageName = [] ∨ IsNameText mm.packageName := by
    rw [created.packageName]
    rcases package with rfl | package
    · exact .inl rfl
    · exact .inr package.trim
  rw [createMetaMessage] at made
  obtain ⟨_, -, made⟩ := Option.bind_eq_some_iff.mp made
  obtain ⟨mfs, fields, made⟩ := Option.bind_eq_some_iff.mp made
  have sameFields : mm.listOfMetaFields = mfs := by
    rw [← Option.some.inj made]
  constructor
  · rw [message_eq (by rw [created.messageName]; exact beginsWithLetter_trim wellFormed.messageName),
      created.messageName]
    exact .inr (name.trim.qualified trimmed).isWords
  · intro entry mem
    obtain ⟨mf, inFields, rfl⟩ := List.mem_map.mp mem
    rw [sameFields] at inFields
    obtain ⟨f, declared, madeField⟩ :=
      exists_of_forall₂ (madeFields wellFormed.fields fields) inFields
    refine ⟨isWords_typeText madeField trimmed (types f declared), ?_⟩
    rw [madeField.fieldName]
    exact isIdentifier_withUnderscores (wellFormed.fields f declared).name

end MetaMessageToProtoTransformator

namespace AcceptedSpecification

/-- **What is rendered for an accepted text consists of words.** -/
theorem lexical (S : AcceptedSpecification) : ∀ mm ∈ S.messages, (visit mm).Lexical := by
  obtain ⟨ast, tree, -, -, made⟩ := parse_eq_noMessageParserError.mp S.accepted
  have wellFormed := wellFormed_of_syntaxTree tree
  have names := names_of_syntaxTree tree
  have several {packageName : Bytes} (package : packageName = [] ∨ IsNameText packageName)
      (made : ast.messages.mapM (createMetaMessage packageName) = some S.messages) :
      ∀ mm ∈ S.messages, (visit mm).Lexical := by
    intro mm member
    obtain ⟨m, inMessages, isMm⟩ :=
      List.mem_map.mp ((map_eq_of_mapM made) ▸ List.mem_map_of_mem (f := some) member)
    exact lexical_visit (wellFormed m inMessages) package (names.messageNames m inMessages)
      (names.types m inMessages) isMm
  obtain ⟨packageName, messages⟩ := ast
  rcases packageName with _ | packageName
  · exact several (.inl rfl) made
  · rcases messages with _ | ⟨m, more⟩
    · have only : S.messages = [⟨[], [], 0, []⟩] := (Option.some.inj made).symm
      rw [only]
      exact List.forall_mem_singleton.mpr ⟨.inl rfl, List.forall_mem_nil _⟩
    · exact several (.inr (names.packageName packageName rfl)) made

/-- The specification of `TimeStamp`. -/
def timeStamp : AcceptedSpecification where
  text := asciiBytes
    "package cluon.data; message TimeStamp [id=12] \x7b int32 seconds [id=1]; int32 microseconds [id=2]; \x7d"
  messages := [⟨asciiBytes "cluon.data", asciiBytes "TimeStamp", 12,
    [⟨.scalar .int32, asciiBytes "int32", asciiBytes "seconds", 1, []⟩,
      ⟨.scalar .int32, asciiBytes "int32", asciiBytes "microseconds", 2, []⟩]⟩]
  accepted := by decide +kernel

end AcceptedSpecification

/-- The program ends with the contents of the messages of an accepted text. -/
theorem cluonMsc_accepted (S : AcceptedSpecification) (cppContent : MetaMessage → Bytes)
    {commandline : Commandline} (proto : commandline.generateProto) :
    cluonMsc cppContent commandline (some S.text) = some (0, contents (S.messages.map visit)) := by
  rw [← written_eq_contents cppContent proto]
  simp only [cluonMsc, S.accepted]
  rfl

theorem read_contents_accepted (S : AcceptedSpecification) :
    ProtoFile.read (contents (S.messages.map visit)) =
      if ∀ mm ∈ S.messages, (visit mm).Readable then
        some (S.messages.map fun mm => (visit mm).definition)
      else none := by
  rw [read_contents (List.forall_mem_map.mpr S.lexical), List.map_map]
  simp only [List.forall_mem_map]
  rfl

/-- **The `.proto` file of a specification.** For every accepted text, whether header files are
generated too or not, the written file is one of the language exactly if every message has a name,
no name has white space in it but at its end, no identifier of a field is zero, and the messages are
legal with the names that they have in the file. Then they are the messages of the specification in
their order, with the names, the types and the numbers of their fields. -/
theorem compile_cluonMsc (S : AcceptedSpecification) (cppContent : MetaMessage → Bytes)
    {commandline : Commandline} (proto : commandline.generateProto) :
    ∃ file, cluonMsc cppContent commandline (some S.text) = some (0, file) ∧
      ProtoFile.compile file =
        if (∀ mm ∈ S.messages, (visit mm).Readable) ∧
            ProtoFile.IsLegal (S.messages.map fun mm => (visit mm).definition) then
          some (S.messages.map fun mm => (visit mm).definition)
        else none := by
  refine ⟨_, cluonMsc_accepted S cppContent proto, ?_⟩
  rw [ProtoFile.compile, read_contents_accepted]
  by_cases readable : ∀ mm ∈ S.messages, (visit mm).Readable
  · simp only [if_pos readable, Option.filter_some, decide_eq_true_eq, and_iff_right readable]
  · rw [if_neg readable, if_neg fun both => readable both.1, Option.filter_none]

/-- The file for time stamps has one message with two fields. -/
theorem compile_cluonMsc_timeStamp :
    ∃ file, cluonMsc (fun _ => []) ⟨true, true⟩ (some AcceptedSpecification.timeStamp.text) =
        some (0, file) ∧
      ProtoFile.compile file = some [⟨asciiBytes "cluon_data_TimeStamp",
        [⟨asciiBytes "sint32", asciiBytes "seconds", 1⟩,
          ⟨asciiBytes "sint32", asciiBytes "microseconds", 2⟩]⟩] := by
  obtain ⟨file, written, compiled⟩ := compile_cluonMsc AcceptedSpecification.timeStamp
    (fun _ => []) (show (⟨true, true⟩ : Commandline).generateProto from rfl)
  exact ⟨file, written, compiled.trans (if_pos (by decide))⟩

/-! ## Reading messages with the file -/

namespace MetaMessageToProtoTransformator

/-- The names are identifiers: there is no white space in them. -/
structure DataToBeRendered.Plain (data : DataToBeRendered) : Prop where
  message : IsIdentifier data.message
  types : ∀ entry ∈ data.fields, IsIdentifier entry.type

theorem DataToBeRendered.Plain.readable {data : DataToBeRendered} (plain : data.Plain)
    (numbers : ∀ entry ∈ data.fields, entry.fieldIdentifier ≠ 0) : data.Readable := by
  obtain ⟨c, v, some, -, -⟩ := plain.message
  exact ⟨⟨some ▸ List.cons_ne_nil c v, plain.message.oneWord⟩,
    fun entry mem => ⟨(plain.types entry mem).oneWord, numbers entry mem⟩⟩

/-- Without white space nothing is lost. -/
theorem DataToBeRendered.Plain.message_definition {data : DataToBeRendered} (plain : data.Plain) :
    data.definition.message = data.schemaMessage := by
  have fields : (data.fields.map FieldEntry.definition).map
      (fun f => (⟨f.number, Protobuf.FieldType.ofText f.type⟩ : Protobuf.Field)) =
        data.fields.map FieldEntry.field := by
    rw [List.map_map]
    apply List.map_congr_left
    intro entry mem
    rw [Function.comp_apply, FieldEntry.definition, FieldEntry.field,
      (plain.types entry mem).firstWord_eq]
  rw [DataToBeRendered.definition, MessageDefinition.message, fields, plain.message.firstWord_eq]
  rfl

end MetaMessageToProtoTransformator

/-- The schema in the file is that of the messages. -/
theorem schema_of_plain {mms : List MetaMessage} (plain : ∀ mm ∈ mms, (visit mm).Plain) :
    (mms.map fun mm => (visit mm).definition).map MessageDefinition.message = schema mms := by
  rw [List.map_map, schema]
  apply List.map_congr_left
  intro mm member
  exact (plain mm member).message_definition

/-- The messages of an accepted text are a specification, if their fields have numbers. -/
theorem AcceptedSpecification.isSpecification (S : AcceptedSpecification)
    (identifiers : ∀ mm ∈ S.messages, ∀ f ∈ mm.listOfMetaFields,
      0 < f.fieldIdentifier.toNat ∧ f.fieldIdentifier.toNat < 2 ^ 29) :
    IsSpecification S.messages := by
  obtain ⟨packageName, same⟩ := S.exists_packageName
  exact ⟨⟨packageName, fun mm member => (same mm member).1⟩,
    fun mm member => (same mm member).2, identifiers⟩

/-- The fields of legal messages have numbers. -/
theorem numbers_of_isLegal {mms : List MetaMessage}
    (legal : ProtoFile.IsLegal (mms.map fun mm => (visit mm).definition)) :
    ∀ mm ∈ mms, ∀ f ∈ mm.listOfMetaFields,
      0 < f.fieldIdentifier.toNat ∧ f.fieldIdentifier.toNat < 2 ^ 29 := by
  intro mm member f inFields
  have entry := List.mem_map_of_mem (f := FieldEntry.definition)
    (List.mem_map_of_mem (f := fun f => (⟨typeText mm f, withUnderscores f.fieldName,
      f.fieldIdentifier⟩ : FieldEntry)) inFields)
  obtain ⟨number, -⟩ := (legal.2 _ (List.mem_map_of_mem member)).2.2 _ entry
  exact ⟨number.1, number.2.1⟩

/-- A message can be read if its names are identifiers and its fields have numbers. -/
theorem readable_visit {mm : MetaMessage} (plain : (visit mm).Plain)
    (identifiers : ∀ f ∈ mm.listOfMetaFields,
      0 < f.fieldIdentifier.toNat ∧ f.fieldIdentifier.toNat < 2 ^ 29) : (visit mm).Readable := by
  apply plain.readable
  intro entry mem zero
  obtain ⟨f, inFields, rfl⟩ := List.mem_map.mp mem
  have positive := (identifiers f inFields).1
  rw [show f.fieldIdentifier = 0 from zero] at positive
  cases positive

/-- **A foreign reader.** A program that knows nothing but the `.proto` file that was written for an
accepted text, without white space in its names, finds in the encoded message of a type from this
text the values of all fields exactly if the messages in the file are legal, no nested message has
the name of another type, and no value is a character other than `'\0'`. -/
theorem read_encodedData_cluonMsc (S : AcceptedSpecification) (cppContent : MetaMessage → Bytes)
    {commandline : Commandline} (proto : commandline.generateProto)
    (plain : ∀ mm ∈ S.messages, (visit mm).Plain)
    {mm : MetaMessage} (member : mm ∈ S.messages) {T : MessageType}
    (described : mm.Describes S.messages T) (m : T.Values)
    (short : (ToProtoVisitor.encodedData T m).length < 2 ^ 64) :
    ∃ file, cluonMsc cppContent commandline (some S.text) = some (0, file) ∧
      ((∃ definitions, ProtoFile.compile file = some definitions ∧
          Protobuf.Schema.read (definitions.map MessageDefinition.message) (visit mm).message
            (ToProtoVisitor.encodedData T m) = some (T.fields.protoValues m)) ↔
        ProtoFile.IsLegal (S.messages.map fun mm => (visit mm).definition) ∧
          T.fields.EachMessageField (mapForScopeOfMetaMessages S.messages)
            (NamesMessage mm.packageName) mm.listOfMetaFields ∧
          T.fields.AllValues ScalarType.NoCharacter m) := by
  refine ⟨_, cluonMsc_accepted S cppContent proto, ?_⟩
  by_cases legal : ProtoFile.IsLegal (S.messages.map fun mm => (visit mm).definition)
  · have identifiers := numbers_of_isLegal legal
    have readable (mm : MetaMessage) (member : mm ∈ S.messages) : (visit mm).Readable :=
      readable_visit (plain mm member) (identifiers mm member)
    have compiled : ProtoFile.compile (contents (S.messages.map visit)) =
        some (S.messages.map fun mm => (visit mm).definition) := by
      rw [ProtoFile.compile, read_contents_accepted, if_pos readable, Option.filter_some,
        if_pos (decide_eq_true legal)]
    have spec := S.isSpecification identifiers
    obtain ⟨packageName, package⟩ := spec.package
    have valid : (schema S.messages).Valid := schema_of_plain plain ▸ legal.valid
    rw [compiled, and_iff_right legal]
    simp only [Option.some.injEq, exists_eq_left', schema_of_plain plain]
    rw [ToProtoVisitor.encodedData_eq] at short ⊢
    rw [Protobuf.Schema.read, if_pos valid, readMessage_eq spec valid member described short,
      package mm member]
    exact read_fields_iff spec valid package T.fields member described
      (identifiers mm member) (nodup_identifiers valid member) short le_rfl
      (fun number => Protobuf.payloadsOf number (T.fields.protoRecords m)) fun _ _ => rfl
  · refine iff_of_false ?_ fun h => legal h.1
    rintro ⟨definitions, compiled, -⟩
    rw [ProtoFile.compile, read_contents_accepted] at compiled
    obtain ⟨found, isLegal⟩ := Option.filter_eq_some_iff.mp compiled
    split at found
    · obtain rfl := Option.some.inj found
      exact legal (of_decide_eq_true isLegal)
    · cases found

/-- The values of a time stamp are found. -/
theorem read_encodedData_cluonMsc_timeStamp :
    ∃ file, cluonMsc (fun _ => []) ⟨true, true⟩
          (some AcceptedSpecification.timeStamp.text) = some (0, file) ∧
      ∃ definitions, ProtoFile.compile file = some definitions ∧
        Protobuf.Schema.read (definitions.map MessageDefinition.message)
            (asciiBytes "cluon_data_TimeStamp")
            (ToProtoVisitor.encodedData TimeStamp (TimeStamp.of (-1) 2)) =
          some [.integer (-1), .integer 2] := by
  have plain : ∀ mm ∈ AcceptedSpecification.timeStamp.messages, (visit mm).Plain := by
    refine List.forall_mem_singleton.mpr ⟨⟨_, _, rfl, by decide, by decide⟩, ?_⟩
    intro entry mem
    rcases List.mem_pair.mp mem with rfl | rfl
    · exact ⟨_, _, rfl, by decide, by decide⟩
    · exact ⟨_, _, rfl, by decide, by decide⟩
  have described : (AcceptedSpecification.timeStamp.messages.head (List.cons_ne_nil _ _)).Describes
      AcceptedSpecification.timeStamp.messages TimeStamp :=
    ⟨_, _, rfl, rfl, rfl, _, _, rfl, rfl, rfl, rfl⟩
  obtain ⟨file, written, values⟩ :=
    read_encodedData_cluonMsc AcceptedSpecification.timeStamp (fun _ => [])
      (show (⟨true, true⟩ : Commandline).generateProto from rfl) plain
      (List.head_mem _) described (TimeStamp.of (-1) 2)
      (length_encodedData_timeStamp (TimeStamp.of (-1) 2))
  exact ⟨file, written, values.mpr ⟨by decide, trivial, trivial, trivial, trivial⟩⟩

end Cluon
