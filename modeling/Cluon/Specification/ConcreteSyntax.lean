import Cluon.Specification.MessageParser

/-!
# Declarations as they are written

The declarations of a text, read by the rules of the grammar, but with more than the tokens that
the parser keeps: which keyword is the type of a field, and which white space stands at the ends
of a quoted literal. Without this they are the syntax tree (`syntaxTree_eq_node`).

What a declaration stands for is what is written without white space: it may stand in and behind
names, types and numbers, because blanks are skipped there, and is a part of quoted literals
only.
-/

set_option autoImplicit false

namespace Cluon

open Library PEG MessageParser

/-! ## Declarations -/

/-- The keyword of a type. -/
def keyword : ScalarType → String
  | .bool => "bool"
  | .float => "float"
  | .double => "double"
  | .char => "char"
  | .bytes => "bytes"
  | .string => "string"
  | .int8 => "int8"
  | .uint8 => "uint8"
  | .int16 => "int16"
  | .uint16 => "uint16"
  | .int32 => "int32"
  | .uint32 => "uint32"
  | .int64 => "int64"
  | .uint64 => "uint64"

/-- The types, in the order in which their keywords are tried. -/
def scalarTypes : List ScalarType :=
  [.bool, .float, .double, .char, .bytes, .string, .int8, .uint8, .int16, .uint16, .int32, .uint32,
    .int64, .uint64]

/-- The type of a field: a keyword, or the token of the name of a message. -/
inductive DeclaredType where
  | scalar (t : ScalarType)
  | message (token : Bytes)
  deriving DecidableEq, Repr

/-- What stands between quotes, with the white space at its ends. -/
structure Quoted where
  before : Bytes
  text : Bytes
  behind : Bytes
  deriving DecidableEq, Repr

inductive DeclaredDefault where
  | number (token : Bytes)
  | bool (token : Bytes)
  | character (literal : Quoted)
  | string (literal : Quoted)
  deriving DecidableEq, Repr

inductive DeclaredOption where
  | default (value : DeclaredDefault)
  | identifier (token : Bytes)
  deriving DecidableEq, Repr

structure DeclaredField where
  type : DeclaredType
  name : Bytes
  options : List DeclaredOption
  deriving DecidableEq, Repr

structure DeclaredMessage where
  messageName : Bytes
  identifier : Bytes
  fields : List DeclaredField
  deriving DecidableEq, Repr

structure DeclaredSpecification where
  packageName : Option Bytes
  messages : List DeclaredMessage
  deriving DecidableEq, Repr

/-! ## Reading -/

namespace ConcreteSyntax

/-- A keyword, or else the name of a message. -/
def type : Parser Byte DeclaredType := do
  let type ← scalarTypes.foldr
    (fun t others => (fun _ => .scalar t) <$> litInToken (keyword t) <|> others)
    (DeclaredType.message <$> textOf messageType)
  skipWhile isWhitespace
  return type

/-- A literal between quotes. -/
def quoted {α : Type} (quote : String) (e : Parser Byte α) : Parser Byte Quoted := do
  litInToken quote
  let before ← textOf (skipWhile isWhitespace)
  let text ← textOf e
  let behind ← textOf (skipWhile isWhitespace)
  lit quote
  return ⟨before, text, behind⟩

def string : Parser Byte Quoted :=
  quoted "\"" (many (do notNext (litInToken "\""); anyCharacter))

def character : Parser Byte Quoted := quoted "'" (do notNext (litInToken "'"); anyCharacter)

def default : Parser Byte DeclaredDefault := do
  lit "default"
  lit "="
  (DeclaredDefault.number <$> floatNumber) <|> (DeclaredDefault.bool <$> bool) <|>
    (DeclaredDefault.character <$> character) <|> (DeclaredDefault.string <$> string)

def fieldOption : Parser Byte DeclaredOption := do
  let value ←
    (DeclaredOption.default <$> default) <|> (DeclaredOption.identifier <$> identifier)
  let _ ← opt (lit ",")
  return value

def fieldOptions : Parser Byte (List DeclaredOption) := do
  lit "["
  let options ← many fieldOption
  lit "]"
  return options

def field : Parser Byte DeclaredField := do
  let type ← type
  let name ← name
  let options ← opt fieldOptions
  lit ";"
  return ⟨type, name, options.getD []⟩

def messageDeclaration : Parser Byte DeclaredMessage := do
  lit "message"
  let messageName ← messageName
  lit "["
  let identifier ← identifier
  let _ ← opt (lit ",")
  lit "]"
  lit "\x7b"
  let fields ← many field
  lit "\x7d"
  return ⟨messageName, identifier, fields⟩

def messagesSpecification : Parser Byte DeclaredSpecification := do
  let packageName ← opt packageDeclaration
  let messages ← many messageDeclaration
  return ⟨packageName, messages⟩

end ConcreteSyntax

/-- The declarations of a text: comments are not part of it, and neither is what follows a zero
byte. -/
def declarations (input : Bytes) : Option DeclaredSpecification :=
  match ConcreteSyntax.messagesSpecification
      (((withoutComments input).takeWhile fun c => decide (c ≠ 0)).dropWhile isWhitespace) with
  | some (declared, []) => some declared
  | _ => none

/-! ## Nodes of declarations -/

def DeclaredType.token : DeclaredType → Bytes
  | .scalar t => asciiBytes (keyword t)
  | .message token => token

def DeclaredDefault.node : DeclaredDefault → DefaultNode
  | .number token => .floatNumber token
  | .bool token => .bool token
  | .character literal => .character literal.text
  | .string literal => .string literal.text

def DeclaredOption.node : DeclaredOption → FieldOption
  | .default value => .default value.node
  | .identifier token => .identifier token

def DeclaredField.node (f : DeclaredField) : FieldNode :=
  ⟨f.type.token, f.name, f.options.map DeclaredOption.node⟩

def DeclaredMessage.node (m : DeclaredMessage) : MessageDeclaration :=
  ⟨m.messageName, m.identifier, m.fields.map DeclaredField.node⟩

def DeclaredSpecification.node (s : DeclaredSpecification) : MessagesSpecification :=
  ⟨s.packageName, s.messages.map DeclaredMessage.node⟩

namespace ConcreteSyntax

/-- The alternatives of a type take the same text. -/
theorem textOf_types (types : List ScalarType) :
    textOf ((types.map keyword).foldr (fun keyword others => litInToken keyword <|> others)
      (do let _ ← messageType)) =
    DeclaredType.token <$> types.foldr
      (fun t others => (fun _ => .scalar t) <$> litInToken (keyword t) <|> others)
      (DeclaredType.message <$> textOf messageType) := by
  induction types with
  | nil =>
      have forgotten : (do let _ ← messageType : Parser Byte Unit) =
          (fun _ => ()) <$> messageType := (map_eq_pure_bind _ _).symm
      rw [List.map_nil, List.foldr_nil, List.foldr_nil, forgotten, textOf_map, Functor.map_map]
      exact (id_map _).symm
  | cons t types ih =>
      rw [List.map_cons, List.foldr_cons, List.foldr_cons, textOf_orElse, ih, map_orElse,
        Functor.map_map, litInToken, textOf_word]
      rfl

theorem primitiveType_eq : primitiveType = DeclaredType.token <$> type := by
  rw [primitiveType, token, type]
  have types : primitiveTypes = scalarTypes.map keyword := rfl
  rw [types, textOf_types]
  simp only [bind_map_left, map_bind, map_pure]

theorem quoted_eq {α : Type} (quote : String) (e : Parser Byte α) :
    (do lit quote; let text ← token e; lit quote; return text) =
      Quoted.text <$> quoted quote e := by
  have skipped {β : Type} (next : Parser Byte β) :
      (do skipWhile isWhitespace; next) =
        (do let _ ← textOf (skipWhile isWhitespace); next) := by
    conv_lhs => rw [← map_textOf (skipWhile isWhitespace), bind_map_left]
  simp only [lit, token, quoted, litInToken, bind_assoc, pure_bind, skipped, map_bind, map_pure]

theorem default_eq : MessageParser.default = DeclaredDefault.node <$> default := by
  simp only [MessageParser.default, default, map_bind, map_orElse, Functor.map_map]
  rw [MessageParser.string, MessageParser.character, quoted_eq, quoted_eq, Functor.map_map,
    Functor.map_map]
  rfl

theorem fieldOption_eq : MessageParser.fieldOption = DeclaredOption.node <$> fieldOption := by
  have value : (FieldOption.default <$> MessageParser.default <|>
        FieldOption.identifier <$> identifier) =
      DeclaredOption.node <$>
        (DeclaredOption.default <$> default <|> DeclaredOption.identifier <$> identifier) := by
    rw [map_orElse, default_eq, Functor.map_map, Functor.map_map, Functor.map_map]
    rfl
  simp only [MessageParser.fieldOption, fieldOption, value, bind_map_left, map_bind, map_pure]

theorem fieldOptions_eq :
    MessageParser.fieldOptions = List.map DeclaredOption.node <$> fieldOptions := by
  simp only [MessageParser.fieldOptions, fieldOptions, fieldOption_eq, many_map, bind_map_left,
    map_bind, map_pure]

theorem field_eq : MessageParser.field = DeclaredField.node <$> field := by
  have options (options : Option (List DeclaredOption)) :
      (options.map (List.map DeclaredOption.node)).getD [] =
        (options.getD []).map DeclaredOption.node := by
    cases options <;> rfl
  simp only [MessageParser.field, field, primitiveType_eq, fieldOptions_eq, opt_map, bind_map_left,
    map_bind, map_pure, DeclaredField.node, options]

theorem messageDeclaration_eq :
    MessageParser.messageDeclaration = DeclaredMessage.node <$> messageDeclaration := by
  simp only [MessageParser.messageDeclaration, messageDeclaration, field_eq, many_map,
    bind_map_left, map_bind, map_pure, DeclaredMessage.node]

theorem messagesSpecification_eq :
    MessageParser.messagesSpecification =
      DeclaredSpecification.node <$> messagesSpecification := by
  simp only [MessageParser.messagesSpecification, messagesSpecification, messageDeclaration_eq,
    many_map, bind_map_left, map_bind, map_pure, DeclaredSpecification.node]

/-! ## Types -/

/-- The name of a message is tried only if there is no keyword. -/
theorem no_keyword_of_message {types : List ScalarType} {s token t : Bytes}
    (h : types.foldr (fun t others => (fun _ => .scalar t) <$> litInToken (keyword t) <|> others)
      (DeclaredType.message <$> textOf messageType) s = some (.message token, t)) :
    (∀ t ∈ types, ¬ asciiBytes (keyword t) <+: s) ∧ token <+: s := by
  induction types with
  | nil =>
      obtain ⟨token', text, same⟩ := map_eq_some.mp h
      obtain rfl := DeclaredType.message.inj same
      obtain ⟨_, -, rfl⟩ := textOf_eq_some.mp text
      exact ⟨nofun, List.take_prefix _ _⟩
  | cons t types ih =>
      rcases orElse_eq_some.mp h with h | ⟨fails, h⟩
      · obtain ⟨_, -, same⟩ := map_eq_some.mp h
        cases same
      · obtain ⟨others, isPrefix⟩ := ih h
        refine ⟨List.forall_mem_cons.mpr ⟨?_, others⟩, isPrefix⟩
        rintro ⟨u, rfl⟩
        rw [map_apply, litInToken, word_append] at fails
        cases fails

end ConcreteSyntax

/-- The name of a message is no keyword. -/
def DeclaredType.NoKeyword (type : DeclaredType) : Prop :=
  ∀ token, type = .message token → ∀ k ∈ primitiveTypes, token ≠ asciiBytes k

namespace ConcreteSyntax

theorem noKeyword_of_type {s t : Bytes} {declared : DeclaredType}
    (h : type s = some (declared, t)) : declared.NoKeyword := by
  rintro token rfl k member rfl
  obtain ⟨declared, _, found, h⟩ := bind_eq_some.mp h
  obtain ⟨_, _, -, h⟩ := bind_eq_some.mp h
  obtain ⟨rfl, -⟩ := pure_eq_some.mp h
  obtain ⟨none, isPrefix⟩ := no_keyword_of_message found
  have keywords : primitiveTypes = scalarTypes.map keyword := rfl
  rw [keywords] at member
  obtain ⟨t, inTypes, rfl⟩ := List.mem_map.mp member
  exact none t inTypes isPrefix

theorem noKeyword_of_field {s t : Bytes} {f : DeclaredField} (h : field s = some (f, t)) :
    f.type.NoKeyword := by
  obtain ⟨type, _, isType, h⟩ := bind_eq_some.mp h
  obtain ⟨_, _, -, h⟩ := bind_eq_some.mp h
  obtain ⟨_, _, -, h⟩ := bind_eq_some.mp h
  obtain ⟨_, _, -, h⟩ := bind_eq_some.mp h
  obtain ⟨rfl, -⟩ := pure_eq_some.mp h
  exact noKeyword_of_type isType

theorem noKeyword_of_messageDeclaration {s t : Bytes} {m : DeclaredMessage}
    (h : messageDeclaration s = some (m, t)) : ∀ f ∈ m.fields, f.type.NoKeyword := by
  obtain ⟨_, _, -, h⟩ := bind_eq_some.mp h
  obtain ⟨_, _, -, h⟩ := bind_eq_some.mp h
  obtain ⟨_, _, -, h⟩ := bind_eq_some.mp h
  obtain ⟨_, _, -, h⟩ := bind_eq_some.mp h
  obtain ⟨_, _, -, h⟩ := bind_eq_some.mp h
  obtain ⟨_, _, -, h⟩ := bind_eq_some.mp h
  obtain ⟨_, _, -, h⟩ := bind_eq_some.mp h
  obtain ⟨fields, _, areFields, h⟩ := bind_eq_some.mp h
  obtain ⟨_, _, -, h⟩ := bind_eq_some.mp h
  obtain ⟨rfl, -⟩ := pure_eq_some.mp h
  exact forall_of_many (fun _ _ _ => noKeyword_of_field) areFields

end ConcreteSyntax

theorem noKeyword_of_declarations {input : Bytes} {declared : DeclaredSpecification}
    (h : declarations input = some declared) :
    ∀ m ∈ declared.messages, ∀ f ∈ m.fields, f.type.NoKeyword := by
  rw [declarations] at h
  split at h
  case h_1 declared' found =>
      obtain rfl := Option.some.inj h
      obtain ⟨_, _, -, found⟩ := bind_eq_some.mp found
      obtain ⟨messages, _, areMessages, found⟩ := bind_eq_some.mp found
      obtain ⟨rfl, -⟩ := pure_eq_some.mp found
      exact forall_of_many (fun _ _ _ => ConcreteSyntax.noKeyword_of_messageDeclaration) areMessages
  case h_2 => cases h

/-- **The syntax tree is made of the declarations.** -/
theorem syntaxTree_eq_node (input : Bytes) :
    syntaxTree input = (declarations input).map DeclaredSpecification.node := by
  rw [syntaxTree, parseGrammar, declarations, ConcreteSyntax.messagesSpecification_eq, map_apply]
  rcases ConcreteSyntax.messagesSpecification _ with _ | ⟨declared, _ | ⟨c, t⟩⟩ <;> rfl

end Cluon
