import Cluon.JSON.StringToolbox
import Cluon.Library.DecimalNumber
import Cluon.Library.PEG
import Cluon.Message.MetaMessage
import Mathlib.Data.List.Sort

/-!
# Parsing message specifications

`MessageParser::parse` removes the comments of a text, cuts it at the first zero byte, and
matches it against a grammar. In the syntax tree it looks for duplicates
(`check4UniqueFieldNames`), and if there are none, it transforms the tree to a list of
`MetaMessage`s (`transform2MetaMessages`), where it counts identifiers for the fields that have
none.

Blanks are skipped behind every literal outside of a token and behind every token, also where a
token is a part of another one. So the token of a name of several parts, and that of a number of
several digits, may contain and end with blanks. Numbers are read by `std::stoi`, which throws an
exception for a number that is no `int`; the exception leaves `parse`.
-/

set_option autoImplicit false

namespace Cluon

open Library PEG

/-! ## The syntax tree -/

/-- The node `DEFAULT`, by the name of its child. -/
inductive DefaultNode where
  | floatNumber (token : Bytes)
  | bool (token : Bytes)
  | character (token : Bytes)
  | string (token : Bytes)
  deriving DecidableEq, Repr

/-- The nodes in the brackets of a field. -/
inductive FieldOption where
  | default (value : DefaultNode)
  | identifier (token : Bytes)
  deriving DecidableEq, Repr

/-- The node `FIELD`, with the tokens of its children. -/
structure FieldNode where
  primitiveType : Bytes
  name : Bytes
  options : List FieldOption
  deriving DecidableEq, Repr

/-- The node `MESSAGE_DECLARATION`. -/
structure MessageDeclaration where
  messageName : Bytes
  identifier : Bytes
  fields : List FieldNode
  deriving DecidableEq, Repr

/-- The node `MESSAGES_SPECIFICATION`. -/
structure MessagesSpecification where
  packageName : Option Bytes
  messages : List MessageDeclaration
  deriving DecidableEq, Repr

/-- `_fieldDefaultInitializerValue` for a node `DEFAULT`. -/
def DefaultNode.initializerValue : DefaultNode → Bytes
  | .string token => asciiBytes "\"" ++ token ++ asciiBytes "\""
  | .character token => asciiBytes "'" ++ token ++ asciiBytes "'"
  | .floatNumber token | .bool token => token

namespace FieldNode

/-- The tokens of the nodes `IDENTIFIER`. -/
def identifiers (f : FieldNode) : List Bytes :=
  f.options.filterMap fun
    | .identifier token => some token
    | .default _ => none

/-- The nodes `DEFAULT`. -/
def defaults (f : FieldNode) : List DefaultNode :=
  f.options.filterMap fun
    | .default value => some value
    | .identifier _ => none

/-- `_fieldDefaultInitializerValue`, which the last node `DEFAULT` determines. -/
def defaultInitializerValue (f : FieldNode) : Bytes :=
  (f.defaults.getLast?.map DefaultNode.initializerValue).getD []

end FieldNode

namespace MessageParser

/-! ## The grammar -/

/-- `%whitespace`. -/
def isWhitespace (c : Byte) : Bool := decide (c = 0x20 ∨ c = 0x09 ∨ c = 0x0D ∨ c = 0x0A)

/-- A literal outside of a token. -/
def lit (text : String) : Parser Byte Unit := do
  word (asciiBytes text)
  skipWhile isWhitespace

/-- A literal in a token. -/
def litInToken (text : String) : Parser Byte Unit := word (asciiBytes text)

/-- `< e >`. -/
def token {α : Type} (e : Parser Byte α) : Parser Byte Bytes := do
  let text ← textOf e
  skipWhile isWhitespace
  return text

/-- `codepoint_length(s, n)` of a text that begins with the given byte. -/
def codepointLength (b : Byte) : Nat :=
  if b &&& 0x80 = 0 then 1
  else if b &&& 0xE0 = 0xC0 then 2
  else if b &&& 0xF0 = 0xE0 then 3
  else if b &&& 0xF8 = 0xF0 then 4
  else 0

/-- `.` -/
def anyCharacter : Parser Byte Unit := fun s =>
  match s with
  | [] => none
  | b :: _ =>
      if 0 < codepointLength b ∧ codepointLength b ≤ s.length then
        some ((), s.drop (codepointLength b))
      else none

def isLetter (c : Byte) : Bool :=
  decide (65 ≤ c.toNat ∧ c.toNat ≤ 90 ∨ 97 ≤ c.toNat ∧ c.toNat ≤ 122)

def isNameCharacter (c : Byte) : Bool := isLetter c || isDigit c || decide (c = 0x5F)

/-- `NAME`. -/
def name : Parser Byte Bytes := token do
  let _ ← satisfy isLetter
  many (satisfy isNameCharacter)

/-- `NAME ('.' NAME)*` -/
def dottedName : Parser Byte Unit := do
  let _ ← name
  let _ ← many (do lit "."; name)
  return ()

/-- `PACKAGE_NAME`. -/
def packageName : Parser Byte Bytes := token dottedName

/-- `MESSAGE_NAME`. -/
def messageName : Parser Byte Bytes := token dottedName

/-- `MESSAGE_TYPE`. -/
def messageType : Parser Byte Bytes := token dottedName

/-- `DIGIT`. -/
def digit : Parser Byte Bytes := token (satisfy isDigit)

/-- `NATURAL_NUMBER`. -/
def naturalNumber : Parser Byte Bytes := token do
  let _ ← satisfy fun c => isDigit c && decide (c ≠ 0x30)
  many digit

/-- `FLOAT_NUMBER`. -/
def floatNumber : Parser Byte Bytes := token do
  let _ ← opt (litInToken "+" <|> litInToken "-")
  let _ ← digit
  let _ ← many digit
  opt (do lit "."; many digit)

/-- `BOOL`. -/
def bool : Parser Byte Bytes := token (litInToken "true") <|> token (litInToken "false")

/-- `STRING`. -/
def string : Parser Byte Bytes := do
  lit "\""
  let text ← token (many (do notNext (litInToken "\""); anyCharacter))
  lit "\""
  return text

/-- `CHARACTER`. -/
def character : Parser Byte Bytes := do
  lit "'"
  let text ← token (do notNext (litInToken "'"); anyCharacter)
  lit "'"
  return text

/-- `DEFAULT`. -/
def default : Parser Byte DefaultNode := do
  lit "default"
  lit "="
  (DefaultNode.floatNumber <$> floatNumber) <|> (DefaultNode.bool <$> bool) <|>
    (DefaultNode.character <$> character) <|> (DefaultNode.string <$> string)

/-- `IDENTIFIER`. -/
def identifier : Parser Byte Bytes := do
  lit "id"
  lit "="
  naturalNumber

/-- The keywords of `PRIMITIVE_TYPE`, in the order in which they are tried. -/
def primitiveTypes : List String :=
  ["bool", "float", "double", "char", "bytes", "string", "int8", "uint8", "int16", "uint16",
    "int32", "uint32", "int64", "uint64"]

/-- `PRIMITIVE_TYPE`. -/
def primitiveType : Parser Byte Bytes :=
  token (primitiveTypes.foldr (fun keyword others => litInToken keyword <|> others)
    (do let _ ← messageType))

/-- `(DEFAULT / IDENTIFIER) ','?` -/
def fieldOption : Parser Byte FieldOption := do
  let value ← (FieldOption.default <$> default) <|> (FieldOption.identifier <$> identifier)
  let _ ← opt (lit ",")
  return value

/-- `'[' (((DEFAULT / IDENTIFIER) ','?)+)? ']'` -/
def fieldOptions : Parser Byte (List FieldOption) := do
  lit "["
  let options ← many fieldOption
  lit "]"
  return options

/-- `FIELD`. -/
def field : Parser Byte FieldNode := do
  let primitiveType ← primitiveType
  let name ← name
  let options ← opt fieldOptions
  lit ";"
  return ⟨primitiveType, name, options.getD []⟩

/-- `MESSAGE_DECLARATION`. -/
def messageDeclaration : Parser Byte MessageDeclaration := do
  lit "message"
  let messageName ← messageName
  lit "["
  let identifier ← identifier
  let _ ← opt (lit ",")
  lit "]"
  lit "\x7b"
  let fields ← many field
  lit "\x7d"
  return ⟨messageName, identifier, fields⟩

/-- `PACKAGE_DECLARATION`. -/
def packageDeclaration : Parser Byte Bytes := do
  lit "package"
  let packageName ← packageName
  lit ";"
  return packageName

/-- `MESSAGES_SPECIFICATION`. -/
def messagesSpecification : Parser Byte MessagesSpecification := do
  let packageName ← opt packageDeclaration
  let messages ← many messageDeclaration
  return ⟨packageName, messages⟩

/-- `p.parse(input, ast)`: the grammar has to take the whole text, behind blanks. -/
def parseGrammar (input : Bytes) : Option MessagesSpecification :=
  match messagesSpecification (input.dropWhile isWhitespace) with
  | some (ast, []) => some ast
  | _ => none

/-! ## Comments -/

/-- What follows the first end of a comment in a text. -/
def behindComment : Bytes → Option Bytes
  | [] => none
  | c :: s => if asciiBytes "*/" <+: c :: s then some (s.drop 1) else behindComment s

/-- What `/\*([\s\S]*?)\*/|//.*` leaves of a text that it matches at its beginning. -/
def afterComment (s : Bytes) : Option Bytes :=
  if asciiBytes "/*" <+: s then behindComment (s.drop 2)
  else if asciiBytes "//" <+: s then
    some ((s.drop 2).dropWhile fun c => decide (c ≠ 0x0A ∧ c ≠ 0x0D))
  else none

/-- A text without its comments, of which there are at most `n`, or characters. -/
def removeComments : Nat → Bytes → Bytes
  | 0, s => s
  | _ + 1, [] => []
  | n + 1, c :: s =>
      match afterComment (c :: s) with
      | some t => removeComments n t
      | none => c :: removeComments n s

/-- `inputWithoutComments`. -/
def withoutComments (input : Bytes) : Bytes := removeComments input.length input

/-! ## Duplicates -/

/-- `std::stoi(s)`, which throws an exception if there is no number, or none of type `int`. -/
def stoi (s : Bytes) : Option Int :=
  let (negative, t) :=
    readSign (s.dropWhile fun c => decide (c = 0x20 ∨ 0x09 ≤ c ∧ c ≤ 0x0D))
  let digits := t.takeWhile isDigit
  let value : Int := if negative then -(ofDecimal digits : Int) else ofDecimal digits
  if digits ≠ [] ∧ -2 ^ 31 ≤ value ∧ value < 2 ^ 31 then some value else none

/-- The loops that look for an element that occurs again further on; they keep the last one. -/
def duplicated {α : Type} [DecidableEq α] : α → List α → α
  | found, [] => found
  | found, a :: as => duplicated (if a ∈ as then a else found) as

/-- The check of numerical identifiers. -/
def uniqueIdentifiers (ids : List Int) : Bool :=
  decide (-1 = duplicated (-1) (ids.insertionSort (· ≤ ·)))

/-- The check of names. -/
def uniqueNames (names : List Bytes) : Bool :=
  decide (duplicated [] (names.insertionSort (· ≤ ·)) = [])

/-- `check4UniqueFieldNames` for `MESSAGE_DECLARATION`: the result, and the identifier and the
name that are added to those of the specification. -/
def checkMessage (m : MessageDeclaration) : Option (Bool × Int × Bytes) := do
  let id ← stoi m.identifier
  let numericalFieldIdentifiers ← (m.fields.filterMap fun f => f.identifiers.head?).mapM stoi
  let retVal := uniqueIdentifiers numericalFieldIdentifiers &&
    uniqueNames (m.fields.map FieldNode.name)
  return (retVal, id, stringtoolbox.trim m.messageName)

/-- `check4UniqueFieldNames`. -/
def check4UniqueFieldNames (ast : MessagesSpecification) : Option Bool :=
  match ast with
  -- The optimizer replaces a node with one child by this child.
  | ⟨some _, []⟩ => some true
  | ⟨none, [m]⟩ => do
      let (retVal, _, _) ← checkMessage m
      return retVal
  | ⟨_, messages⟩ => do
      let checked ← messages.mapM checkMessage
      return checked.all Prod.fst && uniqueIdentifiers (checked.map fun c => c.2.1) &&
        uniqueNames (checked.map fun c => c.2.2)

/-! ## MetaMessages -/

/-- `STRING_TO_DATATYPE_MAP`. -/
def stringToDataTypeMap : List (Bytes × ScalarType) :=
  [(asciiBytes "bool", .bool), (asciiBytes "char", .char), (asciiBytes "uint8", .uint8),
    (asciiBytes "int8", .int8), (asciiBytes "uint16", .uint16), (asciiBytes "int16", .int16),
    (asciiBytes "uint32", .uint32), (asciiBytes "int32", .int32), (asciiBytes "uint64", .uint64),
    (asciiBytes "int64", .int64), (asciiBytes "float", .float), (asciiBytes "double", .double),
    (asciiBytes "string", .string), (asciiBytes "bytes", .bytes)]

/-- The data type of a field with the given token as its type. -/
def fieldDataType (token : Bytes) : MetaFieldDataType :=
  match stringToDataTypeMap.find? fun entry => entry.1 = token with
  | some entry => .scalar entry.2
  | none => .message

/-- The fields of a message, where `fieldIdentifierCounter` counts those without identifiers. -/
def createMetaFields : BitVec 32 → List FieldNode → Option (List MetaField)
  | _, [] => some []
  | fieldIdentifierCounter, f :: fs => do
      let fieldIdentifier := f.identifiers.getLast?.getD []
      let counter :=
        if fieldIdentifier = [] then fieldIdentifierCounter + 1 else fieldIdentifierCounter
      let id ← if fieldIdentifier ≠ [] then
          (stoi (stringtoolbox.trim fieldIdentifier)).map (BitVec.ofInt 32)
        else some counter
      let others ← createMetaFields counter fs
      return ⟨fieldDataType f.primitiveType, stringtoolbox.trim f.primitiveType,
        stringtoolbox.trim f.name, id, f.defaultInitializerValue⟩ :: others

/-- `createMetaMessage(node, packageName)`. -/
def createMetaMessage (packageName : Bytes) (m : MessageDeclaration) : Option MetaMessage := do
  let id ← stoi m.identifier
  let fields ← createMetaFields 0 m.fields
  return ⟨stringtoolbox.trim packageName, stringtoolbox.trim m.messageName, BitVec.ofInt 32 id,
    fields⟩

/-- `transform2MetaMessages(ast, listOfMetaMessages)`. -/
def transform2MetaMessages (ast : MessagesSpecification) : Option (List MetaMessage) :=
  match ast with
  -- The node `PACKAGE_NAME` takes the place of the whole specification and has no children.
  | ⟨some _, []⟩ => some [⟨[], [], 0, []⟩]
  | ⟨packageName, messages⟩ => messages.mapM (createMetaMessage (packageName.getD []))

/-! ## Parsing -/

inductive MessageParserErrorCodes where
  | noMessageParserError
  | syntaxError
  | duplicateIdentifiers
  deriving DecidableEq, Repr

/-- The result for a syntax tree. -/
def resultOf (ast : MessagesSpecification) :
    Option (List MetaMessage × MessageParserErrorCodes) := do
  if ← check4UniqueFieldNames ast then
    return (← transform2MetaMessages ast, .noMessageParserError)
  else
    return ([], .duplicateIdentifiers)

/-- The syntax tree of a text, if it has one. -/
def syntaxTree (input : Bytes) : Option MessagesSpecification :=
  parseGrammar ((withoutComments input).takeWhile fun c => decide (c ≠ 0))

/-- `parse(input)`: the messages and the error code, unless an exception leaves it. -/
def parse (input : Bytes) : Option (List MetaMessage × MessageParserErrorCodes) :=
  match syntaxTree input with
  | some ast => resultOf ast
  | none => some ([], .syntaxError)

end MessageParser

/-- A text that the parser accepts, with the messages that it returns for it. -/
structure AcceptedSpecification where
  text : Bytes
  messages : List MetaMessage
  accepted : MessageParser.parse text = some (messages, .noMessageParserError)

end Cluon
