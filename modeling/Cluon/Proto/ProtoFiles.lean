import Cluon.Library.ProtoFile
import Cluon.Proto.MetaMessageToProtoTransformator
import Cluon.Specification.ReadingBack

/-!
# Generated `.proto` files

`content` renders the data of a message to a part of a `.proto` file. A reader of such files finds
in them the message types that the data describe, with the same names, types, and numbers, unless a
text consists of several words, or a number is zero: then it cannot read the file
(`read_contents`).

A name may have white space at its end, which the reader does not see.
-/

set_option autoImplicit false

namespace Cluon

open Library PEG ProtoFile

namespace MetaMessageToProtoTransformator

/-! ## Rendering -/

/-- The comment in front of each message. -/
def warning : Bytes :=
  asciiBytes " THIS IS AN AUTO-GENERATED FILE. DO NOT MODIFY AS CHANGES MIGHT BE OVERWRITTEN!"

/-- The comment in the value of `%PROTO2_HEADER%`. -/
def versionNote : Bytes := asciiBytes " This line is only needed when using Google Protobuf 3."

/-- The value of `%PROTO2_HEADER%`. -/
def proto2Header : Bytes :=
  asciiBytes "\n//" ++ versionNote ++ asciiBytes "\nsyntax = \"proto2\";\n"

/-- A line of the section `%FIELDS%`. -/
def FieldEntry.line (entry : FieldEntry) : Bytes :=
  asciiBytes "    optional " ++ entry.type ++ asciiBytes " " ++ entry.name ++ asciiBytes " = " ++
    decimal entry.fieldIdentifier.toNat ++ asciiBytes ";\n"

/-- `content(withProtoHeader)` of the data: the text of `proto2FileTemplate`. The lines with the
tags of the section are not rendered, but if there are no fields, the white space in front of the
first tag is. -/
def DataToBeRendered.content (data : DataToBeRendered) (withProtoHeader : Bool) : Bytes :=
  asciiBytes "\n//\n//" ++ warning ++ asciiBytes "\n//\n\n" ++
    (if withProtoHeader then proto2Header else []) ++
    asciiBytes "\n\n// Message identifier: " ++ decimalInt data.messageIdentifier.toInt ++
    asciiBytes ".\nmessage " ++ data.message ++ asciiBytes " \x7b\n" ++
    (if data.fields = [] then asciiBytes "    \n" else data.fields.flatMap FieldEntry.line) ++
    asciiBytes "\x7d\n"

/-! ## What a reader is to find -/

def FieldEntry.definition (entry : FieldEntry) : FieldDefinition :=
  ⟨firstWord entry.type, entry.name, entry.fieldIdentifier.toNat⟩

def DataToBeRendered.definition (data : DataToBeRendered) : MessageDefinition :=
  ⟨firstWord data.message, data.fields.map FieldEntry.definition⟩

/-- A field that can be read. -/
def FieldEntry.Readable (entry : FieldEntry) : Prop :=
  OneWord entry.type ∧ entry.fieldIdentifier ≠ 0

/-- A message that can be read. -/
def DataToBeRendered.Readable (data : DataToBeRendered) : Prop :=
  (data.message ≠ [] ∧ OneWord data.message) ∧ ∀ entry ∈ data.fields, entry.Readable

instance (entry : FieldEntry) : Decidable entry.Readable := inferInstanceAs (Decidable (_ ∧ _))

instance (data : DataToBeRendered) : Decidable data.Readable := inferInstanceAs (Decidable (_ ∧ _))

/-- The texts are words. -/
structure FieldEntry.Lexical (entry : FieldEntry) : Prop where
  type : IsWords entry.type
  name : IsIdentifier entry.name

/-- The texts are words, but for a name that is missing. -/
structure DataToBeRendered.Lexical (data : DataToBeRendered) : Prop where
  message : data.message = [] ∨ IsWords data.message
  fields : ∀ entry ∈ data.fields, entry.Lexical

/-! ## Reading a field -/

/-- The text behind the name of a field. -/
def FieldEntry.behindName (entry : FieldEntry) (t : Bytes) : Bytes :=
  blank :: 0x3D :: blank :: (decimal entry.fieldIdentifier.toNat ++ (0x3B :: newline :: t))

/-- The text behind the type of a field. -/
def FieldEntry.behindType (entry : FieldEntry) (t : Bytes) : Bytes :=
  blank :: (entry.name ++ entry.behindName t)

theorem skip_line (entry : FieldEntry) (t : Bytes) :
    skip (entry.line ++ t) =
      asciiBytes "optional" ++ (blank :: (entry.type ++ entry.behindType t)) := by
  have same : entry.line ++ t = asciiBytes "    " ++ (asciiBytes "optional" ++
      (blank :: (entry.type ++ entry.behindType t))) := by
    simp only [FieldEntry.line, FieldEntry.behindType, FieldEntry.behindName, List.append_assoc]
    rfl
  rw [same]
  rfl

theorem isIdentifier_optional : IsIdentifier (asciiBytes "optional") :=
  ⟨_, _, rfl, by decide, by decide⟩

variable {entry : FieldEntry}

/-- What is read of a field behind its name. -/
theorem behindName_spec (entry : FieldEntry) (t : Bytes) :
    fieldNumber (skip (entry.behindName t)) =
      if entry.fieldIdentifier = 0 then none
      else some (entry.fieldIdentifier.toNat, skip t) := by
  have text : skip (entry.behindName t) =
      0x3D :: blank :: (decimal entry.fieldIdentifier.toNat ++ (0x3B :: newline :: t)) :=
    (skip_blank _).trans (skip_of_token rfl (by decide) _)
  rw [text, fieldNumber, bind_of_some (symbol_cons _ _), skip_blank]
  split
  · rename_i zero
    rw [zero]
    rfl
  · rename_i nonzero
    have positive : 0 < entry.fieldIdentifier.toNat :=
      Nat.pos_of_ne_zero fun zero => nonzero (BitVec.eq_of_toNat_eq zero)
    obtain ⟨c, ds, digits, here, first, others⟩ := MessageParser.decimal_eq_cons positive
    have token : skip (decimal entry.fieldIdentifier.toNat ++ (0x3B :: newline :: t)) =
        decimal entry.fieldIdentifier.toNat ++ (0x3B :: newline :: t) := by
      rw [digits]
      exact skip_part (isIdentifierPart_of_isDigit here) _
    have ends : ∀ c ∈ (0x3B :: newline :: t).head?, isDigit c = false := by
      intro c first
      obtain rfl := Option.some.inj first
      rfl
    rw [token, bind_of_some (number_append ⟨c, ds, digits, here, first, others⟩ ends),
      ofDecimal_decimal, skip_of_token rfl (by decide), bind_of_some (symbol_cons _ _),
      skip_space rfl]
    rfl

/-- The name of a field, and what is behind it. -/
theorem identifier_name (lexical : entry.Lexical) (t : Bytes) :
    identifier (skip (entry.behindType t)) = some (entry.name, skip (entry.behindName t)) := by
  rw [FieldEntry.behindType, skip_blank, skip_words lexical.name.isWords]
  exact identifier_append lexical.name (ends_blank _)

/-- The type of a field, and what is behind it. -/
theorem identifier_type (lexical : entry.Lexical) (t : Bytes) :
    identifier (skip (blank :: (entry.type ++ entry.behindType t))) =
      some (firstWord entry.type,
        skip (entry.type.dropWhile isIdentifierPart ++ entry.behindType t)) := by
  rw [skip_blank, skip_words lexical.type]
  exact identifier_words lexical.type (ends_blank _)

/-- The beginning of a field is read. -/
theorem field_line (lexical : entry.Lexical) (t : Bytes) :
    field (skip (entry.line ++ t)) = (do
      let name ← identifier
      let number ← fieldNumber
      return ⟨firstWord entry.type, name, number⟩ : Parser Byte FieldDefinition)
        (skip (entry.type.dropWhile isIdentifierPart ++ entry.behindType t)) := by
  rw [skip_line, field, bind_of_some (keyword_append isIdentifier_optional (ends_blank _)),
    bind_of_some (identifier_type lexical t)]

/-- **A field that can be read** is read. -/
theorem field_line_of_readable (lexical : entry.Lexical) (readable : entry.Readable) (t : Bytes) :
    field (skip (entry.line ++ t)) = some (entry.definition, skip t) := by
  obtain ⟨one, nonzero⟩ := readable
  have number := behindName_spec entry t
  rw [if_neg nonzero] at number
  rw [field_line lexical, skip_spaces one, bind_of_some (identifier_name lexical t),
    bind_of_some number]
  rfl

/-- Behind the first word of some words, a name comes at last. -/
theorem parts_behind {w name : Bytes} (words : IsWords w) (isName : IsIdentifier name) :
    (∀ c ∈ w.dropWhile isIdentifierPart ++ blank :: name, isIdentifierPart c ∨ isSpace c) ∧
      ¬ ∀ c ∈ w.dropWhile isIdentifierPart ++ blank :: name, isSpace c := by
  constructor
  · intro c mem
    rcases List.mem_append.mp mem with mem | mem
    · exact words.all c ((List.dropWhile_suffix isIdentifierPart).subset mem)
    · rcases List.mem_cons.mp mem with rfl | mem
      · exact .inr rfl
      · exact .inl (isName.all c mem)
  · intro spaces
    obtain ⟨c, v, rfl, start, -⟩ := isName
    have space := spaces c (List.mem_append_right _ (List.mem_cons_of_mem _ List.mem_cons_self))
    rw [(isSpace_of_isIdentifierPart (isIdentifierPart_of_start start)).1] at space
    cases space

/-- **A field that cannot be read**: behind the first word of the type there is another one in place
of the name, and no number behind that; or the number is zero. -/
theorem field_line_of_not_readable (lexical : entry.Lexical) (not : ¬ entry.Readable) (t : Bytes) :
    field (skip (entry.line ++ t)) = none := by
  rw [field_line lexical]
  by_cases one : OneWord entry.type
  · have zero : entry.fieldIdentifier = 0 := not_not.mp fun nonzero => not ⟨one, nonzero⟩
    have number := behindName_spec entry t
    rw [if_pos zero] at number
    rw [skip_spaces one, bind_of_some (identifier_name lexical t), bind_of_none number]
  · obtain ⟨c, u, part, parts, same⟩ := lexical.type.exists_skip_eq one
    rw [same]
    by_cases start : isIdentifierStart c
    · have words : IsWords (c :: u) := ⟨c, u, rfl, start, parts⟩
      obtain ⟨parts, word⟩ := parts_behind words lexical.name
      obtain ⟨d, v, part', -, same'⟩ := exists_skip_eq parts word
      have second : identifier (c :: (u ++ entry.behindType t)) =
          some (firstWord (c :: u), d :: (v ++ entry.behindName t)) := by
        rw [← same' (entry.behindName t), List.append_assoc]
        exact identifier_words words (ends_blank _)
      have fails : fieldNumber (d :: (v ++ entry.behindName t)) = none := by
        apply bind_of_none
        apply symbol_of_ne
        rintro rfl
        cases part'
      exact (bind_of_some second).trans (bind_of_none fails)
    · have fails : identifier (c :: (u ++ entry.behindType t)) = none := if_neg start
      exact bind_of_none fails

/-! ## Reading a message -/

variable {data : DataToBeRendered}

/-- The text behind the name of a message. -/
def DataToBeRendered.behindName (data : DataToBeRendered) (t : Bytes) : Bytes :=
  blank :: 0x7B :: newline ::
    ((if data.fields = [] then asciiBytes "    \n" else data.fields.flatMap FieldEntry.line) ++
      (0x7D :: newline :: t))

/-- The text from the comment with the message identifier on. -/
def DataToBeRendered.behindHeader (data : DataToBeRendered) (t : Bytes) : Bytes :=
  newline :: newline :: (slash :: slash :: (asciiBytes " Message identifier: " ++
    decimalInt data.messageIdentifier.toInt ++ asciiBytes ".") ++
    newline :: (asciiBytes "message" ++ (blank :: (data.message ++ data.behindName t))))

theorem line_asciiBytes {cs : List Char}
    (line : cs.all fun c => decide (BitVec.ofNat 8 c.toNat ≠ newline)) :
    ∀ c ∈ asciiBytes (String.ofList cs), c ≠ newline := by
  rw [asciiBytes_ofList]
  intro c mem
  obtain ⟨c', mem', rfl⟩ := List.mem_map.mp mem
  exact of_decide_eq_true (List.all_eq_true.mp line c' mem')

theorem line_decimalInt (v : Int) : ∀ c ∈ decimalInt v, c ≠ newline := by
  have digits (n : Nat) (c : Byte) (mem : c ∈ decimal n) : c ≠ newline := by
    rintro rfl
    cases all_isDigit_decimal n _ mem
  rw [decimalInt]
  split
  · exact List.forall_mem_cons.mpr ⟨by decide, digits _⟩
  · exact digits _

/-- The warning in front of each message is skipped. -/
theorem skip_warning (s : Bytes) :
    skip (asciiBytes "\n//\n//" ++ (warning ++ (asciiBytes "\n//\n\n" ++ s))) = skip s := by
  calc
    _ = skip (slash :: slash :: [] ++
          newline :: (slash :: slash :: warning ++ newline :: (asciiBytes "//\n\n" ++ s))) := rfl
    _ = skip (slash :: slash :: warning ++ newline :: (asciiBytes "//\n\n" ++ s)) :=
        skip_comment (List.forall_mem_nil _) _
    _ = skip (slash :: slash :: [] ++ newline :: newline :: s) :=
        skip_comment (line_asciiBytes rfl) _
    _ = skip s := skip_comment (List.forall_mem_nil _) _

theorem isIdentifier_syntax : IsIdentifier (asciiBytes "syntax") :=
  ⟨_, _, rfl, by decide, by decide⟩

theorem isIdentifier_message : IsIdentifier (asciiBytes "message") :=
  ⟨_, _, rfl, by decide, by decide⟩

/-- The version of the language is read. -/
theorem version_proto2Header (s : Bytes) :
    version (skip (proto2Header ++ s)) = some ((), skip s) := by
  have text : skip (proto2Header ++ s) = asciiBytes "syntax" ++
      (blank :: 0x3D :: blank :: (asciiBytes "\"proto2\"" ++ (0x3B :: newline :: s))) := by
    calc
      _ = skip (slash :: slash :: versionNote ++ newline :: (asciiBytes "syntax" ++
          (blank :: 0x3D :: blank :: (asciiBytes "\"proto2\"" ++ (0x3B :: newline :: s))))) := by
        simp only [proto2Header, List.append_assoc]
        rfl
      _ = _ := skip_comment (line_asciiBytes rfl) _
  have equals : skip (0x3D :: blank :: (asciiBytes "\"proto2\"" ++ (0x3B :: newline :: s))) =
      0x3D :: blank :: (asciiBytes "\"proto2\"" ++ (0x3B :: newline :: s)) := rfl
  have literal : literal (asciiBytes "\"proto2\"")
      (asciiBytes "\"proto2\"" ++ (0x3B :: newline :: s)) =
        some ((), skip (0x3B :: newline :: s)) := bind_of_some (word_append _ _)
  rw [text, version, bind_of_some (keyword_append isIdentifier_syntax (ends_blank _)), skip_blank,
    equals, bind_of_some (symbol_cons _ _), skip_blank]
  exact (bind_of_some literal).trans (symbol_cons _ _)

theorem skip_behindHeader (data : DataToBeRendered) (t : Bytes) :
    skip (data.behindHeader t) =
      asciiBytes "message" ++ (blank :: (data.message ++ data.behindName t)) := by
  have line : ∀ c ∈ asciiBytes " Message identifier: " ++
      decimalInt data.messageIdentifier.toInt ++ asciiBytes ".", c ≠ newline :=
    List.forall_mem_append.mpr ⟨List.forall_mem_append.mpr
      ⟨line_asciiBytes rfl, line_decimalInt _⟩, line_asciiBytes rfl⟩
  rw [DataToBeRendered.behindHeader, skip_space rfl, skip_space rfl, skip_comment line]
  rfl

theorem skip_content (data : DataToBeRendered) (withProtoHeader : Bool) (t : Bytes) :
    skip (data.content withProtoHeader ++ t) =
      skip ((if withProtoHeader then proto2Header else []) ++ data.behindHeader t) := by
  have same : data.content withProtoHeader ++ t = asciiBytes "\n//\n//" ++ (warning ++
      (asciiBytes "\n//\n\n" ++ ((if withProtoHeader then proto2Header else []) ++
        data.behindHeader t))) := by
    simp only [DataToBeRendered.content, DataToBeRendered.behindHeader,
      DataToBeRendered.behindName, List.cons_append, List.append_assoc]
    rfl
  rw [same, skip_warning]

/-- White space in place of the fields is skipped. -/
theorem skip_fields (data : DataToBeRendered) (t : Bytes) :
    skip ((if data.fields = [] then asciiBytes "    \n" else data.fields.flatMap FieldEntry.line) ++
      t) = skip (data.fields.flatMap FieldEntry.line ++ t) := by
  split
  · rename_i empty
    rw [empty]
    rfl
  · rfl

theorem skip_behindName (data : DataToBeRendered) (t : Bytes) :
    skip (data.behindName t) = 0x7B :: newline ::
      ((if data.fields = [] then asciiBytes "    \n" else data.fields.flatMap FieldEntry.line) ++
        (0x7D :: newline :: t)) :=
  (skip_blank _).trans (skip_of_token rfl (by decide) _)

theorem skip_brace (t : Bytes) : skip (0x7D :: newline :: t) = 0x7D :: newline :: t :=
  skip_of_token rfl (by decide) _

/-- There is no field at the end of a message. -/
theorem field_brace (t : Bytes) : field (skip (0x7D :: newline :: t)) = none := by
  rw [skip_brace]
  rfl

/-- The name of a message, and what is behind it. -/
theorem message_behindHeader (words : IsWords data.message) (t : Bytes) :
    message (skip (data.behindHeader t)) = (do
      symbol 0x7B
      let fields ← many field
      symbol 0x7D
      return ⟨firstWord data.message, fields⟩ : Parser Byte MessageDefinition)
        (skip (data.message.dropWhile isIdentifierPart ++ data.behindName t)) := by
  have name : identifier (skip (blank :: (data.message ++ data.behindName t))) =
      some (firstWord data.message,
        skip (data.message.dropWhile isIdentifierPart ++ data.behindName t)) := by
    rw [skip_blank, skip_words words]
    exact identifier_words words (ends_blank _)
  rw [skip_behindHeader, message, bind_of_some (keyword_append isIdentifier_message (ends_blank _)),
    bind_of_some name]

/-- **A message that can be read** is read. -/
theorem message_of_readable (lexical : data.Lexical) (readable : data.Readable) (t : Bytes) :
    message (skip (data.behindHeader t)) = some (data.definition, skip t) := by
  obtain ⟨⟨named, one⟩, fields⟩ := readable
  have words := lexical.message.resolve_left named
  have each (entry : FieldEntry) (mem : entry ∈ data.fields) (t : Bytes) :
      field (skip (entry.line ++ t)) = some (entry.definition, skip t) :=
    field_line_of_readable (lexical.fields entry mem) (fields entry mem) t
  rw [message_behindHeader words, skip_spaces one, skip_behindName,
    bind_of_some (symbol_cons _ _), skip_space rfl, skip_fields,
    bind_of_some (many_texts skip consumes_field each (field_brace t)), skip_brace,
    bind_of_some (symbol_cons _ _), skip_space rfl]
  rfl

/-- There has to be a name in front of the brace. -/
theorem message_of_no_name (noName : data.message = []) (t : Bytes) :
    message (skip (data.behindHeader t)) = none := by
  have fails : identifier (skip (blank :: (data.message ++ data.behindName t))) = none := by
    rw [skip_blank, noName, List.nil_append, skip_behindName]
    rfl
  rw [skip_behindHeader, message, bind_of_some (keyword_append isIdentifier_message (ends_blank _)),
    bind_of_none fails]

/-- The reader stops at a field that it cannot read. -/
theorem message_of_field (words : IsWords data.message) (one : OneWord data.message)
    (lexical : ∀ entry ∈ data.fields, entry.Lexical)
    (not : ¬ ∀ entry ∈ data.fields, entry.Readable) (t : Bytes) :
    message (skip (data.behindHeader t)) = none := by
  obtain ⟨fs, entry, t', found⟩ := many_texts_of_not skip consumes_field
    (fun entry mem readable t => field_line_of_readable (lexical entry mem) readable t)
    (fun entry mem unreadable t => field_line_of_not_readable (lexical entry mem) unreadable t)
    not (0x7D :: newline :: t)
  rw [skip_line] at found
  have noBrace : symbol 0x7D
      (asciiBytes "optional" ++ (blank :: (entry.type ++ entry.behindType t'))) = none :=
    symbol_of_ne (by decide) _
  rw [message_behindHeader words, skip_spaces one, skip_behindName,
    bind_of_some (symbol_cons _ _), skip_space rfl, skip_fields, bind_of_some found,
    bind_of_none noBrace]

/-- **A message that cannot be read**: it has no name, or behind the first word of its name there is
another one in place of the brace, or one of its fields cannot be read. -/
theorem message_of_not_readable (lexical : data.Lexical) (not : ¬ data.Readable) (t : Bytes) :
    message (skip (data.behindHeader t)) = none := by
  rcases lexical.message with noName | words
  · exact message_of_no_name noName t
  · by_cases one : OneWord data.message
    · apply message_of_field words one lexical.fields
      intro fields
      obtain ⟨c, v, some, -, -⟩ := words
      exact not ⟨⟨some ▸ List.cons_ne_nil c v, one⟩, fields⟩
    · obtain ⟨c, u, part, -, same⟩ := words.exists_skip_eq one
      rw [message_behindHeader words, same]
      apply bind_of_none
      apply symbol_of_ne
      rintro rfl
      cases part

/-! ## Reading a file -/

/-- The file with the messages one after the other: the header stands in front of the first one
only. -/
def contents : List DataToBeRendered → Bytes
  | [] => []
  | data :: datas =>
      data.content true ++ (newline :: datas.flatMap fun data => data.content false ++ [newline])

/-- Where the reader is when it has read the header. -/
theorem skip_messages (data : DataToBeRendered) (datas : List DataToBeRendered) :
    skip (data.behindHeader
        (newline :: datas.flatMap fun data => data.content false ++ [newline])) =
      skip (((data :: datas).flatMap fun data => data.content false ++ [newline]) ++ []) := by
  rw [List.append_nil, List.flatMap_cons, List.append_assoc, skip_content]
  rfl

theorem message_content (data : DataToBeRendered) (t : Bytes) :
    skip (data.content false ++ [newline] ++ t) = skip (data.behindHeader (newline :: t)) := by
  rw [List.append_assoc, skip_content]
  rfl

/-- A file without messages has no header. -/
theorem read_nil : read [] = some [] := rfl

/-- A file is read as its messages. -/
theorem read_cons {data : DataToBeRendered} {datas : List DataToBeRendered}
    {messages : List MessageDefinition} {rest : Bytes}
    (found : many message
      (skip (((data :: datas).flatMap fun data => data.content false ++ [newline]) ++ [])) =
        some (messages, rest)) :
    read (contents (data :: datas)) = if rest = [] then some messages else none := by
  rw [ProtoFile.read, contents, skip_content, if_pos rfl,
    bind_of_some (opt_of_some (version_proto2Header _)), skip_messages, found]
  cases rest with
  | nil => rfl
  | cons c rest => rfl

/-- **What a reader finds.** A file that was rendered from words can be read exactly if each message
in it can be read. Then the reader finds the message types that the data describe. -/
theorem read_contents {datas : List DataToBeRendered} (lexical : ∀ data ∈ datas, data.Lexical) :
    read (contents datas) =
      if ∀ data ∈ datas, data.Readable then some (datas.map DataToBeRendered.definition)
      else none := by
  cases datas with
  | nil => exact read_nil
  | cons data datas =>
      have reads (d : DataToBeRendered) (mem : d ∈ data :: datas) (readable : d.Readable)
          (t : Bytes) :
          message (skip (d.content false ++ [newline] ++ t)) = some (d.definition, skip t) := by
        rw [message_content, message_of_readable (lexical d mem) readable, skip_space rfl]
      have fails (d : DataToBeRendered) (mem : d ∈ data :: datas) (not : ¬ d.Readable)
          (t : Bytes) : message (skip (d.content false ++ [newline] ++ t)) = none := by
        rw [message_content, message_of_not_readable (lexical d mem) not]
      split_ifs with readable
      · have found := many_texts skip (t := []) consumes_message
          (fun d mem => reads d mem (readable d mem)) rfl
        exact (read_cons found).trans (if_pos rfl)
      · obtain ⟨ms, d, t', found⟩ := many_texts_of_not skip consumes_message reads fails
          readable []
        rw [message_content, skip_behindHeader] at found
        exact (read_cons found).trans (if_neg (List.cons_ne_nil _ _))

end MetaMessageToProtoTransformator

end Cluon
