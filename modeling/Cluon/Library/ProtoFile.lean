import Cluon.Library.DecimalNumber
import Cluon.Library.PEG
import Cluon.Library.Protobuf

/-!
# Protobuf source files

The part of the language of `.proto` files that consists of message types with optional fields.
Between the tokens of a file there may be white space and comments, which end with their line. A
file is in version 2 of the language, and may say so.

A file that has this syntax (`read`) is one of the language if its messages are legal (`IsLegal`):
names and numbers are not used twice, numbers are neither too great nor reserved, and the types of
fields are defined. The texts of these types are given as they are; what they stand for is left to
the schema (`MessageDefinition.message`).
-/

set_option autoImplicit false

namespace Cluon.Library.ProtoFile

open PEG

/-- A field as it is written. -/
structure FieldDefinition where
  type : Bytes
  name : Bytes
  number : Nat
  deriving DecidableEq, Repr

/-- A message type as it is written. -/
structure MessageDefinition where
  name : Bytes
  fields : List FieldDefinition
  deriving DecidableEq, Repr

/-- The message type of a schema. -/
def MessageDefinition.message (m : MessageDefinition) : Protobuf.Message :=
  ⟨m.name, m.fields.map fun f => ⟨f.number, Protobuf.FieldType.ofText f.type⟩⟩

/-! ## Tokens -/

def isSpace (c : Byte) : Bool := decide (c = 0x20 ∨ 9 ≤ c.toNat ∧ c.toNat ≤ 13)

def blank : Byte := 0x20

def newline : Byte := 0x0A

def slash : Byte := 0x2F

/-- What an identifier begins with. -/
def isIdentifierStart (c : Byte) : Bool :=
  decide (65 ≤ c.toNat ∧ c.toNat ≤ 90 ∨ 97 ≤ c.toNat ∧ c.toNat ≤ 122 ∨ c = 0x5F)

/-- What an identifier consists of. -/
def isIdentifierPart (c : Byte) : Bool := isIdentifierStart c || isDigit c

/-- What follows white space and comments; the text may begin in the middle of a comment. -/
def skipFrom : Bool → Bytes → Bytes
  | _, [] => []
  | true, c :: s => skipFrom (decide (c ≠ newline)) s
  | false, c :: s =>
      if isSpace c then skipFrom false s
      else if c = slash ∧ s.head? = some slash then skipFrom true s
      else c :: s

/-- What follows white space and comments. -/
def skip (s : Bytes) : Bytes := skipFrom false s

def identifier : Parser Byte Bytes
  | [] => none
  | c :: s =>
      if isIdentifierStart c then
        some (c :: s.takeWhile isIdentifierPart, skip (s.dropWhile isIdentifierPart))
      else none

/-- An identifier that is expected. -/
def keyword (text : Bytes) : Parser Byte Unit := fun s =>
  match identifier s with
  | some (w, t) => if w = text then some ((), t) else none
  | none => none

def symbol (c : Byte) : Parser Byte Unit
  | [] => none
  | d :: s => if d = c then some ((), skip s) else none

/-- A number that is not zero, in decimal. -/
def number : Parser Byte Nat
  | [] => none
  | c :: s =>
      if isDigit c ∧ c ≠ 0x30 then
        some (ofDecimal (c :: s.takeWhile isDigit), skip (s.dropWhile isDigit))
      else none

/-- A string literal that is expected. -/
def literal (text : Bytes) : Parser Byte Unit := do
  word text
  fun s => some ((), skip s)

/-! ## Files -/

/-- `syntax = "proto2";` -/
def version : Parser Byte Unit := do
  keyword (asciiBytes "syntax")
  symbol 0x3D
  literal (asciiBytes "\"proto2\"")
  symbol 0x3B

/-- The number of a field, up to the end of its definition. -/
def fieldNumber : Parser Byte Nat := do
  symbol 0x3D
  let number ← number
  symbol 0x3B
  return number

def field : Parser Byte FieldDefinition := do
  keyword (asciiBytes "optional")
  let type ← identifier
  let name ← identifier
  let number ← fieldNumber
  return ⟨type, name, number⟩

def message : Parser Byte MessageDefinition := do
  keyword (asciiBytes "message")
  let name ← identifier
  symbol 0x7B
  let fields ← many field
  symbol 0x7D
  return ⟨name, fields⟩

/-- The message types of a file. -/
def read (file : Bytes) : Option (List MessageDefinition) :=
  match (do let _ ← opt version; many message : Parser Byte (List MessageDefinition)) (skip file) with
  | some (messages, []) => some messages
  | _ => none

/-! ## Legal files -/

/-- The numbers that fields may have; some are reserved for implementations. -/
def IsFieldNumber (number : Nat) : Prop :=
  0 < number ∧ number < 2 ^ 29 ∧ ¬ (19000 ≤ number ∧ number < 20000)

instance (number : Nat) : Decidable (IsFieldNumber number) :=
  inferInstanceAs (Decidable (_ ∧ _ ∧ _))

/-- A type of a field, where message types of the given names are defined. A group is not written as
the type of a field. -/
def IsType (names : List Bytes) (type : Bytes) : Prop :=
  type ≠ asciiBytes "group" ∧ (Protobuf.IsKeyword type ∨ type ∈ names)

instance (names : List Bytes) (type : Bytes) : Decidable (IsType names type) :=
  inferInstanceAs (Decidable (_ ∧ (_ ∨ _)))

/-- The names and the numbers of the fields differ, and these have numbers and types. -/
def MessageDefinition.IsLegal (names : List Bytes) (m : MessageDefinition) : Prop :=
  (m.fields.map FieldDefinition.name).Nodup ∧ (m.fields.map FieldDefinition.number).Nodup ∧
    ∀ f ∈ m.fields, IsFieldNumber f.number ∧ IsType names f.type

instance (names : List Bytes) (m : MessageDefinition) : Decidable (m.IsLegal names) :=
  inferInstanceAs (Decidable (_ ∧ _ ∧ _))

/-- The names of the message types differ, and all of them are legal. -/
def IsLegal (messages : List MessageDefinition) : Prop :=
  (messages.map MessageDefinition.name).Nodup ∧
    ∀ m ∈ messages, m.IsLegal (messages.map MessageDefinition.name)

instance (messages : List MessageDefinition) : Decidable (IsLegal messages) :=
  inferInstanceAs (Decidable (_ ∧ _))

/-- The message types of a file that is one of the language. -/
def compile (file : Bytes) : Option (List MessageDefinition) :=
  (read file).filter fun messages => decide (IsLegal messages)

/-- A legal file has a valid schema. -/
theorem IsLegal.valid {messages : List MessageDefinition} (legal : IsLegal messages) :
    Protobuf.Schema.Valid (messages.map MessageDefinition.message) := by
  refine ⟨?_, ?_⟩
  · rw [List.map_map]
    exact legal.1
  · refine List.forall_mem_map.mpr fun m member => ?_
    have numbers := (legal.2 m member).2.1
    rw [MessageDefinition.message, List.map_map]
    exact numbers

/-! ## What is skipped -/

theorem skip_space {c : Byte} (space : isSpace c) (s : Bytes) : skip (c :: s) = skip s :=
  if_pos space

theorem skip_blank (s : Bytes) : skip (blank :: s) = skip s := skip_space rfl s

theorem skip_spaces {w : Bytes} (spaces : ∀ c ∈ w, isSpace c) (s : Bytes) :
    skip (w ++ s) = skip s := by
  induction w with
  | nil => rfl
  | cons c w ih =>
      obtain ⟨first, others⟩ := List.forall_mem_cons.mp spaces
      rw [List.cons_append, skip_space first, ih others]

/-- A comment is skipped with its line. -/
theorem skip_comment {text : Bytes} (line : ∀ c ∈ text, c ≠ newline) (s : Bytes) :
    skip (slash :: slash :: text ++ newline :: s) = skip s := by
  have inside : ∀ text : Bytes, (∀ c ∈ text, c ≠ newline) →
      skipFrom true (text ++ newline :: s) = skip s := by
    intro text line
    induction text with
    | nil => rfl
    | cons c text ih =>
        obtain ⟨other, others⟩ := List.forall_mem_cons.mp line
        rw [List.cons_append, skipFrom, decide_eq_true other, ih others]
  exact inside (slash :: text) (List.forall_mem_cons.mpr ⟨by decide, line⟩)

/-- Nothing else is skipped. -/
theorem skip_of_token {c : Byte} (token : isSpace c = false) (noComment : c ≠ slash) (s : Bytes) :
    skip (c :: s) = c :: s := by
  rw [skip, skipFrom, token, if_neg Bool.false_ne_true, if_neg fun h => noComment h.1]

theorem length_skip_le (s : Bytes) : (skip s).length ≤ s.length := by
  have each : ∀ (s : Bytes) (inComment : Bool), (skipFrom inComment s).length ≤ s.length := by
    intro s
    induction s with
    | nil => intro _; exact le_rfl
    | cons c s ih =>
        intro inComment
        cases inComment with
        | true => exact (ih _).trans (Nat.le_succ _)
        | false =>
            rw [skipFrom]
            split_ifs
            · exact (ih false).trans (Nat.le_succ _)
            · exact (ih true).trans (Nat.le_succ _)
            · exact le_rfl
  exact each s false

/-! ## What tokens take -/

theorem consumes_identifier : Consumes identifier := by
  intro s w t h
  cases s with
  | nil => cases h
  | cons c s =>
      rw [identifier] at h
      split at h
      · obtain ⟨-, rfl⟩ := Prod.mk.inj (Option.some.inj h)
        exact Nat.lt_succ_of_le
          ((length_skip_le _).trans (List.dropWhile_suffix isIdentifierPart).length_le)
      · cases h

theorem consumes_keyword (text : Bytes) : Consumes (keyword text) := by
  intro s a t h
  rw [keyword] at h
  split at h
  · rename_i found
    split at h
    · obtain ⟨-, rfl⟩ := Prod.mk.inj (Option.some.inj h)
      exact consumes_identifier _ _ _ found
    · cases h
  · cases h

theorem neverGrows_symbol (c : Byte) : NeverGrows (symbol c) := by
  intro s a t h
  cases s with
  | nil => cases h
  | cons d s =>
      rw [symbol] at h
      split at h
      · obtain ⟨-, rfl⟩ := Prod.mk.inj (Option.some.inj h)
        exact (length_skip_le s).trans (Nat.le_succ _)
      · cases h

theorem neverGrows_number : NeverGrows number := by
  intro s v t h
  cases s with
  | nil => cases h
  | cons c s =>
      rw [number] at h
      split at h
      · obtain ⟨-, rfl⟩ := Prod.mk.inj (Option.some.inj h)
        exact (length_skip_le _).trans
          ((List.dropWhile_suffix isDigit).length_le.trans (Nat.le_succ _))
      · cases h

theorem neverGrows_fieldNumber : NeverGrows fieldNumber :=
  (neverGrows_symbol _).bind fun _ => neverGrows_number.bind fun _ =>
    (neverGrows_symbol _).bind fun _ => .pure _

theorem consumes_field : Consumes field :=
  (consumes_keyword _).bind fun _ => consumes_identifier.neverGrows.bind fun _ =>
    consumes_identifier.neverGrows.bind fun _ => neverGrows_fieldNumber.bind fun _ => .pure _

theorem consumes_message : Consumes message :=
  (consumes_keyword _).bind fun _ => consumes_identifier.neverGrows.bind fun _ =>
    (neverGrows_symbol _).bind fun _ => consumes_field.neverGrows.many.bind fun _ =>
    (neverGrows_symbol _).bind fun _ => .pure _

/-! ## Words -/

/-- The text of an identifier. -/
def IsIdentifier (w : Bytes) : Prop :=
  ∃ c v, w = c :: v ∧ isIdentifierStart c ∧ ∀ d ∈ v, isIdentifierPart d

/-- An identifier, or several ones with white space between and behind them. -/
def IsWords (w : Bytes) : Prop :=
  ∃ c v, w = c :: v ∧ isIdentifierStart c ∧ ∀ d ∈ v, isIdentifierPart d ∨ isSpace d

def firstWord (w : Bytes) : Bytes := w.takeWhile isIdentifierPart

/-- There is nothing but white space behind the first word. -/
def OneWord (w : Bytes) : Prop := ∀ c ∈ w.dropWhile isIdentifierPart, isSpace c

instance (w : Bytes) : Decidable (OneWord w) :=
  inferInstanceAs (Decidable (∀ c ∈ w.dropWhile isIdentifierPart, isSpace c))

theorem isIdentifierPart_of_start {c : Byte} (start : isIdentifierStart c) :
    isIdentifierPart c := by
  rw [isIdentifierPart, start, Bool.true_or]

theorem isSpace_of_isIdentifierPart {c : Byte} (part : isIdentifierPart c) :
    isSpace c = false ∧ c ≠ slash := by
  revert c
  decide

theorem skip_part {c : Byte} (part : isIdentifierPart c) (s : Bytes) : skip (c :: s) = c :: s := by
  obtain ⟨token, noComment⟩ := isSpace_of_isIdentifierPart part
  exact skip_of_token token noComment s

theorem isIdentifierPart_of_isDigit {c : Byte} (digit : isDigit c) : isIdentifierPart c := by
  rw [isIdentifierPart, digit, Bool.or_true]

theorem IsIdentifier.isWords {w : Bytes} (h : IsIdentifier w) : IsWords w := by
  obtain ⟨c, v, same, start, parts⟩ := h
  exact ⟨c, v, same, start, fun d mem => .inl (parts d mem)⟩

theorem IsWords.all {w : Bytes} (h : IsWords w) : ∀ c ∈ w, isIdentifierPart c ∨ isSpace c := by
  obtain ⟨c, v, rfl, start, parts⟩ := h
  exact List.forall_mem_cons.mpr ⟨.inl (isIdentifierPart_of_start start), parts⟩

theorem IsIdentifier.all {w : Bytes} (h : IsIdentifier w) : ∀ c ∈ w, isIdentifierPart c := by
  obtain ⟨c, v, rfl, start, parts⟩ := h
  exact List.forall_mem_cons.mpr ⟨isIdentifierPart_of_start start, parts⟩

theorem IsIdentifier.oneWord {w : Bytes} (h : IsIdentifier w) : OneWord w := by
  rw [OneWord, List.dropWhile_eq_nil_iff.mpr h.all]
  exact List.forall_mem_nil _

theorem IsIdentifier.firstWord_eq {w : Bytes} (h : IsIdentifier w) : firstWord w = w :=
  List.takeWhile_eq_self_iff.mpr h.all

/-- Where a text of a class ends does not depend on what follows it. -/
theorem takeWhile_dropWhile_append {p : Byte → Bool} {t : Bytes}
    (ends : ∀ c ∈ t.head?, p c = false) (w : Bytes) :
    (w ++ t).takeWhile p = w.takeWhile p ∧ (w ++ t).dropWhile p = w.dropWhile p ++ t := by
  induction w with
  | nil =>
      cases t with
      | nil => exact ⟨rfl, rfl⟩
      | cons c t =>
          have other : ¬ p c := by rw [ends c rfl]; exact Bool.false_ne_true
          exact ⟨List.takeWhile_cons_of_neg other, List.dropWhile_cons_of_neg other⟩
  | cons c w ih =>
      by_cases here : p c
      · rw [List.cons_append, List.takeWhile_cons_of_pos here, List.takeWhile_cons_of_pos here,
          List.dropWhile_cons_of_pos here, List.dropWhile_cons_of_pos here, ih.1, ih.2]
        exact ⟨rfl, rfl⟩
      · rw [List.cons_append, List.takeWhile_cons_of_neg here, List.takeWhile_cons_of_neg here,
          List.dropWhile_cons_of_neg here, List.dropWhile_cons_of_neg here]
        exact ⟨rfl, rfl⟩

/-- **The first word is read as an identifier.** -/
theorem identifier_words {w : Bytes} (words : IsWords w) {t : Bytes}
    (ends : ∀ c ∈ t.head?, isIdentifierPart c = false) :
    identifier (w ++ t) = some (firstWord w, skip (w.dropWhile isIdentifierPart ++ t)) := by
  obtain ⟨c, v, rfl, start, -⟩ := words
  have part := isIdentifierPart_of_start start
  obtain ⟨taken, dropped⟩ := takeWhile_dropWhile_append ends v
  rw [List.cons_append, identifier, if_pos start, taken, dropped, firstWord,
    List.takeWhile_cons_of_pos part, List.dropWhile_cons_of_pos part]

theorem identifier_oneWord {w : Bytes} (words : IsWords w) (one : OneWord w) {t : Bytes}
    (ends : ∀ c ∈ t.head?, isIdentifierPart c = false) :
    identifier (w ++ t) = some (firstWord w, skip t) := by
  rw [identifier_words words ends, skip_spaces one]

theorem identifier_append {w : Bytes} (h : IsIdentifier w) {t : Bytes}
    (ends : ∀ c ∈ t.head?, isIdentifierPart c = false) :
    identifier (w ++ t) = some (w, skip t) := by
  rw [identifier_oneWord h.isWords h.oneWord ends, h.firstWord_eq]

theorem keyword_append {w : Bytes} (h : IsIdentifier w) {t : Bytes}
    (ends : ∀ c ∈ t.head?, isIdentifierPart c = false) :
    keyword w (w ++ t) = some ((), skip t) := by
  rw [keyword, identifier_append h ends]
  exact if_pos rfl

/-- A blank ends an identifier. -/
theorem ends_blank (t : Bytes) : ∀ c ∈ (blank :: t).head?, isIdentifierPart c = false := by
  intro c first
  obtain rfl := Option.some.inj first
  rfl

/-- Words are not skipped. -/
theorem skip_words {w : Bytes} (words : IsWords w) (t : Bytes) : skip (w ++ t) = w ++ t := by
  obtain ⟨c, v, rfl, start, -⟩ := words
  exact skip_part (isIdentifierPart_of_start start) (v ++ t)

theorem symbol_cons (c : Byte) (s : Bytes) : symbol c (c :: s) = some ((), skip s) := if_pos rfl

theorem symbol_of_ne {c d : Byte} (h : d ≠ c) (s : Bytes) : symbol c (d :: s) = none := if_neg h

theorem number_append {w : Bytes} (digits : ∃ c v, w = c :: v ∧ isDigit c ∧ c ≠ 0x30 ∧
    ∀ d ∈ v, isDigit d) {t : Bytes} (ends : ∀ c ∈ t.head?, isDigit c = false) :
    number (w ++ t) = some (ofDecimal w, skip t) := by
  obtain ⟨c, v, rfl, here, nonzero, others⟩ := digits
  obtain ⟨taken, dropped⟩ := takeWhile_dropWhile_append ends v
  rw [List.cons_append, number, if_pos ⟨here, nonzero⟩, taken, dropped,
    List.takeWhile_eq_self_iff.mpr others, List.dropWhile_eq_nil_iff.mpr others, List.nil_append]

/-! ## More than one word -/

/-- Behind white space another word begins. -/
theorem exists_skip_eq {x : Bytes} (parts : ∀ c ∈ x, isIdentifierPart c ∨ isSpace c)
    (word : ¬ ∀ c ∈ x, isSpace c) :
    ∃ c u, isIdentifierPart c ∧ (∀ d ∈ u, isIdentifierPart d ∨ isSpace d) ∧
      ∀ t, skip (x ++ t) = c :: (u ++ t) := by
  induction x with
  | nil => exact absurd (List.forall_mem_nil _) word
  | cons c x ih =>
      obtain ⟨first, others⟩ := List.forall_mem_cons.mp parts
      rcases first with part | space
      · exact ⟨c, x, part, others, fun t => skip_part part (x ++ t)⟩
      · obtain ⟨d, u, part, rest, same⟩ := ih others fun spaces =>
          word (List.forall_mem_cons.mpr ⟨space, spaces⟩)
        exact ⟨d, u, part, rest, fun t => (skip_space space (x ++ t)).trans (same t)⟩

/-- Behind the first of several words another word begins. -/
theorem IsWords.exists_skip_eq {w : Bytes} (words : IsWords w) (more : ¬ OneWord w) :
    ∃ c u, isIdentifierPart c ∧ (∀ d ∈ u, isIdentifierPart d ∨ isSpace d) ∧
      ∀ t, skip (w.dropWhile isIdentifierPart ++ t) = c :: (u ++ t) := by
  apply ProtoFile.exists_skip_eq _ more
  intro d mem
  exact words.all d ((List.dropWhile_suffix isIdentifierPart).subset mem)

end Cluon.Library.ProtoFile
