import Cluon.Specification.MessageParser

/-!
# The tokens of a specification

What the grammar guarantees of the tokens in a syntax tree: names have only the characters of
names and at least one, and identifiers begin with a digit other than zero
(`wellFormed_of_syntaxTree`). Every rule that is repeated takes something from the text.
-/

set_option autoImplicit false

namespace Cluon

open Library PEG

namespace MessageParser

/-! ## Progress -/

theorem Consumes.token {α : Type} {e : Parser Byte α} (h : Consumes e) : Consumes (token e) :=
  h.textOf.bind fun _ => (neverGrows_skipWhile _).bind fun _ => .pure _

theorem consumes_litInToken {text : String} (h : asciiBytes text ≠ []) :
    Consumes (litInToken text) := consumes_word h

theorem consumes_lit {text : String} (h : asciiBytes text ≠ []) : Consumes (lit text) :=
  (consumes_word h).bind fun _ => neverGrows_skipWhile _

theorem consumes_name : Consumes name :=
  Consumes.token ((consumes_satisfy _).bind fun _ => (consumes_satisfy _).neverGrows.many)

theorem consumes_dottedName : Consumes dottedName := by
  have others : Consumes (do lit "."; name) :=
    (consumes_lit (by decide)).bind fun _ => consumes_name.neverGrows
  exact consumes_name.bind fun _ => others.neverGrows.many.bind fun _ => .pure _

theorem consumes_digit : Consumes digit := Consumes.token (consumes_satisfy _)

theorem consumes_naturalNumber : Consumes naturalNumber :=
  Consumes.token ((consumes_satisfy _).bind fun _ => consumes_digit.neverGrows.many)

theorem consumes_identifier : Consumes identifier :=
  (consumes_lit (by decide)).bind fun _ =>
    (consumes_lit (by decide)).neverGrows.bind fun _ => consumes_naturalNumber.neverGrows

/-- A node from one of its children. -/
theorem Consumes.map {α β : Type} {e : Parser Byte α} (f : α → β) (h : Consumes e) :
    Consumes (f <$> e) := by
  intro s b t found
  rw [map_eq_pure_bind] at found
  exact h.bind (fun a => .pure (f a)) s b t found

theorem neverGrows_anyCharacter : NeverGrows anyCharacter := by
  intro s a t h
  cases s with
  | nil => cases h
  | cons b s =>
    simp only [anyCharacter] at h
    split at h
    · obtain ⟨-, rfl⟩ := Prod.mk.inj (Option.some.inj h)
      rw [List.length_drop]
      exact Nat.sub_le _ _
    · cases h

theorem NeverGrows.token {α : Type} {e : Parser Byte α} (h : NeverGrows e) :
    NeverGrows (token e) := by
  refine NeverGrows.bind ?_ fun _ => (neverGrows_skipWhile _).bind fun _ => .pure _
  intro s w t found
  obtain ⟨a, found, -⟩ := textOf_eq_some.mp found
  exact h s a t found

theorem NeverGrows.orElse {α : Type} {e f : Parser Byte α} (first : NeverGrows e)
    (second : NeverGrows f) : NeverGrows (e <|> f) := by
  intro s a t h
  rcases orElse_eq_some.mp h with h | ⟨-, h⟩
  · exact first s a t h
  · exact second s a t h

theorem NeverGrows.map {α β : Type} {e : Parser Byte α} (f : α → β) (h : NeverGrows e) :
    NeverGrows (f <$> e) := by
  intro s b t found
  rw [map_eq_pure_bind] at found
  exact h.bind (fun a => .pure (f a)) s b t found

theorem consumes_default : Consumes default := by
  have plus : NeverGrows (litInToken "+" <|> litInToken "-") :=
    (Consumes.orElse (consumes_litInToken (by decide)) (consumes_litInToken (by decide))).neverGrows
  have fraction : NeverGrows (do lit "."; many digit) :=
    (consumes_lit (by decide)).neverGrows.bind fun _ => consumes_digit.neverGrows.many
  have number : NeverGrows floatNumber :=
    NeverGrows.token (plus.opt.bind fun _ => consumes_digit.neverGrows.bind fun _ =>
      consumes_digit.neverGrows.many.bind fun _ => fraction.opt)
  have truth (text : String) : NeverGrows (token (litInToken text)) := by
    apply NeverGrows.token
    intro s a t h
    rw [litInToken, word] at h
    split at h
    · obtain ⟨-, rfl⟩ := Prod.mk.inj (Option.some.inj h)
      rw [List.length_drop]
      exact Nat.sub_le _ _
    · cases h
  have bool : NeverGrows MessageParser.bool := NeverGrows.orElse (truth _) (truth _)
  have any (text : String) : NeverGrows (do notNext (litInToken text); anyCharacter) :=
    (neverGrows_notNext _).bind fun _ => neverGrows_anyCharacter
  have quote (text : String) (h : asciiBytes text ≠ []) : NeverGrows (lit text) :=
    (consumes_lit h).neverGrows
  have string : NeverGrows MessageParser.string :=
    (quote _ (by decide)).bind fun _ => (NeverGrows.token (any _).many).bind fun _ =>
      (quote _ (by decide)).bind fun _ => .pure _
  have character : NeverGrows MessageParser.character :=
    (quote _ (by decide)).bind fun _ => (NeverGrows.token (any _)).bind fun _ =>
      (quote _ (by decide)).bind fun _ => .pure _
  exact (consumes_lit (by decide)).bind fun _ => (quote _ (by decide)).bind fun _ =>
    NeverGrows.orElse (NeverGrows.map _ number) <| NeverGrows.orElse (NeverGrows.map _ bool) <|
      NeverGrows.orElse (NeverGrows.map _ character) (NeverGrows.map _ string)

theorem consumes_fieldOption : Consumes fieldOption :=
  ((Consumes.map _ consumes_default).orElse (Consumes.map _ consumes_identifier)).bind fun _ =>
    (consumes_lit (by decide)).neverGrows.opt.bind fun _ => .pure _

theorem consumes_fieldOptions : Consumes fieldOptions :=
  (consumes_lit (by decide)).bind fun _ => consumes_fieldOption.neverGrows.many.bind fun _ =>
    (consumes_lit (by decide)).neverGrows.bind fun _ => .pure _

theorem consumes_primitiveType : Consumes primitiveType := by
  have message : Consumes (do let _ ← messageType) :=
    (Consumes.token consumes_dottedName).bind fun _ => .pure _
  have all : ∀ keywords : List String, (∀ k ∈ keywords, asciiBytes k ≠ []) →
      Consumes (keywords.foldr (fun keyword others => litInToken keyword <|> others)
        (do let _ ← messageType)) := by
    intro keywords
    induction keywords with
    | nil => intro _; exact message
    | cons k ks ih =>
        intro some
        exact (consumes_litInToken (some k List.mem_cons_self)).orElse
          (ih fun k' member => some k' (List.mem_cons_of_mem _ member))
  exact Consumes.token (all primitiveTypes (by decide))

theorem consumes_field : Consumes field :=
  consumes_primitiveType.bind fun _ => consumes_name.neverGrows.bind fun _ =>
    consumes_fieldOptions.neverGrows.opt.bind fun _ => (consumes_lit (by decide)).neverGrows.bind
      fun _ => .pure _

theorem consumes_messageDeclaration : Consumes messageDeclaration :=
  (consumes_lit (by decide)).bind fun _ => (Consumes.token consumes_dottedName).neverGrows.bind
    fun _ => (consumes_lit (by decide)).neverGrows.bind fun _ => consumes_identifier.neverGrows.bind
    fun _ => (consumes_lit (by decide)).neverGrows.opt.bind fun _ =>
    (consumes_lit (by decide)).neverGrows.bind fun _ => (consumes_lit (by decide)).neverGrows.bind
    fun _ => consumes_field.neverGrows.many.bind fun _ => (consumes_lit (by decide)).neverGrows.bind
    fun _ => .pure _

/-! ## Tokens -/

/-- The token of a number: it begins with a digit that is not zero. -/
def IsNumber (token : Bytes) : Prop := ∃ c s, token = c :: s ∧ isDigit c ∧ c ≠ 0x30

/-- The token of a name. -/
def IsName (token : Bytes) : Prop :=
  ∃ c s, token = c :: s ∧ isLetter c ∧ ∀ d ∈ s, isNameCharacter d

/-- A token of names begins with a letter. -/
def BeginsWithLetter (token : Bytes) : Prop := ∃ c s, token = c :: s ∧ isLetter c

theorem isName_asciiBytes {c : Char} {cs : List Char} (letter : isLetter (BitVec.ofNat 8 c.toNat))
    (others : cs.all fun c => isNameCharacter (BitVec.ofNat 8 c.toNat)) :
    IsName (asciiBytes (String.ofList (c :: cs))) := by
  rw [asciiBytes_ofList]
  exact ⟨_, _, rfl, letter, List.forall_mem_map.mpr (List.all_eq_true.mp others)⟩

/-- The keywords are names. -/
theorem isName_keyword : ∀ k ∈ primitiveTypes, IsName (asciiBytes k) := by
  rw [← List.forall_iff_forall_mem]
  refine ⟨?_, ?_, ?_, ?_, ?_, ?_, ?_, ?_, ?_, ?_, ?_, ?_, ?_, ?_⟩ <;>
    exact isName_asciiBytes rfl rfl

theorem token_eq_some {α : Type} {e : Parser Byte α} {s w t : Bytes} :
    token e s = some (w, t) ↔ ∃ u, textOf e s = some (w, u) ∧ t = u.dropWhile isWhitespace := by
  rw [token, bind_eq_some]
  constructor
  · rintro ⟨w', u, text, rest⟩
    obtain ⟨_, v, skipped, value⟩ := bind_eq_some.mp rest
    obtain ⟨-, rfl⟩ := Prod.mk.inj (Option.some.inj skipped)
    obtain ⟨rfl, rfl⟩ := pure_eq_some.mp value
    exact ⟨u, text, rfl⟩
  · rintro ⟨u, text, rfl⟩
    exact ⟨w, u, text, rfl⟩

/-- A name consists of a letter and all characters of names that follow it. -/
theorem name_cons {c : Byte} (letter : isLetter c) (s : Bytes) :
    name (c :: s) = some (c :: s.takeWhile isNameCharacter,
      (s.dropWhile isNameCharacter).dropWhile isWhitespace) := by
  refine token_eq_some.mpr ⟨s.dropWhile isNameCharacter, ?_, rfl⟩
  have split : c :: s = (c :: s.takeWhile isNameCharacter) ++ s.dropWhile isNameCharacter :=
    congrArg (c :: ·) List.takeWhile_append_dropWhile.symm
  have text := textOf_append (w := c :: s.takeWhile isNameCharacter)
    (t := s.dropWhile isNameCharacter) (a := s.takeWhile isNameCharacter)
    (e := do let _ ← satisfy isLetter; many (satisfy isNameCharacter))
  rw [← split] at text
  exact text ((bind_of_some (satisfy_eq_some.mpr ⟨rfl, letter⟩)).trans (many_satisfy _ s))

theorem name_of_not_letter {s : Bytes} (h : ∀ c ∈ s.head?, isLetter c = false) : name s = none := by
  have fails : satisfy isLetter s = none := by
    cases s with
    | nil => rfl
    | cons c s => exact if_neg (by rw [h c rfl]; exact Bool.false_ne_true)
  exact bind_of_none (textOf_of_none (bind_of_none fails))

theorem isName_of_name {s w t : Bytes} (h : name s = some (w, t)) : IsName w := by
  cases s with
  | nil => cases h
  | cons c s =>
      by_cases letter : isLetter c
      · rw [name_cons letter] at h
        obtain ⟨rfl, -⟩ := Prod.mk.inj (Option.some.inj h)
        exact ⟨c, _, rfl, letter, fun d member => List.mem_takeWhile_imp member⟩
      · rw [name_of_not_letter (by simpa using letter)] at h
        cases h

theorem isNumber_of_naturalNumber {s w t : Bytes} (h : naturalNumber s = some (w, t)) :
    IsNumber w := by
  obtain ⟨u, text, -⟩ := token_eq_some.mp h
  obtain ⟨c, v, rfl, digit⟩ :=
    textOf_satisfy_bind (fun _ => consumes_digit.neverGrows.many) text
  rw [Bool.and_eq_true, decide_eq_true_eq] at digit
  exact ⟨c, v, rfl, digit⟩

theorem isNumber_of_identifier {s w t : Bytes} (h : identifier s = some (w, t)) : IsNumber w := by
  obtain ⟨_, _, -, rest⟩ := bind_eq_some.mp h
  obtain ⟨_, _, -, number⟩ := bind_eq_some.mp rest
  exact isNumber_of_naturalNumber number

/-- The text that an expression takes at first is where its whole text begins. -/
theorem beginsWithLetter_of_messageName {s w t : Bytes} (h : messageName s = some (w, t)) :
    BeginsWithLetter w := by
  obtain ⟨u, text, -⟩ := token_eq_some.mp h
  obtain ⟨_, found, rfl⟩ := textOf_eq_some.mp text
  obtain ⟨v, r, first, rest⟩ := bind_eq_some.mp found
  have shorter := consumes_name s v r first
  have others : Consumes (do lit "."; name) :=
    (consumes_lit (by decide)).bind fun _ => consumes_name.neverGrows
  have left : u.length ≤ r.length :=
    (others.neverGrows.many.bind fun _ => .pure _) r _ u rest
  obtain ⟨r', nameText, rfl⟩ := token_eq_some.mp first
  obtain ⟨_, found', -⟩ := textOf_eq_some.mp nameText
  obtain ⟨c, s', letter, -⟩ := bind_eq_some.mp found'
  obtain ⟨rfl, isLetter⟩ := satisfy_eq_some.mp letter
  refine ⟨c, s'.take (s'.length - u.length), ?_, isLetter⟩
  rw [List.length_cons] at shorter ⊢
  rw [Nat.succ_sub (by omega), List.take_succ_cons]

/-! ## Syntax trees -/

/-- What the grammar guarantees of a field. -/
structure FieldWellFormed (f : FieldNode) : Prop where
  name : IsName f.name
  identifiers : ∀ token ∈ f.identifiers, IsNumber token

/-- What the grammar guarantees of a message. -/
structure MessageWellFormed (m : MessageDeclaration) : Prop where
  messageName : BeginsWithLetter m.messageName
  identifier : IsNumber m.identifier
  fields : ∀ f ∈ m.fields, FieldWellFormed f

theorem wellFormed_of_field {s t : Bytes} {f : FieldNode} (h : field s = some (f, t)) :
    FieldWellFormed f := by
  obtain ⟨type, _, -, h⟩ := bind_eq_some.mp h
  obtain ⟨fieldName, _, isName, h⟩ := bind_eq_some.mp h
  obtain ⟨options, _, found, h⟩ := bind_eq_some.mp h
  obtain ⟨_, _, -, h⟩ := bind_eq_some.mp h
  obtain ⟨rfl, rfl⟩ := pure_eq_some.mp h
  refine ⟨isName_of_name isName, fun token member => ?_⟩
  obtain ⟨option, inOptions, isToken⟩ := List.mem_filterMap.mp member
  have each : ∀ s o t, fieldOption s = some (o, t) → ∀ token, o = .identifier token →
      IsNumber token := by
    intro s o t h token isIdentifier
    obtain ⟨value, _, found, h⟩ := bind_eq_some.mp h
    obtain ⟨_, _, -, h⟩ := bind_eq_some.mp h
    obtain ⟨rfl, -⟩ := pure_eq_some.mp h
    rcases orElse_eq_some.mp found with found | ⟨-, found⟩
    · rw [map_eq_pure_bind] at found
      obtain ⟨_, _, -, found⟩ := bind_eq_some.mp found
      obtain ⟨rfl, -⟩ := pure_eq_some.mp found
      cases isIdentifier
    · rw [map_eq_pure_bind] at found
      obtain ⟨w, _, isToken, found⟩ := bind_eq_some.mp found
      obtain ⟨rfl, -⟩ := pure_eq_some.mp found
      obtain rfl := FieldOption.identifier.inj isIdentifier
      exact isNumber_of_identifier isToken
  rcases options with _ | options
  · cases inOptions
  · rw [opt] at found
    rcases inside : fieldOptions _ with _ | ⟨options', u⟩
    · rw [inside] at found
      cases (Prod.mk.inj (Option.some.inj found)).1
    · rw [inside] at found
      obtain rfl := Option.some.inj (Prod.mk.inj (Option.some.inj found)).1
      obtain ⟨_, _, -, inside⟩ := bind_eq_some.mp inside
      obtain ⟨os, _, many, inside⟩ := bind_eq_some.mp inside
      obtain ⟨_, _, -, inside⟩ := bind_eq_some.mp inside
      obtain ⟨rfl, -⟩ := pure_eq_some.mp inside
      have isIdentifier : option = .identifier token := by
        cases option with
        | default value => cases isToken
        | identifier w => exact congrArg _ (Option.some.inj isToken)
      exact forall_of_many each many option inOptions token isIdentifier

theorem wellFormed_of_messageDeclaration {s t : Bytes} {m : MessageDeclaration}
    (h : messageDeclaration s = some (m, t)) : MessageWellFormed m := by
  obtain ⟨_, _, -, h⟩ := bind_eq_some.mp h
  obtain ⟨messageName, _, isName, h⟩ := bind_eq_some.mp h
  obtain ⟨_, _, -, h⟩ := bind_eq_some.mp h
  obtain ⟨identifier, _, isIdentifier, h⟩ := bind_eq_some.mp h
  obtain ⟨_, _, -, h⟩ := bind_eq_some.mp h
  obtain ⟨_, _, -, h⟩ := bind_eq_some.mp h
  obtain ⟨_, _, -, h⟩ := bind_eq_some.mp h
  obtain ⟨fields, _, areFields, h⟩ := bind_eq_some.mp h
  obtain ⟨_, _, -, h⟩ := bind_eq_some.mp h
  obtain ⟨rfl, rfl⟩ := pure_eq_some.mp h
  exact ⟨beginsWithLetter_of_messageName isName, isNumber_of_identifier isIdentifier,
    forall_of_many (fun _ _ _ => wellFormed_of_field) areFields⟩

/-- **The messages of a syntax tree are well-formed.** -/
theorem wellFormed_of_syntaxTree {input : Bytes} {ast : MessagesSpecification}
    (h : syntaxTree input = some ast) : ∀ m ∈ ast.messages, MessageWellFormed m := by
  rw [syntaxTree, parseGrammar] at h
  split at h
  case h_1 ast' found =>
      obtain rfl := Option.some.inj h
      obtain ⟨packageName, _, -, found⟩ := bind_eq_some.mp found
      obtain ⟨messages, _, many, found⟩ := bind_eq_some.mp found
      obtain ⟨rfl, -⟩ := pure_eq_some.mp found
      exact forall_of_many (fun _ _ _ => wellFormed_of_messageDeclaration) many
  case h_2 => cases h

end MessageParser

end Cluon
