import Cluon.Specification.Grammar

/-!
# Duplicates in specifications

`check4UniqueFieldNames` looks for duplicates among the identifiers and names in the syntax tree.
Of the identifiers of a field it sees the first one, and of a message name only blanks and tabs at
its ends are cut off. What it looks at are numbers of type `int`; for a number that is none an
exception leaves it. So for the syntax tree of a text its result is whether the first identifiers
and the names are different (`MessagesSpecification.FirstDistinct`), provided that the numbers
are small enough (`MessagesSpecification.Checkable`): this is `check4UniqueFieldNames_eq`.
-/

set_option autoImplicit false

namespace Cluon

open Library PEG

namespace MessageParser

/-! ## What identifiers and names stand for -/

/-- The number of an identifier, as `std::stoi` reads it. -/
def number (token : Bytes) : Nat := ofDecimal (token.takeWhile isDigit)

/-- The name in a token. -/
def plainName (token : Bytes) : Bytes := token.filter fun c => !isWhitespace c

theorem stoi_of_isNumber {token : Bytes} (h : IsNumber token) :
    stoi token = if number token < 2 ^ 31 then some (number token : Int) else none := by
  obtain ⟨c, s, rfl, digit, -⟩ := h
  have range : 48 ≤ c.toNat ∧ c.toNat ≤ 57 := by simpa [isDigit] using digit
  have noSpace : (c :: s).dropWhile (fun c => decide (c = 0x20 ∨ 0x09 ≤ c ∧ c ≤ 0x0D)) = c :: s := by
    refine List.dropWhile_cons_of_neg ?_
    rw [decide_eq_true_eq]
    rintro (rfl | ⟨-, high⟩)
    · simp at range
    · have : c.toNat ≤ 13 := high
      omega
  have noSign : readSign (c :: s) = (false, c :: s) := readSign_of_isDigit (by simpa using digit)
  have digits : (c :: s).takeWhile isDigit ≠ [] := by simp [List.takeWhile_cons_of_pos digit]
  have value : ofDecimal ((c :: s).takeWhile isDigit) = number (c :: s) := rfl
  simp only [stoi, noSpace, noSign, value, Bool.false_eq_true, if_false]
  by_cases small : number (c :: s) < 2 ^ 31
  · rw [if_pos small, if_pos ⟨digits, by omega, by omega⟩]
  · rw [if_neg small, if_neg (by omega)]

/-- The number of an identifier is positive. -/
theorem number_pos {token : Bytes} (h : IsNumber token) : 0 < number token := by
  obtain ⟨c, s, rfl, digit, nonzero⟩ := h
  have range : 48 ≤ c.toNat ∧ c.toNat ≤ 57 := by simpa [isDigit] using digit
  have positive : c.toNat ≠ 48 := fun zero => nonzero (BitVec.eq_of_toNat_eq zero)
  have first : 0 < ofDecimal [c] := by
    rw [ofDecimal, List.foldl_cons, List.foldl_nil]
    omega
  rw [number, List.takeWhile_cons_of_pos digit]
  exact first.trans_le (ofDecimal_le_append [c] (s.takeWhile isDigit))

section Trim

open stringtoolbox

theorem isBlank_of_isDigit {c : Byte} (h : isDigit c) : isBlank c = false := by
  revert h
  decide +revert

/-- What is cut off at the end of a string are blanks. -/
theorem rtrim_append (str : Bytes) : ∃ b, rtrim str ++ b = str ∧ ∀ c ∈ b, isBlank c := by
  exact ⟨str.rtakeWhile isBlank, List.rdropWhile_append_rtakeWhile,
    fun c member => List.mem_rtakeWhile_imp member⟩

/-- A string that does not begin with a blank is only cut at its end. -/
theorem trim_cons {c : Byte} (h : isBlank c = false) (s : Bytes) :
    ∃ t b, trim (c :: s) = c :: t ∧ s = t ++ b ∧ ∀ d ∈ b, isBlank d := by
  obtain ⟨b, split, blanks⟩ := rtrim_append (c :: s)
  rcases rest : rtrim (c :: s) with _ | ⟨d, t⟩
  · rw [rest, List.nil_append] at split
    have := blanks c (split ▸ List.mem_cons_self)
    rw [h] at this
    cases this
  · rw [rest, List.cons_append] at split
    obtain ⟨rfl, rfl⟩ := List.cons.inj split
    refine ⟨t, b, ?_, rfl, blanks⟩
    rw [trim, rest, ltrim, List.dropWhile_cons_of_neg (by rw [h]; exact Bool.false_ne_true)]

/-- Blanks at the end of an identifier do not matter. -/
theorem number_trim {token : Bytes} (h : IsNumber token) :
    IsNumber (trim token) ∧ number (trim token) = number token := by
  obtain ⟨c, s, rfl, digit, nonzero⟩ := h
  obtain ⟨t, b, trimmed, rfl, blanks⟩ := trim_cons (isBlank_of_isDigit digit) s
  have noDigits : b.takeWhile isDigit = [] := by
    cases b with
    | nil => rfl
    | cons d b =>
        refine List.takeWhile_cons_of_neg fun isDigit => ?_
        have := blanks d List.mem_cons_self
        rw [isBlank_of_isDigit isDigit] at this
        cases this
  rw [trimmed]
  refine ⟨⟨c, t, rfl, digit, nonzero⟩, congrArg ofDecimal ?_⟩
  rw [← List.cons_append, List.takeWhile_append, noDigits, List.append_nil]
  split
  case isTrue all => exact List.IsPrefix.eq_of_length (List.takeWhile_prefix _) all
  case isFalse => rfl

/-- Blanks are no part of a name. -/
theorem plainName_trim (token : Bytes) : plainName (trim token) = plainName token := by
  have blank {b : Bytes} (h : ∀ c ∈ b, isBlank c) : b.filter (fun c => !isWhitespace c) = [] := by
    refine List.filter_eq_nil_iff.mpr fun c member => ?_
    have isBlank := h c member
    rw [stringtoolbox.isBlank, decide_eq_true_eq] at isBlank
    rcases isBlank with rfl | rfl <;> decide
  obtain ⟨b, split, blanks⟩ := rtrim_append token
  have left := List.takeWhile_append_dropWhile (p := isBlank) (l := rtrim token)
  conv_rhs => rw [plainName, ← split, List.filter_append, blank blanks, List.append_nil, ← left,
    List.filter_append, blank fun c member => List.mem_takeWhile_imp member, List.nil_append]
  rfl

/-- A name is more than blanks. -/
theorem trim_ne_nil {token : Bytes} (h : BeginsWithLetter token) : trim token ≠ [] := by
  obtain ⟨c, s, rfl, letter⟩ := h
  have notBlank : isBlank c = false := by
    revert letter
    decide +revert
  obtain ⟨t, b, trimmed, -⟩ := trim_cons notBlank s
  rw [trimmed]
  exact List.cons_ne_nil c t

theorem trim_name {token : Bytes} (h : IsName token) : trim token = token := by
  obtain ⟨c, s, rfl, letter, characters⟩ := h
  have notBlank : ∀ d : Byte, isNameCharacter d → isBlank d = false := by decide
  refine trim_eq_self fun d member => notBlank d ?_
  rcases List.mem_cons.mp member with rfl | member
  · rw [isNameCharacter, letter, Bool.true_or, Bool.true_or]
  · exact characters d member

theorem trim_keyword {k : String} (member : k ∈ primitiveTypes) :
    trim (asciiBytes k) = asciiBytes k := trim_name (isName_keyword k member)

end Trim

/-- The types of fields whose tokens are no keywords are messages. -/
theorem fieldDataType_of_not_keyword {w : Bytes} (other : ∀ k ∈ primitiveTypes, w ≠ asciiBytes k) :
    fieldDataType w = .message := by
  have keywords : ∀ entry ∈ stringToDataTypeMap, ∃ k ∈ primitiveTypes, entry.1 = asciiBytes k := by
    decide
  have none : (stringToDataTypeMap.find? fun entry => entry.1 = w) = none := by
    apply List.find?_eq_none.mpr
    intro entry member same
    obtain ⟨k, inKeywords, isKeyword⟩ := keywords entry member
    exact other k inKeywords ((of_decide_eq_true same).symm.trans isKeyword)
  rw [fieldDataType, none]

/-! ## The check -/

theorem duplicated_eq_iff {α : Type} [DecidableEq α] {initial : α} (l : List α) :
    initial ∉ l → ∀ found, duplicated found l = initial ↔ found = initial ∧ l.Nodup := by
  induction l with
  | nil => intro _ found; simp [duplicated]
  | cons a as ih =>
      intro new found
      obtain ⟨other, new⟩ := not_or.mp (mt List.mem_cons.mpr new)
      rw [duplicated, ih new, List.nodup_cons]
      by_cases again : a ∈ as
      · rw [if_pos again]
        exact iff_of_false (fun h => other h.1.symm) fun h => h.2.1 again
      · rw [if_neg again]
        simp [again]

theorem uniqueIdentifiers_eq {ids : List Int} (h : -1 ∉ ids) :
    uniqueIdentifiers ids = decide ids.Nodup := by
  have perm := List.perm_insertionSort (· ≤ ·) ids
  rw [uniqueIdentifiers, decide_eq_decide, eq_comm,
    duplicated_eq_iff _ (fun member => h (perm.mem_iff.mp member)), perm.nodup_iff]
  exact and_iff_right rfl

theorem uniqueNames_eq {names : List Bytes} (h : [] ∉ names) :
    uniqueNames names = decide names.Nodup := by
  have perm := List.perm_insertionSort (· ≤ ·) names
  rw [uniqueNames, decide_eq_decide,
    duplicated_eq_iff _ (fun member => h (perm.mem_iff.mp member)), perm.nodup_iff]
  exact and_iff_right rfl

/-- Functions that fail on some elements of a list fail on the list. -/
theorem mapM_eq_ite {α β : Type} {f : α → Option β} {g : α → β} {p : α → Prop} [DecidablePred p] :
    ∀ {l : List α}, (∀ a ∈ l, f a = if p a then some (g a) else none) →
      l.mapM f = if ∀ a ∈ l, p a then some (l.map g) else none := by
  intro l
  induction l with
  | nil => intro _; simp
  | cons a as ih =>
      intro h
      rw [List.mapM_cons, h a List.mem_cons_self,
        ih fun b member => h b (List.mem_cons_of_mem _ member)]
      by_cases here : p a
      · by_cases others : ∀ b ∈ as, p b
        · rw [if_pos here, if_pos others, if_pos (List.forall_mem_cons.mpr ⟨here, others⟩)]
          rfl
        · rw [if_pos here, if_neg others, if_neg fun all => others (List.forall_mem_cons.mp all).2]
          rfl
      · rw [if_neg here, if_neg fun all => here (List.forall_mem_cons.mp all).1]
        rfl

end MessageParser

open MessageParser

/-! ## Distinctness in syntax trees -/

namespace FieldNode

/-- The identifiers that the check and `createMetaMessage` see are numbers of type `int`. -/
def Checkable (f : FieldNode) : Prop := ∀ token ∈ f.identifiers.head?, number token < 2 ^ 31

def Creatable (f : FieldNode) : Prop := ∀ token ∈ f.identifiers.getLast?, number token < 2 ^ 31

instance (f : FieldNode) : Decidable f.Checkable :=
  inferInstanceAs (Decidable (∀ token ∈ f.identifiers.head?, number token < 2 ^ 31))

instance (f : FieldNode) : Decidable f.Creatable :=
  inferInstanceAs (Decidable (∀ token ∈ f.identifiers.getLast?, number token < 2 ^ 31))

end FieldNode

namespace MessageDeclaration

/-- The first identifiers of the fields are different, and so are their names. -/
def FirstDistinct (m : MessageDeclaration) : Prop :=
  ((m.fields.filterMap fun f => f.identifiers.head?).map number).Nodup ∧
    (m.fields.map FieldNode.name).Nodup

instance (m : MessageDeclaration) : Decidable m.FirstDistinct :=
  inferInstanceAs (Decidable (((m.fields.filterMap fun f => f.identifiers.head?).map number).Nodup ∧
    (m.fields.map FieldNode.name).Nodup))

/-- The names of the fields are different, and so are all their identifiers. -/
def Distinct (m : MessageDeclaration) : Prop :=
  (m.fields.map FieldNode.name).Nodup ∧
    ((m.fields.flatMap FieldNode.identifiers).map number).Nodup

/-- The number of fields without an identifier. -/
def counted (m : MessageDeclaration) : Nat :=
  (m.fields.filter fun f => f.identifiers = []).length

/-- The identifiers counted for fields are different, and the identifiers of other fields are
greater. -/
def CountedDistinct (m : MessageDeclaration) : Prop :=
  m.counted ≤ 2 ^ 32 ∧ ∀ f ∈ m.fields, ∀ token ∈ f.identifiers.getLast?, m.counted < number token

def Checkable (m : MessageDeclaration) : Prop :=
  number m.identifier < 2 ^ 31 ∧ ∀ f ∈ m.fields, f.Checkable

def Creatable (m : MessageDeclaration) : Prop := ∀ f ∈ m.fields, f.Creatable

instance (m : MessageDeclaration) : Decidable m.Checkable :=
  inferInstanceAs (Decidable (number m.identifier < 2 ^ 31 ∧ ∀ f ∈ m.fields, f.Checkable))

end MessageDeclaration

namespace MessagesSpecification

/-- What the check looks at is different. -/
def FirstDistinct (ast : MessagesSpecification) : Prop :=
  (∀ m ∈ ast.messages, m.FirstDistinct) ∧
    (ast.messages.map fun m => number m.identifier).Nodup ∧
    (ast.messages.map fun m => stringtoolbox.trim m.messageName).Nodup

instance (ast : MessagesSpecification) : Decidable ast.FirstDistinct :=
  inferInstanceAs (Decidable ((∀ m ∈ ast.messages, m.FirstDistinct) ∧
    (ast.messages.map fun m => number m.identifier).Nodup ∧
    (ast.messages.map fun m => stringtoolbox.trim m.messageName).Nodup))

/-- No two explicit message identifiers, message names, field names of a message, or explicit
identifiers of fields of a message coincide. -/
def Distinct (ast : MessagesSpecification) : Prop :=
  (ast.messages.map fun m => number m.identifier).Nodup ∧
    (ast.messages.map fun m => plainName m.messageName).Nodup ∧
    ∀ m ∈ ast.messages, m.Distinct

/-- The identifiers that the check sees are numbers of type `int`. -/
def Checkable (ast : MessagesSpecification) : Prop := ∀ m ∈ ast.messages, m.Checkable

instance (ast : MessagesSpecification) : Decidable ast.Checkable :=
  inferInstanceAs (Decidable (∀ m ∈ ast.messages, m.Checkable))

/-- The identifiers that are given to the fields are numbers of type `int`. -/
def Creatable (ast : MessagesSpecification) : Prop := ∀ m ∈ ast.messages, m.Creatable

end MessagesSpecification

/-- Among different identifiers those that are chosen one for each field are different. -/
theorem MessageDeclaration.Distinct.choose {m : MessageDeclaration} (h : m.Distinct)
    {choice : FieldNode → Option Bytes}
    (chosen : ∀ f, ∀ token ∈ choice f, token ∈ f.identifiers) :
    ((m.fields.filterMap choice).map number).Nodup := by
  refine (List.Sublist.map number ?_).nodup h.2
  induction m.fields with
  | nil => exact .slnil
  | cons f fs ih =>
      rw [List.flatMap_cons, List.filterMap_cons]
      split
      case h_1 => exact ih.trans (List.sublist_append_right _ _)
      case h_2 token found =>
          exact (List.singleton_sublist.mpr (chosen f token found)).append ih

theorem MessageDeclaration.Distinct.first {m : MessageDeclaration} (h : m.Distinct) :
    m.FirstDistinct :=
  ⟨h.choose fun _ _ first => List.mem_of_head? first, h.1⟩

/-- What is different in the whole is different for the check. -/
theorem MessagesSpecification.Distinct.first {ast : MessagesSpecification} (h : ast.Distinct) :
    ast.FirstDistinct := by
  refine ⟨fun m member => (h.2.2 m member).first, h.1, ?_⟩
  have names := h.2.1
  have trimmed : (ast.messages.map fun m => plainName m.messageName) =
      (ast.messages.map fun m => stringtoolbox.trim m.messageName).map plainName := by
    rw [List.map_map]
    exact List.map_congr_left fun m _ => (plainName_trim m.messageName).symm
  rw [trimmed] at names
  exact names.of_map plainName

namespace MessageParser

theorem uniqueIdentifiers_cast {α : Type} (l : List α) (f : α → Nat) :
    uniqueIdentifiers (l.map fun a => (f a : Int)) = decide (l.map f).Nodup := by
  have cast : (l.map fun a => (f a : Int)) = (l.map f).map Nat.cast := by
    rw [List.map_map]
    rfl
  have natural : (-1 : Int) ∉ (l.map f).map Nat.cast := by
    intro member
    obtain ⟨n, -, negative⟩ := List.mem_map.mp member
    omega
  rw [cast, uniqueIdentifiers_eq natural]
  exact decide_eq_decide.mpr (List.nodup_map_iff Nat.cast_injective)

/-- **The check of a message**: it fails on numbers that are too large, and otherwise says whether
the first identifiers and the names of the fields are different. -/
theorem checkMessage_eq {m : MessageDeclaration} (wellFormed : MessageWellFormed m) :
    checkMessage m = if m.Checkable then
      some (decide m.FirstDistinct, (number m.identifier : Int),
        stringtoolbox.trim m.messageName)
    else none := by
  have names : [] ∉ m.fields.map FieldNode.name := by
    intro member
    obtain ⟨f, inFields, empty⟩ := List.mem_map.mp member
    obtain ⟨c, s, isName, -⟩ := (wellFormed.fields f inFields).name
    rw [isName] at empty
    cases empty
  have tokens : ∀ token ∈ m.fields.filterMap fun f => f.identifiers.head?, IsNumber token := by
    intro token member
    obtain ⟨f, inFields, first⟩ := List.mem_filterMap.mp member
    exact (wellFormed.fields f inFields).identifiers token (List.mem_of_head? first)
  have numbers := mapM_eq_ite (f := stoi) (g := fun token => (number token : Int))
    (p := fun token => number token < 2 ^ 31) fun token member =>
      stoi_of_isNumber (tokens token member)
  have same : (∀ token ∈ m.fields.filterMap fun f => f.identifiers.head?, number token < 2 ^ 31) ↔
      ∀ f ∈ m.fields, f.Checkable := by
    simp only [List.mem_filterMap, FieldNode.Checkable]
    exact ⟨fun all f member token first => all token ⟨f, member, first⟩,
      fun all token ⟨f, member, first⟩ => all f member token first⟩
  rw [checkMessage, stoi_of_isNumber wellFormed.identifier, numbers]
  by_cases id : number m.identifier < 2 ^ 31
  · by_cases fields : ∀ f ∈ m.fields, f.Checkable
    · rw [if_pos id, if_pos (same.mpr fields), if_pos (show m.Checkable from ⟨id, fields⟩)]
      simp only [Option.bind_eq_bind, Option.bind_some, uniqueNames_eq names,
        uniqueIdentifiers_cast]
      rw [← Bool.decide_and]
      rfl
    · rw [if_pos id, if_neg (mt same.mp fields), if_neg (fun h : m.Checkable => fields h.2)]
      rfl
  · rw [if_neg id, if_neg (fun h : m.Checkable => id h.1)]
    rfl

/-- **The check of a specification.** -/
theorem check4UniqueFieldNames_eq {ast : MessagesSpecification}
    (wellFormed : ∀ m ∈ ast.messages, MessageWellFormed m) :
    check4UniqueFieldNames ast =
      if ast.Checkable then some (decide ast.FirstDistinct) else none := by
  have checked := mapM_eq_ite (f := checkMessage) (p := MessageDeclaration.Checkable)
    (g := fun m => (decide m.FirstDistinct, (number m.identifier : Int),
      stringtoolbox.trim m.messageName))
    fun m member => checkMessage_eq (wellFormed m member)
  have names : [] ∉ ast.messages.map fun m => stringtoolbox.trim m.messageName := by
    intro member
    obtain ⟨m, inMessages, empty⟩ := List.mem_map.mp member
    exact trim_ne_nil (wellFormed m inMessages).messageName empty
  have several : (do
      let checked ← ast.messages.mapM checkMessage
      return checked.all Prod.fst && uniqueIdentifiers (checked.map fun c => c.2.1) &&
        uniqueNames (checked.map fun c => c.2.2)) =
      if ast.Checkable then some (decide ast.FirstDistinct) else none := by
    rw [checked]
    by_cases all : ∀ m ∈ ast.messages, m.Checkable
    · rw [if_pos all, if_pos (show ast.Checkable from all), Option.bind_eq_bind, Option.bind_some,
        List.all_map, List.map_map, List.map_map]
      simp only [Function.comp_def]
      rw [uniqueIdentifiers_cast, uniqueNames_eq names]
      have fields : (ast.messages.all fun m => decide m.FirstDistinct) =
          decide (∀ m ∈ ast.messages, m.FirstDistinct) := by
        rw [Bool.eq_iff_iff, List.all_eq_true, decide_eq_true_iff]
        exact forall₂_congr fun m _ => decide_eq_true_iff
      rw [fields, ← Bool.decide_and, ← Bool.decide_and]
      exact congrArg some (decide_eq_decide.mpr and_assoc)
    · rw [if_neg all, if_neg (show ¬ ast.Checkable from all)]
      rfl
  obtain ⟨packageName, messages⟩ := ast
  rcases packageName with _ | packageName
  · rcases messages with _ | ⟨m, _ | ⟨m', more⟩⟩
    · exact several
    · rw [check4UniqueFieldNames, checkMessage_eq (wellFormed m List.mem_cons_self)]
      by_cases one : m.Checkable
      · have all : (⟨none, [m]⟩ : MessagesSpecification).Checkable :=
          fun m' member => List.mem_singleton.mp member ▸ one
        have same : (⟨none, [m]⟩ : MessagesSpecification).FirstDistinct ↔ m.FirstDistinct := by
          simp [MessagesSpecification.FirstDistinct]
        rw [if_pos one, if_pos all, decide_eq_decide.mpr same]
        rfl
      · have some' : ¬ (⟨none, [m]⟩ : MessagesSpecification).Checkable :=
          fun all => one (all m List.mem_cons_self)
        rw [if_neg one, if_neg some']
        rfl
    · exact several
  · rcases messages with _ | ⟨m, more⟩
    · have all : (⟨some packageName, []⟩ : MessagesSpecification).Checkable := nofun
      have distinct : (⟨some packageName, []⟩ : MessagesSpecification).FirstDistinct :=
        ⟨nofun, .nil, .nil⟩
      rw [if_pos all, decide_eq_true distinct]
      rfl
    · exact several

end MessageParser

end Cluon
