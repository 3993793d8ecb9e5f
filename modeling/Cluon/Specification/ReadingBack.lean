import Cluon.Specification.Duplicates
import Cluon.Specification.ToODVDVisitor

/-!
# Specifications that are read back

What the grammar reads of the text that `ToODVDVisitor` writes. Every line is read as the node it
stands for (`field_line`), with one exception: the type of a nested message whose name begins with
a keyword is read as this keyword, and the rest of the name is in the place of the name of the
field (`field_of_keyword`). So the text of a message has a syntax tree, which lists the
declarations of its types, if and only if no type of a nested message has such a name
(`syntaxTree_messageSpecification`).
-/

set_option autoImplicit false

namespace Cluon

open Library PEG

namespace MessageParser

/-! ## Literals and tokens -/

theorem lit_append (text : String) (s : Bytes) :
    lit text (asciiBytes text ++ s) = some ((), s.dropWhile isWhitespace) :=
  (bind_of_some (word_append _ s)).trans rfl

theorem lit_of_ne {text : String} {c d : Byte} {w s : Bytes} (text_eq : asciiBytes text = c :: w)
    (h : c ≠ d) : lit text (d :: s) = none := by
  apply bind_of_none
  rw [text_eq]
  exact word_of_ne h w s

theorem token_append {α : Type} {e : Parser Byte α} {w s : Bytes} {a : α}
    (h : e (w ++ s) = some (a, s)) : token e (w ++ s) = some (w, s.dropWhile isWhitespace) :=
  token_eq_some.mpr ⟨s, textOf_append h, rfl⟩

theorem token_of_none {α : Type} {e : Parser Byte α} {s : Bytes} (h : e s = none) :
    token e s = none := bind_of_none (textOf_of_none h)

theorem map_of_some {α β : Type} {e : Parser Byte α} (f : α → β) {s t : Bytes} {a : α}
    (h : e s = some (a, t)) : (f <$> e) s = some (f a, t) := by
  rw [map_eq_pure_bind, bind_of_some h]
  rfl

theorem map_of_none {α β : Type} {e : Parser Byte α} (f : α → β) {s : Bytes} (h : e s = none) :
    (f <$> e) s = none := by
  rw [map_eq_pure_bind, bind_of_none h]

/-! ## Names -/

theorem isWhitespace_of_isLetter {c : Byte} (h : isLetter c) : isWhitespace c = false := by
  revert h
  decide +revert

theorem isWhitespace_of_isNameCharacter {c : Byte} (h : isNameCharacter c) :
    isWhitespace c = false := by
  revert h
  decide +revert

theorem IsName.all {w : Bytes} (h : IsName w) : ∀ c ∈ w, isNameCharacter c := by
  obtain ⟨c, s, rfl, letter, characters⟩ := h
  refine List.forall_mem_cons.mpr ⟨?_, characters⟩
  rw [isNameCharacter, letter, Bool.true_or, Bool.true_or]

/-- A text that begins with a name does not begin with a blank. -/
theorem IsName.dropWhile_append {w : Bytes} (h : IsName w) (s : Bytes) :
    (w ++ s).dropWhile isWhitespace = w ++ s := by
  obtain ⟨c, t, rfl, letter, -⟩ := h
  exact List.dropWhile_cons_of_neg (by rw [isWhitespace_of_isLetter letter]; exact
    Bool.false_ne_true)

theorem name_append {w s : Bytes} (h : IsName w) (stop : ∀ c ∈ s.head?, isNameCharacter c = false) :
    name (w ++ s) = some (w, s.dropWhile isWhitespace) := by
  have ends : s.takeWhile isNameCharacter = [] ∧ s.dropWhile isNameCharacter = s := by
    cases s with
    | nil => exact ⟨rfl, rfl⟩
    | cons c s =>
        have other : ¬ isNameCharacter c := by rw [stop c rfl]; exact Bool.false_ne_true
        exact ⟨List.takeWhile_cons_of_neg other, List.dropWhile_cons_of_neg other⟩
  obtain ⟨c, t, rfl, letter, characters⟩ := h
  rw [List.cons_append, name_cons letter, List.takeWhile_append_of_pos characters,
    List.dropWhile_append_of_pos characters, ends.1, ends.2, List.append_nil]

/-- The name of a message type: names with dots between them. -/
def IsDottedName (s : Bytes) : Prop :=
  ∃ (first : Bytes) (others : List Bytes), IsName first ∧ (∀ n ∈ others, IsName n) ∧
    s = first ++ others.flatMap fun n => 0x2E :: n

/-- A text that may follow the name of a message type and a blank. -/
def Follows (s : Bytes) : Prop := ∀ c ∈ s.head?, isWhitespace c = false ∧ c ≠ 0x2E

theorem Follows.dropWhile {s : Bytes} (h : Follows s) : s.dropWhile isWhitespace = s := by
  cases s with
  | nil => rfl
  | cons c s =>
      exact List.dropWhile_cons_of_neg (by rw [(h c rfl).1]; exact Bool.false_ne_true)

theorem Follows.dropWhile_cons {s : Bytes} (h : Follows s) :
    ((0x20 : Byte) :: s).dropWhile isWhitespace = s :=
  (List.dropWhile_cons_of_pos rfl).trans h.dropWhile

theorem Follows.of_isName {n : Bytes} (h : IsName n) (s : Bytes) : Follows (n ++ s) := by
  obtain ⟨c, t, rfl, letter, -⟩ := h
  rintro d ⟨⟩
  refine ⟨isWhitespace_of_isLetter letter, ?_⟩
  rintro rfl
  cases letter

theorem many_dotName {s : Bytes} (follows : Follows s) (ns : List Bytes) :
    (∀ n ∈ ns, IsName n) → ∃ read,
      many (do lit "."; name)
        ((ns.flatMap (fun n => 0x2E :: n) ++ 0x20 :: s).dropWhile isWhitespace) =
          some (read, s) := by
  have consumes : Consumes (do lit "."; name) :=
    (consumes_lit (by decide)).bind fun _ => consumes_name.neverGrows
  induction ns with
  | nil =>
      intro _
      refine ⟨[], ?_⟩
      rw [List.flatMap_nil, List.nil_append, follows.dropWhile_cons]
      apply many_of_none
      cases s with
      | nil => rfl
      | cons c s => exact bind_of_none (lit_of_ne rfl (Ne.symm (follows c rfl).2))
  | cons n ns ih =>
      intro isNames
      obtain ⟨here, others⟩ := List.forall_mem_cons.mp isNames
      obtain ⟨read, rest⟩ := ih others
      have stop : ∀ c ∈ (ns.flatMap (fun n => (0x2E : Byte) :: n) ++ 0x20 :: s).head?,
          isNameCharacter c = false := by
        cases ns with
        | nil => rintro c ⟨⟩; rfl
        | cons n' ns => rintro c ⟨⟩; rfl
      refine ⟨n :: read, many_of_some consumes ?_ rest⟩
      rw [List.flatMap_cons, List.append_assoc, List.cons_append]
      have dot := lit_append "." (n ++ (ns.flatMap (fun n => (0x2E : Byte) :: n) ++ 0x20 :: s))
      rw [here.dropWhile_append] at dot
      exact (bind_of_some dot).trans (name_append here stop)

theorem dottedName_append {w s : Bytes} (h : IsDottedName w) (follows : Follows s) :
    dottedName (w ++ 0x20 :: s) = some ((), s) := by
  obtain ⟨first, others, isName, areNames, rfl⟩ := h
  obtain ⟨read, rest⟩ := many_dotName follows others areNames
  have stop : ∀ c ∈ (others.flatMap (fun n => (0x2E : Byte) :: n) ++ 0x20 :: s).head?,
      isNameCharacter c = false := by
    cases others with
    | nil => rintro c ⟨⟩; rfl
    | cons n ns => rintro c ⟨⟩; rfl
  rw [List.append_assoc]
  exact (bind_of_some (name_append isName stop)).trans (bind_of_some rest)

/-- The token of the name of a message type ends with the blank behind it. -/
theorem messageName_append {w s : Bytes} (h : IsDottedName w) (follows : Follows s) :
    messageName (w ++ 0x20 :: s) = some (w ++ [0x20], s) := by
  have split : w ++ 0x20 :: s = (w ++ [0x20]) ++ s := by simp
  have read := token_append (e := dottedName) (w := w ++ [0x20]) (s := s) (a := ())
    (split ▸ dottedName_append h follows)
  rw [← split, follows.dropWhile] at read
  exact read

/-! ## Numbers -/

theorem isWhitespace_of_isDigit {c : Byte} (h : isDigit c) : isWhitespace c = false := by
  revert h
  decide +revert

/-- The token of a number that is followed by a blank. Behind each but the first digit, blanks
are skipped within the token. -/
def numberToken (n : Nat) : Bytes :=
  if (decimal n).length = 1 then decimal n else decimal n ++ asciiBytes " "

theorem many_digit (s : Bytes) (ds : Bytes) : (∀ c ∈ ds, isDigit c) → ∃ read,
    many digit (ds ++ 0x20 :: 0x5D :: s) =
      some (read, if ds = [] then 0x20 :: 0x5D :: s else 0x5D :: s) := by
  have ends : many digit (0x5D :: s) = some ([], 0x5D :: s) := many_of_none rfl
  induction ds with
  | nil => intro _; exact ⟨[], many_of_none rfl⟩
  | cons d ds ih =>
      intro digits
      obtain ⟨here, others⟩ := List.forall_mem_cons.mp digits
      obtain ⟨read, rest⟩ := ih others
      have first : digit ((d :: ds) ++ 0x20 :: 0x5D :: s) =
          some ([d], (ds ++ 0x20 :: 0x5D :: s).dropWhile isWhitespace) :=
        token_append (w := [d]) (satisfy_eq_some.mpr ⟨rfl, here⟩)
      rw [if_neg (List.cons_ne_nil d ds)]
      cases ds with
      | nil => exact ⟨[[d]], many_of_some consumes_digit first ends⟩
      | cons d' ds =>
          have noBlank : ¬ isWhitespace d' := by
            rw [isWhitespace_of_isDigit (others d' List.mem_cons_self)]
            exact Bool.false_ne_true
          rw [List.cons_append, List.cons_append, List.dropWhile_cons_of_neg noBlank] at first
          rw [if_neg (List.cons_ne_nil d' ds)] at rest
          exact ⟨[d] :: read, many_of_some consumes_digit first rest⟩

/-- A positive number begins with a digit that is not zero. -/
theorem decimal_eq_cons {n : Nat} (h : 0 < n) :
    ∃ c ds, decimal n = c :: ds ∧ isDigit c ∧ c ≠ 0x30 ∧ ∀ d ∈ ds, isDigit d := by
  have some : Nat.digits 10 n ≠ [] := Nat.digits_ne_nil_iff_ne_zero.mpr h.ne'
  have nonzero : (Nat.digits 10 n).getLast some ≠ 0 := Nat.getLast_digit_ne_zero 10 h.ne'
  have small : (Nat.digits 10 n).getLast some < 10 :=
    Nat.digits_lt_base (by norm_num) (List.getLast_mem some)
  have digits : decimal n = digitByte ((Nat.digits 10 n).getLast some) ::
      (Nat.digits 10 n).dropLast.reverse.map digitByte := by
    rw [decimal, if_neg h.ne']
    conv_lhs => rw [← List.dropLast_append_getLast some, List.reverse_append]
    rfl
  have all := all_isDigit_decimal n
  rw [digits] at all
  obtain ⟨here, others⟩ := List.forall_mem_cons.mp all
  refine ⟨_, _, digits, here, ?_, others⟩
  generalize (Nat.digits 10 n).getLast some = d at nonzero small
  revert nonzero
  revert d
  decide

theorem naturalNumber_append {n : Nat} (h : 0 < n) (s : Bytes) :
    naturalNumber (decimal n ++ 0x20 :: 0x5D :: s) = some (numberToken n, 0x5D :: s) := by
  obtain ⟨c, ds, digits, here, nonzero, others⟩ := decimal_eq_cons h
  obtain ⟨read, rest⟩ := many_digit s ds others
  have first : satisfy (fun c => isDigit c && decide (c ≠ 0x30)) (c :: (ds ++ 0x20 :: 0x5D :: s)) =
      some (c, ds ++ 0x20 :: 0x5D :: s) := by
    refine satisfy_eq_some.mpr ⟨rfl, ?_⟩
    rw [here, Bool.true_and]
    exact decide_eq_true nonzero
  have whole := (bind_of_some (f := fun _ => many digit) first).trans rest
  rw [numberToken, digits]
  cases ds with
  | nil =>
      rw [if_pos rfl] at whole
      rw [if_pos (show [c].length = 1 from rfl)]
      exact token_append (w := [c]) whole
  | cons d ds =>
      rw [if_neg (List.cons_ne_nil d ds)] at whole
      rw [if_neg (by simp)]
      have split : c :: (d :: ds ++ 0x20 :: 0x5D :: s) =
          (c :: d :: ds ++ asciiBytes " ") ++ 0x5D :: s := by
        simp [asciiBytes]
      rw [split] at whole
      rw [List.cons_append, split]
      exact token_append whole

theorem number_numberToken (n : Nat) : number (numberToken n) = n := by
  have all := List.takeWhile_eq_self_iff.mpr (all_isDigit_decimal n)
  rw [numberToken]
  split
  · rw [number, all, ofDecimal_decimal]
  · rw [number, List.takeWhile_append_of_pos (all_isDigit_decimal n),
      show (asciiBytes " ").takeWhile isDigit = [] from rfl, List.append_nil, ofDecimal_decimal]

/-! ## The options of a field -/

theorem identifier_append {n : Nat} (h : 0 < n) (s : Bytes) :
    identifier (asciiBytes "id = " ++ (decimal n ++ 0x20 :: 0x5D :: s)) =
      some (numberToken n, 0x5D :: s) := by
  obtain ⟨c, ds, digits, here, -, -⟩ := decimal_eq_cons h
  have noBlank : (asciiBytes " " ++ (decimal n ++ 0x20 :: 0x5D :: s)).dropWhile isWhitespace =
      decimal n ++ 0x20 :: 0x5D :: s := by
    rw [digits]
    refine (List.dropWhile_cons_of_pos rfl).trans (List.dropWhile_cons_of_neg ?_)
    rw [isWhitespace_of_isDigit here]
    exact Bool.false_ne_true
  have equals := lit_append "=" (asciiBytes " " ++ (decimal n ++ 0x20 :: 0x5D :: s))
  rw [noBlank] at equals
  have word := lit_append "id" (asciiBytes " = " ++ (decimal n ++ 0x20 :: 0x5D :: s))
  exact (bind_of_some word).trans ((bind_of_some equals).trans (naturalNumber_append h s))

/-- The default value of a scalar, as it is read. -/
def defaultNode : ScalarType → DefaultNode
  | .bool => .bool (asciiBytes "false")
  | .char => .character (asciiBytes "0")
  | .float | .double => .floatNumber (asciiBytes "0.0")
  | .bytes | .string => .string []
  | _ => .floatNumber (asciiBytes "0")

/-- The alternatives of `DEFAULT`. -/
def defaultValue : Parser Byte DefaultNode :=
  (DefaultNode.floatNumber <$> floatNumber) <|> (DefaultNode.bool <$> bool) <|>
    (DefaultNode.character <$> character) <|> (DefaultNode.string <$> string)

theorem defaultValue_append (t : ScalarType) (s : Bytes) :
    defaultValue (asciiBytes (ToODVDVisitor.scalarText t).2 ++ 0x2C :: s) =
      some (defaultNode t, 0x2C :: s) := by
  have number (text : String) {a : Option (List Bytes)}
      (h : (do
          let _ ← opt (litInToken "+" <|> litInToken "-")
          let _ ← digit
          let _ ← many digit
          opt (do lit "."; many digit)) (asciiBytes text ++ 0x2C :: s) = some (a, 0x2C :: s)) :
      defaultValue (asciiBytes text ++ 0x2C :: s) =
        some (.floatNumber (asciiBytes text), 0x2C :: s) :=
    orElse_of_some (map_of_some _ (token_append h))
  have noNumber {v : Bytes} (h : floatNumber v = none) : defaultValue v =
      ((DefaultNode.bool <$> bool) <|> (DefaultNode.character <$> character) <|>
        (DefaultNode.string <$> string)) v := orElse_of_none (map_of_none _ h)
  cases t with
  | int8 | uint8 | int16 | uint16 | int32 | uint32 | int64 | uint64 => exact number "0" rfl
  | float | double => exact number "0.0" rfl
  | bool =>
      have isFalse : token (litInToken "false") (asciiBytes "false" ++ 0x2C :: s) =
          some (asciiBytes "false", 0x2C :: s) := token_append (word_append _ _)
      refine (noNumber rfl).trans (orElse_of_some (map_of_some _ ?_))
      exact (orElse_of_none (token_of_none rfl)).trans isFalse
  | char =>
      have zero : token (do notNext (litInToken "'"); anyCharacter)
          (asciiBytes "0" ++ 0x27 :: 0x2C :: s) = some (asciiBytes "0", 0x27 :: 0x2C :: s) :=
        token_append (a := ()) rfl
      have noBool : bool (asciiBytes "'0'" ++ 0x2C :: s) = none := rfl
      refine (noNumber rfl).trans ((orElse_of_none (map_of_none _ noBool)).trans
        (orElse_of_some (map_of_some _ ?_)))
      exact (bind_of_some (lit_append "'" _)).trans ((bind_of_some zero).trans
        (bind_of_some (lit_append "'" _)))
  | bytes | string =>
      have empty : token (many (do notNext (litInToken "\""); anyCharacter))
          (0x22 :: 0x2C :: s) = some ([], 0x22 :: 0x2C :: s) :=
        token_append (w := []) (many_of_none rfl)
      have noBool : bool (asciiBytes "\"\"" ++ 0x2C :: s) = none := rfl
      have noCharacter : character (asciiBytes "\"\"" ++ 0x2C :: s) = none := rfl
      refine (noNumber rfl).trans ((orElse_of_none (map_of_none _ noBool)).trans
        ((orElse_of_none (map_of_none _ noCharacter)).trans (map_of_some _ ?_)))
      exact (bind_of_some (lit_append "\"" _)).trans ((bind_of_some empty).trans
        (bind_of_some (lit_append "\"" _)))

theorem default_append (t : ScalarType) (s : Bytes) :
    default (asciiBytes "default = " ++ (asciiBytes (ToODVDVisitor.scalarText t).2 ++ 0x2C :: s)) =
      some (defaultNode t, 0x2C :: s) := by
  have noBlank : (asciiBytes " " ++ (asciiBytes (ToODVDVisitor.scalarText t).2 ++
      0x2C :: s)).dropWhile isWhitespace =
        asciiBytes (ToODVDVisitor.scalarText t).2 ++ 0x2C :: s := by
    cases t <;> rfl
  have equals := lit_append "="
    (asciiBytes " " ++ (asciiBytes (ToODVDVisitor.scalarText t).2 ++ 0x2C :: s))
  rw [noBlank] at equals
  have word := lit_append "default"
    (asciiBytes " = " ++ (asciiBytes (ToODVDVisitor.scalarText t).2 ++ 0x2C :: s))
  exact (bind_of_some word).trans ((bind_of_some equals).trans (defaultValue_append t s))

/-- The option that is the identifier. -/
theorem fieldOption_identifier {n : Nat} (h : 0 < n) (s : Bytes) :
    fieldOption (asciiBytes "id = " ++ (decimal n ++ 0x20 :: 0x5D :: s)) =
      some (.identifier (numberToken n), 0x5D :: s) := by
  have noDefault : default (asciiBytes "id = " ++ (decimal n ++ 0x20 :: 0x5D :: s)) = none := rfl
  have comma : opt (lit ",") (0x5D :: s) = some (none, 0x5D :: s) := opt_of_none rfl
  exact (bind_of_some ((orElse_of_none (map_of_none _ noDefault)).trans
    (map_of_some _ (identifier_append h s)))).trans (bind_of_some comma)

/-- The option that is the default value. -/
theorem fieldOption_default (t : ScalarType) (s : Bytes) :
    fieldOption (asciiBytes "default = " ++
        (asciiBytes (ToODVDVisitor.scalarText t).2 ++ (asciiBytes ", id = " ++ s))) =
      some (.default (defaultNode t), asciiBytes "id = " ++ s) := by
  have comma : opt (lit ",") (asciiBytes ", id = " ++ s) =
      some (some (), asciiBytes "id = " ++ s) := opt_of_some (lit_append "," _)
  exact (bind_of_some (orElse_of_some (map_of_some _ (default_append t _)))).trans
    (bind_of_some comma)

theorem many_identifier {n : Nat} (h : 0 < n) (s : Bytes) :
    many fieldOption (asciiBytes "id = " ++ (decimal n ++ 0x20 :: 0x5D :: s)) =
      some ([.identifier (numberToken n)], 0x5D :: s) :=
  many_of_some consumes_fieldOption (fieldOption_identifier h s) (many_of_none rfl)

/-- The options of a field with the given options before its identifier. -/
theorem fieldOptions_append {options : List FieldOption} {text s t : Bytes}
    (bracket : lit "[" text = some ((), s))
    (read : many fieldOption s = some (options, 0x5D :: t)) :
    fieldOptions text = some (options, t.dropWhile isWhitespace) :=
  (bind_of_some bracket).trans ((bind_of_some read).trans (bind_of_some (lit_append "]" t)))

theorem fieldOptions_message {n : Nat} (h : 0 < n) (s : Bytes) :
    fieldOptions (asciiBytes "[ id = " ++ (decimal n ++ (asciiBytes " ];\n" ++ s))) =
      some ([.identifier (numberToken n)], asciiBytes ";\n" ++ s) := by
  have bracket := lit_append "[" (asciiBytes " id = " ++ (decimal n ++ (asciiBytes " ];\n" ++ s)))
  have read := many_identifier h (asciiBytes ";\n" ++ s)
  exact fieldOptions_append bracket read

theorem fieldOptions_scalar (t : ScalarType) {n : Nat} (h : 0 < n) (s : Bytes) :
    fieldOptions (asciiBytes "[ default = " ++ (asciiBytes (ToODVDVisitor.scalarText t).2 ++
        (asciiBytes ", id = " ++ (decimal n ++ (asciiBytes " ];\n" ++ s))))) =
      some ([.default (defaultNode t), .identifier (numberToken n)], asciiBytes ";\n" ++ s) := by
  have bracket := lit_append "[" (asciiBytes " default = " ++
    (asciiBytes (ToODVDVisitor.scalarText t).2 ++
      (asciiBytes ", id = " ++ (decimal n ++ (asciiBytes " ];\n" ++ s)))))
  have read := many_of_some consumes_fieldOption (fieldOption_default t _)
    (many_identifier h (asciiBytes ";\n" ++ s))
  exact fieldOptions_append bracket read

/-! ## Fields -/

theorem primitiveType_scalar (t : ScalarType) (s : Bytes) :
    primitiveType (asciiBytes (ToODVDVisitor.scalarText t).1 ++ 0x20 :: s) =
      some (asciiBytes (ToODVDVisitor.scalarText t).1, s.dropWhile isWhitespace) := by
  cases t <;> exact (token_append (a := ()) rfl).trans rfl

/-- A keyword with which a text begins is the first that is tried. -/
theorem alternatives_of_keyword {s : Bytes} (last : Parser Byte Unit) {keywords : List String} :
    (∃ k ∈ keywords, asciiBytes k <+: s) → ∃ k ∈ keywords, ∃ t, s = asciiBytes k ++ t ∧
      keywords.foldr (fun keyword others => litInToken keyword <|> others) last s =
        some ((), t) := by
  induction keywords with
  | nil => rintro ⟨k, ⟨⟩, -⟩
  | cons k ks ih =>
      intro some'
      rw [List.foldr_cons]
      by_cases here : asciiBytes k <+: s
      · obtain ⟨t, rfl⟩ := here
        exact ⟨k, List.mem_cons_self, t, rfl, orElse_of_some (word_append _ t)⟩
      · obtain ⟨k', member, isPrefix⟩ := some'
        rcases List.mem_cons.mp member with rfl | member
        · exact absurd isPrefix here
        · obtain ⟨k', member, t, split, found⟩ := ih ⟨k', member, isPrefix⟩
          exact ⟨k', List.mem_cons_of_mem _ member, t, split,
            (orElse_of_none (word_of_not_isPrefix here)).trans found⟩

theorem alternatives_of_no_keyword {s : Bytes} (last : Parser Byte Unit)
    {keywords : List String} :
    (∀ k ∈ keywords, ¬ asciiBytes k <+: s) →
      keywords.foldr (fun keyword others => litInToken keyword <|> others) last s = last s := by
  induction keywords with
  | nil => intro _; rfl
  | cons k ks ih =>
      intro none
      obtain ⟨here, others⟩ := List.forall_mem_cons.mp none
      exact (orElse_of_none (word_of_not_isPrefix here)).trans (ih others)

/-- A name of a message type that begins with a keyword. -/
def BeginsWithKeyword (s : Bytes) : Prop := ∃ k ∈ primitiveTypes, asciiBytes k <+: s

instance (s : Bytes) : Decidable (BeginsWithKeyword s) :=
  inferInstanceAs (Decidable (∃ k ∈ primitiveTypes, asciiBytes k <+: s))

theorem prefix_of_prefix_append_blank {k w s : Bytes} (noBlank : (0x20 : Byte) ∉ k)
    (h : k <+: w ++ 0x20 :: s) : k <+: w := by
  induction w generalizing k with
  | nil =>
      cases k with
      | nil => exact List.nil_prefix
      | cons c k =>
          obtain ⟨rfl, -⟩ := List.cons_prefix_cons.mp h
          exact absurd List.mem_cons_self noBlank
  | cons d w ih =>
      cases k with
      | nil => exact List.nil_prefix
      | cons c k =>
          obtain ⟨rfl, rest⟩ := List.cons_prefix_cons.mp h
          exact List.cons_prefix_cons.mpr
            ⟨rfl, ih (fun member => noBlank (List.mem_cons_of_mem _ member)) rest⟩

theorem noBlank_primitiveTypes : ∀ k ∈ primitiveTypes, (0x20 : Byte) ∉ asciiBytes k := by
  intro k member blank
  have isCharacter := (isName_keyword k member).all 0x20 blank
  cases isCharacter

theorem primitiveType_message {w s : Bytes} (isName : IsDottedName w)
    (noKeyword : ¬ BeginsWithKeyword w) (follows : Follows s) :
    primitiveType (w ++ 0x20 :: s) = some (w ++ [0x20], s) := by
  have others : ∀ k ∈ primitiveTypes, ¬ asciiBytes k <+: w ++ 0x20 :: s := fun k member isPrefix =>
    noKeyword ⟨k, member, prefix_of_prefix_append_blank (noBlank_primitiveTypes k member) isPrefix⟩
  have split : w ++ 0x20 :: s = (w ++ [0x20]) ++ s := by simp
  have found := (alternatives_of_no_keyword (do let _ ← messageType) others).trans
    (bind_of_some (messageName_append isName follows))
  rw [split] at found
  have read := token_append found
  rw [← split, follows.dropWhile] at read
  exact read

theorem IsDottedName.dropWhile_append {w : Bytes} (h : IsDottedName w) (s : Bytes) :
    (w ++ s).dropWhile isWhitespace = w ++ s := by
  obtain ⟨first, others, isName, -, rfl⟩ := h
  rw [List.append_assoc]
  exact isName.dropWhile_append _

/-- What can stand in a name of a message type. -/
theorem IsDottedName.all {w : Bytes} (h : IsDottedName w) :
    ∀ c ∈ w, isNameCharacter c ∨ c = 0x2E := by
  obtain ⟨first, others, isName, areNames, rfl⟩ := h
  intro c member
  rcases List.mem_append.mp member with member | member
  · exact .inl (isName.all c member)
  · obtain ⟨n, inOthers, member⟩ := List.mem_flatMap.mp member
    rcases List.mem_cons.mp member with rfl | member
    · exact .inr rfl
    · exact .inl ((areNames n inOthers).all c member)

/-- A text that begins neither with the options of a field, nor its end, nor that of a message. -/
def NoEnd (s : Bytes) : Prop := ∀ c ∈ s.head?, c ≠ 0x5B ∧ c ≠ 0x3B ∧ c ≠ 0x7D

theorem IsName.noEnd {n : Bytes} (h : IsName n) (s : Bytes) : NoEnd (n ++ s) := by
  obtain ⟨c, t, rfl, letter, -⟩ := h
  rintro d ⟨⟩
  refine ⟨?_, ?_, ?_⟩ <;>
    · rintro rfl
      cases letter

/-- What follows a name: the next part of the name of a message type, or the name of a field. -/
theorem noEnd_of_rest {n : Bytes} (isName : IsName n) (s : Bytes) (r : Bytes) :
    (∀ c ∈ r, isNameCharacter c ∨ c = 0x2E) →
      NoEnd (((r ++ 0x20 :: (n ++ s)).dropWhile isNameCharacter).dropWhile isWhitespace) := by
  induction r with
  | nil =>
      intro _
      have blank : ((0x20 : Byte) :: (n ++ s)).dropWhile isNameCharacter = 0x20 :: (n ++ s) := rfl
      have next : ((0x20 : Byte) :: (n ++ s)).dropWhile isWhitespace = n ++ s :=
        (List.dropWhile_cons_of_pos rfl).trans (isName.dropWhile_append s)
      rw [List.nil_append, blank, next]
      exact isName.noEnd s
  | cons c r ih =>
      intro all
      obtain ⟨here, others⟩ := List.forall_mem_cons.mp all
      by_cases character : isNameCharacter c
      · rw [List.cons_append, List.dropWhile_cons_of_pos character]
        exact ih others
      · obtain rfl := here.resolve_left character
        rintro d ⟨⟩
        decide

/-- Behind a name that has been read come all characters that are none of a name. -/
theorem rest_of_name {s w t : Bytes} (h : name s = some (w, t)) :
    t = (s.dropWhile isNameCharacter).dropWhile isWhitespace := by
  cases s with
  | nil => cases h
  | cons c s =>
      by_cases letter : isLetter c
      · rw [name_cons letter] at h
        have character : isNameCharacter c := by
          rw [isNameCharacter, letter, Bool.true_or, Bool.true_or]
        rw [List.dropWhile_cons_of_pos character]
        exact (Prod.mk.inj (Option.some.inj h)).2.symm
      · rw [name_of_not_letter (by simpa using letter)] at h
        cases h

/-- A field needs options or an end. -/
theorem end_of_noEnd {s : Bytes} (h : NoEnd s) (node : List FieldOption → FieldNode) :
    (do
      let options ← opt fieldOptions
      lit ";"
      return node (options.getD [])) s = none := by
  have fails (text : String) {c : Byte} (text_eq : asciiBytes text = [c])
      (other : ∀ d ∈ s.head?, c ≠ d) : lit text s = none := by
    cases s with
    | nil => exact bind_of_none (word_of_not_isPrefix (by rw [text_eq]; simp))
    | cons d s => exact lit_of_ne text_eq (other d rfl)
  have noOptions : fieldOptions s = none :=
    bind_of_none (fails "[" rfl fun d first => Ne.symm (h d first).1)
  have noSemicolon : lit ";" s = none := fails ";" rfl fun d first => Ne.symm (h d first).2.1
  exact (bind_of_some (opt_of_none noOptions)).trans (bind_of_none noSemicolon)

/-- **The name of a message type that begins with a keyword** is not read as a type: the type is
the keyword, and there is no end of the field behind its name. -/
theorem field_of_keyword {w n : Bytes} (dotted : IsDottedName w) (keyword : BeginsWithKeyword w)
    (noKeyword : ∀ k ∈ primitiveTypes, w ≠ asciiBytes k) (isName : IsName n) (s : Bytes) :
    field (w ++ 0x20 :: (n ++ s)) = none := by
  obtain ⟨k₀, member₀, isPrefix⟩ := keyword
  obtain ⟨k, member, t, split, found⟩ := alternatives_of_keyword
    (do let _ ← messageType)
    ⟨k₀, member₀, isPrefix.trans (List.prefix_append w (0x20 :: (n ++ s)))⟩
  have isPrefix : asciiBytes k <+: w :=
    prefix_of_prefix_append_blank (noBlank_primitiveTypes k member) ⟨t, split.symm⟩
  obtain ⟨r, rfl⟩ := isPrefix
  rw [List.append_assoc] at split found
  obtain rfl := List.append_cancel_left split
  have characters := fun c (member : c ∈ r) => dotted.all c (List.mem_append_right _ member)
  have unchanged : (r ++ 0x20 :: (n ++ s)).dropWhile isWhitespace = r ++ 0x20 :: (n ++ s) := by
    cases r with
    | nil => exact absurd (List.append_nil _) (noKeyword k member)
    | cons c r =>
        apply List.dropWhile_cons_of_neg
        rcases characters c List.mem_cons_self with character | rfl
        · rw [isWhitespace_of_isNameCharacter character]
          exact Bool.false_ne_true
        · decide
  have type := token_append found
  rw [unchanged] at type
  rw [List.append_assoc]
  refine (bind_of_some type).trans ?_
  rcases read : name (r ++ 0x20 :: (n ++ s)) with _ | ⟨w, t⟩
  · exact bind_of_none read
  · have noEnd := noEnd_of_rest isName s r characters
    rw [← rest_of_name read] at noEnd
    exact (bind_of_some read).trans (end_of_noEnd noEnd _)

end MessageParser

open MessageParser ToODVDVisitor

/-! ## Lines -/

/-- The name of a type in C++, with `::` for every dot. -/
def colons : Bytes → Bytes
  | [] => []
  | c :: s => if c = 0x2E then 0x3A :: 0x3A :: colons s else c :: colons s

theorem dotted_colons {s : Bytes} (noColon : (0x3A : Byte) ∉ s) : dotted (colons s) = s := by
  induction s with
  | nil => rfl
  | cons c s ih =>
      obtain ⟨other, noColon⟩ := not_or.mp (mt List.mem_cons.mpr noColon)
      rw [colons]
      by_cases dot : c = 0x2E
      · rw [if_pos dot, dot]
        exact congrArg (0x2E :: ·) (ih noColon)
      · rw [if_neg dot, dotted, ih noColon]
        rintro s' rfl
        exact absurd rfl other

/-- A field as `cluon-msc` generates it. A field with a keyword as the name of its type is none of a
nested message. -/
structure GeneratedField (f : FieldInfo × FieldType) : Prop where
  name : IsName f.1.name
  identifier : 0 < f.1.fieldIdentifier.toNat ∧ f.1.fieldIdentifier.toNat < 2 ^ 29
  typeName : ∀ T, f.2 = .message T → f.1.typeName = colons T.info.longName ∧
    IsDottedName T.info.longName ∧ ∀ k ∈ primitiveTypes, T.info.longName ≠ asciiBytes k

/-- The type of a field is read as it is written. -/
def Legible (f : FieldInfo × FieldType) : Prop :=
  ∀ T, f.2 = .message T → ¬ BeginsWithKeyword T.info.longName

/-- The node that a field is read as. -/
def fieldNode : FieldInfo × FieldType → FieldNode
  | (field, .scalar t) =>
      ⟨asciiBytes (scalarText t).1, field.name,
        [.default (defaultNode t), .identifier (numberToken field.fieldIdentifier.toNat)]⟩
  | (field, .message T) =>
      ⟨T.info.longName ++ [0x20], field.name,
        [.identifier (numberToken field.fieldIdentifier.toNat)]⟩

/-- A name and the options behind it. -/
theorem field_append {type text n s t : Bytes} {options : List FieldOption}
    (read : primitiveType text = some (type, n ++ 0x20 :: s)) (isName : IsName n)
    (follows : Follows s) (optionsRead : fieldOptions s = some (options, asciiBytes ";\n" ++ t)) :
    field text = some (⟨type, n, options⟩, t.dropWhile isWhitespace) := by
  have named : name (n ++ 0x20 :: s) = some (n, s) := by
    rw [name_append isName (by rintro c ⟨⟩; rfl), follows.dropWhile_cons]
  have semicolon := lit_append ";" (asciiBytes "\n" ++ t)
  exact (bind_of_some read).trans ((bind_of_some named).trans
    ((bind_of_some (opt_of_some optionsRead)).trans (bind_of_some semicolon)))

/-- The type of a nested message is written as its name. -/
theorem dotted_typeName {field : FieldInfo} {T : MessageType}
    (generated : GeneratedField (field, .message T)) : dotted field.typeName = T.info.longName := by
  obtain ⟨typeName, isDotted, -⟩ := generated.typeName T rfl
  rw [typeName]
  apply dotted_colons
  intro member
  rcases isDotted.all _ member with character | dot
  · cases character
  · cases dot

/-- The line of a nested message behind the blanks. -/
theorem messageLine_eq {field : FieldInfo} {T : MessageType}
    (generated : GeneratedField (field, .message T)) (s : Bytes) :
    (messageLine field ++ s).dropWhile isWhitespace =
      T.info.longName ++ 0x20 :: (field.name ++ (asciiBytes " [ id = " ++
        (decimal field.fieldIdentifier.toNat ++ (asciiBytes " ];\n" ++ s)))) := by
  obtain ⟨-, isDotted, -⟩ := generated.typeName T rfl
  rw [messageLine, dotted_typeName generated]
  simp only [List.append_assoc]
  -- The blanks before the name are skipped one after the other.
  exact isDotted.dropWhile_append _

/-- **Every line is read as the node of its field**, unless the name of its type begins with a
keyword. -/
theorem field_line {f : FieldInfo × FieldType} (generated : GeneratedField f)
    (legible : Legible f) (s : Bytes) :
    field ((line f ++ s).dropWhile isWhitespace) =
      some (fieldNode f, s.dropWhile isWhitespace) := by
  obtain ⟨field, t | T⟩ := f
  · have type := primitiveType_scalar t (field.name ++ (asciiBytes " [ default = " ++
      (asciiBytes (scalarText t).2 ++ (asciiBytes ", id = " ++
        (decimal field.fieldIdentifier.toNat ++ (asciiBytes " ];\n" ++ s))))))
    rw [generated.name.dropWhile_append] at type
    have text : (line (field, .scalar t) ++ s).dropWhile isWhitespace =
        asciiBytes (scalarText t).1 ++ 0x20 :: (field.name ++ (asciiBytes " [ default = " ++
      (asciiBytes (scalarText t).2 ++ (asciiBytes ", id = " ++
        (decimal field.fieldIdentifier.toNat ++ (asciiBytes " ];\n" ++ s)))))) := by
      rw [line, scalarLine]
      simp only [List.append_assoc]
      cases t <;> rfl
    rw [text]
    exact field_append type generated.name (by rintro c ⟨⟩; decide)
      (fieldOptions_scalar t generated.identifier.1 s)
  · obtain ⟨-, dotted, -⟩ := generated.typeName T rfl
    have type := primitiveType_message dotted (legible T rfl) (Follows.of_isName generated.name
      (asciiBytes " [ id = " ++ (decimal field.fieldIdentifier.toNat ++ (asciiBytes " ];\n" ++ s))))
    rw [line, messageLine_eq generated]
    exact field_append type generated.name (by rintro c ⟨⟩; decide)
      (fieldOptions_message generated.identifier.1 s)

theorem many_field_append {fs : List (FieldInfo × FieldType)} (s : Bytes) :
    (∀ f ∈ fs, GeneratedField f) → (∀ f ∈ fs, Legible f) →
      many field ((fs.flatMap line ++ (asciiBytes "\x7d\n" ++ s)).dropWhile isWhitespace) =
        some (fs.map fieldNode, asciiBytes "\x7d\n" ++ s) := by
  induction fs with
  | nil => intro _ _; exact many_of_none rfl
  | cons f fs ih =>
      intro generated legible
      obtain ⟨here, others⟩ := List.forall_mem_cons.mp generated
      obtain ⟨readable, legible⟩ := List.forall_mem_cons.mp legible
      rw [List.flatMap_cons, List.append_assoc]
      exact many_of_some consumes_field (field_line here readable _) (ih others legible)

/-- The fields end where the name of a type begins with a keyword. -/
theorem many_field_of_not_legible {fs : List (FieldInfo × FieldType)} (s : Bytes) :
    (∀ f ∈ fs, GeneratedField f) → (¬ ∀ f ∈ fs, Legible f) →
      ∃ read t, many field ((fs.flatMap line ++ s).dropWhile isWhitespace) = some (read, t) ∧
        NoEnd t := by
  induction fs with
  | nil => intro _ not; exact absurd nofun not
  | cons f fs ih =>
      intro generated not
      obtain ⟨here, others⟩ := List.forall_mem_cons.mp generated
      rw [List.flatMap_cons, List.append_assoc]
      by_cases readable : Legible f
      · obtain ⟨read, t, rest, noEnd⟩ := ih others
          fun all => not (List.forall_mem_cons.mpr ⟨readable, all⟩)
        have first := field_line here readable (fs.flatMap line ++ s)
        exact ⟨fieldNode f :: read, t, many_of_some consumes_field first rest, noEnd⟩
      · obtain ⟨field, t | T⟩ := f
        · exact absurd nofun readable
        · have keyword : BeginsWithKeyword T.info.longName := by
            by_contra noKeyword
            apply readable
            intro T' same
            obtain rfl := FieldType.message.inj same
            exact noKeyword
          obtain ⟨-, dotted, others⟩ := here.typeName T rfl
          have fails := field_of_keyword dotted keyword others here.name
            (asciiBytes " [ id = " ++ (decimal field.fieldIdentifier.toNat ++
              (asciiBytes " ];\n" ++ (fs.flatMap line ++ s))))
          refine ⟨[], _, many_of_none ?_, ?_⟩
          · rw [line, messageLine_eq here]
            exact fails
          · rw [line, messageLine_eq here]
            obtain ⟨first, others, isName, -, split⟩ := dotted
            rw [split, List.append_assoc]
            exact isName.noEnd _

end Cluon
