import Cluon.JSON.Base64
import Cluon.JSON.Members

/-!
# The values of scalars in JSON

What the decoder takes of the text of a value (`JSONValue.ofValue`), and what it leaves of it
(`ScalarType.leftover`). Numbers are taken as a whole. Of what stands between quotes the first
alternative of the pattern that fits takes a beginning, so that a string or a character gets its
value from the entry only if the whole content is taken (`castTo_ofValue`).
-/

set_option autoImplicit false

namespace Cluon

open Library JSON stringtoolbox

/-- A data type whose values are written as text that is read back, if anything is: not a
floating-point number, and not an integer of 64 bits, which may be rounded. -/
def ScalarType.InJSON : ScalarType → Prop
  | .int64 | .uint64 | .float | .double => False
  | _ => True

/-- The integer that is written for a Boolean or for an integer. -/
def ScalarType.jsonNumber : (t : ScalarType) → t.Value → ℤ
  | .bool, v => if v then 1 else 0
  | .int8, v | .int16, v | .int32, v | .int64, v => BitVec.toInt v
  | .uint8, v | .uint16, v | .uint32, v | .uint64, v => BitVec.toNat v
  | _, _ => 0

/-- What is written for a character, without white space. -/
def JSON.charContent (c : Byte) : Bytes := [c].filter fun c => !isSpace c

/-- What is written between quotes, without white space. -/
def ScalarType.jsonContent : (t : ScalarType) → t.Value → Option Bytes
  | .char, v => some (charContent v)
  | .bytes, v | .string, v => some (encodeBase64 v)
  | _, _ => none

/-! ## Between quotes -/

namespace JSON

/-- What is left of a content and the quote behind it. -/
def quotedLeftover (x : Bytes) : Bytes := dropQuote (contentRest x ++ [quote])

/-- What is taken of a content and the quote behind it. -/
def quotedRead (x : Bytes) : Bytes :=
  (x ++ [quote]).take ((x ++ [quote]).length - (quotedLeftover x).length)

theorem dropQuote_suffix (s : Bytes) : dropQuote s <:+ s := by
  cases s with
  | nil => exact List.suffix_rfl
  | cons c s =>
      rw [dropQuote]
      split
      · exact List.suffix_cons c s
      · exact List.suffix_rfl

theorem dropMinus_suffix (s : Bytes) : dropMinus s <:+ s := by
  cases s with
  | nil => exact List.suffix_rfl
  | cons c s =>
      rw [dropMinus]
      split
      · exact List.suffix_cons c s
      · exact List.suffix_rfl

theorem numberRest_suffix {w t : Bytes} (h : numberRest w = some t) : t <:+ w := by
  rw [numberRest] at h
  split at h
  · rename_i c s rest
    split at h
    · obtain rfl := Option.some.inj h
      have inner := (List.dropWhile_suffix isDigit).trans (List.suffix_cons c s)
      exact (rest ▸ inner).trans (dropMinus_suffix w)
    · cases h
  · cases h

theorem contentRest_suffix (w : Bytes) : contentRest w <:+ w := by
  rw [contentRest]
  split
  · exact List.drop_suffix 4 w
  split
  · exact List.drop_suffix 5 w
  cases number : numberRest w with
  | some t => exact numberRest_suffix number
  | none => exact List.dropWhile_suffix isPlain

theorem prefix_append_cons {w x t : Bytes} {c : Byte} (other : c ∉ w) :
    w <+: x ++ c :: t ↔ w <+: x := by
  constructor
  · rintro ⟨s, whole⟩
    rcases List.append_eq_append_iff.mp whole with ⟨a, rfl, _⟩ | ⟨a, rfl, behind⟩
    · exact List.prefix_append w a
    · cases a with
      | nil => rw [List.append_nil]
      | cons d a =>
          obtain ⟨rfl, _⟩ := List.cons_eq_cons.mp behind
          exact absurd (by simp) other
  · exact fun h => h.trans (List.prefix_append x _)

theorem dropWhile_append_cons {p : Byte → Bool} {c : Byte} (stop : p c = false) (x t : Bytes) :
    (x ++ c :: t).dropWhile p = x.dropWhile p ++ c :: t := by
  induction x with
  | nil => rw [List.nil_append, List.dropWhile_cons_of_neg (by simp [stop])]; rfl
  | cons d x ih =>
      by_cases h : p d
      · rw [List.cons_append, List.dropWhile_cons_of_pos h, List.dropWhile_cons_of_pos h, ih]
      · rw [List.cons_append, List.dropWhile_cons_of_neg h, List.dropWhile_cons_of_neg h]
        rfl

/-- A number does not reach beyond a quote. -/
theorem numberRest_append (x t : Bytes) :
    numberRest (x ++ quote :: t) = (numberRest x).map (· ++ quote :: t) := by
  have minus : dropMinus (x ++ quote :: t) = dropMinus x ++ quote :: t := by
    cases x with
    | nil => rfl
    | cons c x =>
        rw [List.cons_append, dropMinus, dropMinus]
        split <;> rfl
  rw [numberRest, numberRest, minus]
  cases dropMinus x with
  | nil => rfl
  | cons c s =>
      simp only [List.cons_append]
      rw [dropWhile_append_cons (by decide)]
      split <;> rfl

/-- **The content of a value ends at a quote.** -/
theorem contentRest_append (x t : Bytes) :
    contentRest (x ++ quote :: t) = contentRest x ++ quote :: t := by
  have noTrue := prefix_append_cons (w := asciiBytes "true") (x := x) (t := t) (c := quote)
    (by decide)
  have noFalse := prefix_append_cons (w := asciiBytes "false") (x := x) (t := t) (c := quote)
    (by decide)
  rw [contentRest, contentRest]
  by_cases isTrue : asciiBytes "true" <+: x
  · have four : 4 ≤ x.length := isTrue.length_le
    rw [if_pos (noTrue.mpr isTrue), if_pos isTrue, List.drop_append_of_le_length four]
  rw [if_neg (mt noTrue.mp isTrue), if_neg isTrue]
  by_cases isFalse : asciiBytes "false" <+: x
  · have five : 5 ≤ x.length := isFalse.length_le
    rw [if_pos (noFalse.mpr isFalse), if_pos isFalse, List.drop_append_of_le_length five]
  rw [if_neg (mt noFalse.mp isFalse), if_neg isFalse, numberRest_append,
    dropWhile_append_cons (by decide)]
  cases numberRest x <;> rfl

theorem dropQuote_contentRest_append (x t : Bytes) :
    dropQuote (contentRest x ++ quote :: t) = quotedLeftover x ++ t := by
  rw [quotedLeftover]
  cases contentRest x with
  | nil => rfl
  | cons c s =>
      simp only [List.cons_append, dropQuote]
      split
      · rw [List.append_assoc]; rfl
      · rw [List.cons_append, List.append_assoc]; rfl

theorem quotedRead_append (x : Bytes) : quotedRead x ++ quotedLeftover x = x ++ [quote] := by
  have suffix : quotedLeftover x <:+ x ++ [quote] := by
    obtain ⟨a, split⟩ := contentRest_suffix x
    refine (dropQuote_suffix _).trans ⟨a, ?_⟩
    rw [← List.append_assoc, split]
  obtain ⟨a, split⟩ := suffix
  rw [quotedRead, ← split]
  simp

/-- A content in which the pattern finds its way: there is no point behind digits, no colon is
taken, and what is left is skipped. -/
structure Quotable (x : Bytes) : Prop where
  noPoint : ∀ t, numberRest x = some t → ∀ c ∈ t.head?, c ≠ 0x2E
  noColon : colon ∉ quotedRead x
  remainder : Remainder (quotedLeftover x)

/-- **What is taken of a value between quotes.** -/
theorem first_valuePattern_content {x : Bytes} (quotable : Quotable x) (after : Bytes) :
    valuePattern.first (quote :: x ++ quote :: after) = some (quotedLeftover x ++ after) := by
  rw [List.cons_append, first_valuePattern_quoted, contentRest_append,
    dropQuote_contentRest_append]
  intro t number c hc
  rw [numberRest_append, Option.map_eq_some_iff] at number
  obtain ⟨s, number, rfl⟩ := number
  cases s with
  | nil =>
      obtain rfl := Option.some.inj hc
      decide
  | cons d s => exact quotable.noPoint _ number c hc

/-! ## Characters and strings -/

/-- What is taken of a character and what is left of it, decided for each of the bytes. -/
theorem charContent_cases (c : Byte) :
    (quotedLeftover (charContent c) = [] ∨ quotedLeftover (charContent c) = [quote] ∨
      quotedLeftover (charContent c) = [c, quote] ∧ c ≠ quote ∧ c ≠ apostrophe) ∧
    (numberRest (charContent c) = none ∨ numberRest (charContent c) = some []) ∧
    colon ∉ quotedRead (charContent c) ∧
    ((quotedRead (charContent c)).head? = some c ↔
      isPlain c ∧ c ≠ (0x20 : Byte) ∨ c = quote ∨ c = apostrophe) := by
  revert c
  decide +kernel

theorem quotable_charContent (c : Byte) : Quotable (charContent c) where
  noPoint := by
    intro t number d hd
    obtain ⟨_, none | one, _⟩ := charContent_cases c
    · rw [none] at number
      cases number
    · rw [one] at number
      obtain rfl := Option.some.inj number
      cases hd
  noColon := (charContent_cases c).2.2.1
  remainder := by
    rcases (charContent_cases c).1 with none | one | ⟨two, plain⟩
    · rw [none]
      exact .plain fun _ h => absurd h List.not_mem_nil
    · rw [one]
      exact .stray (a := []) (p := []) (fun _ h => absurd h List.not_mem_nil)
        fun _ h => absurd h List.not_mem_nil
    · rw [two]
      refine .stray (a := [c]) (p := []) (fun d hd => ?_) fun _ h => absurd h List.not_mem_nil
      rw [List.mem_singleton.mp hd]
      exact plain

/-- The characters of base64. -/
theorem isBase64_cases {c : Byte} (h : isBase64 c) :
    isLetter c ∨ isDigit c ∨ c = 0x2B ∨ c = 0x2F ∨ c = 0x3D := by
  have alphabet : (base64Alphabet.all fun c => isLetter c || isDigit c || c == 0x2B ||
      c == 0x2F || c == 0x3D) = true := by
    decide +kernel
  rw [isBase64, Bool.or_eq_true, List.contains_iff_mem, beq_iff_eq] at h
  rcases h with member | padding
  · have kind := List.all_eq_true.mp alphabet c member
    simp only [Bool.or_eq_true, beq_iff_eq, or_assoc] at kind
    exact kind
  · exact .inr (.inr (.inr (.inr padding)))

/-- A character of base64 has no meaning for the pattern. -/
theorem ordinary_of_isBase64 {c : Byte} (h : isBase64 c) : isOrdinary c ∧ c ≠ 0x2E := by
  rcases isBase64_cases h with letter | digit | rfl | rfl | rfl
  · refine ⟨isOrdinary_of_letter letter, ?_⟩
    rintro rfl
    exact absurd letter (by decide)
  · refine ⟨isOrdinary_of_digit digit, ?_⟩
    rintro rfl
    exact absurd digit (by decide)
  · decide
  · decide
  · decide

theorem quotable_base64 {x : Bytes} (text : ∀ c ∈ x, isBase64 c) : Quotable x where
  noPoint t number c hc := by
    have here : c ∈ x := (numberRest_suffix number).subset (List.mem_of_mem_head? hc)
    exact (ordinary_of_isBase64 (text c here)).2
  noColon h := by
    have here : colon ∈ x ++ [quote] := List.take_subset _ _ h
    rcases List.mem_append.mp here with inside | outside
    · exact ne_colon_of_isOrdinary (ordinary_of_isBase64 (text _ inside)).1 rfl
    · exact absurd (List.mem_singleton.mp outside) (by decide)
  remainder := by
    have plain : NoQuotes (contentRest x) := by
      intro c hc
      have ordinary := (ordinary_of_isBase64 (text c ((contentRest_suffix x).subset hc))).1
      exact ⟨ne_quote_of_isOrdinary ordinary, ne_apostrophe_of_isOrdinary ordinary⟩
    rw [quotedLeftover]
    cases rest : contentRest x with
    | nil => exact .plain fun _ h => absurd h List.not_mem_nil
    | cons c s =>
        rw [rest] at plain
        have first := plain c List.mem_cons_self
        rw [List.cons_append, dropQuote, if_neg (not_or.mpr first), ← List.cons_append]
        exact .stray plain fun _ h => absurd h List.not_mem_nil

/-! ## Numbers -/

theorem head_decimalInt {n : ℤ} {c : Byte} {s : Bytes} (h : decimalInt n = c :: s) :
    isDigit c ∨ c = 0x2D := by
  rw [decimalInt] at h
  split at h
  · obtain ⟨rfl, _⟩ := List.cons_eq_cons.mp h
    exact .inr rfl
  · exact .inl (all_isDigit_decimal _ c (h ▸ List.mem_cons_self))

theorem decimalInt_ne_nil (n : ℤ) : decimalInt n ≠ [] := by
  rw [decimalInt]
  split
  · exact List.cons_ne_nil _ _
  · exact decimal_ne_nil _

theorem all_decimalInt (n : ℤ) : ∀ c ∈ decimalInt n, isDigit c ∨ c = 0x2D := by
  intro c hc
  rw [decimalInt] at hc
  split at hc
  · rcases List.mem_cons.mp hc with rfl | hc
    · exact .inr rfl
    · exact .inl (all_isDigit_decimal _ c hc)
  · exact .inl (all_isDigit_decimal _ c hc)

theorem ordinary_of_number {c : Byte} (h : isDigit c ∨ c = 0x2D) : isOrdinary c := by
  rcases h with digit | rfl
  · exact isOrdinary_of_digit digit
  · decide

/-- **A number is taken as a whole**, if no digit, point, or quote follows. -/
theorem first_valuePattern_number (n : ℤ) {after : Bytes}
    (stop : ∀ c ∈ after.head?, isDigit c = false ∧ c ≠ 0x2E ∧ c ≠ quote ∧ c ≠ apostrophe) :
    valuePattern.first (decimalInt n ++ after) = some after := by
  have end_ : (after.dropWhile isDigit) = after := by
    cases after with
    | nil => rfl
    | cons c s => exact List.dropWhile_cons_of_neg (by simp [(stop c rfl).1])
  have digits (m : Nat) : dropMinus (decimal m ++ after) = decimal m ++ after ∧
      ∃ c s, decimal m = c :: s ∧ isDigit c ∧ (s ++ after).dropWhile isDigit = after := by
    cases text : decimal m with
    | nil => exact absurd text (decimal_ne_nil m)
    | cons c s =>
        have all := all_isDigit_decimal m
        rw [text] at all
        have digit := all c List.mem_cons_self
        refine ⟨if_neg (minus_of_isDigit digit), c, s, rfl, digit, ?_⟩
        rw [List.dropWhile_append_of_pos fun d hd => all d (List.mem_cons_of_mem _ hd), end_]
  have number : numberRest (decimalInt n ++ after) = some after := by
    have tail (m : Nat) (w : Bytes) (minus : dropMinus w = decimal m ++ after) :
        numberRest w = some after := by
      obtain ⟨_, c, s, text, digit, rest⟩ := digits m
      rw [numberRest, minus, text]
      simp only [List.cons_append, digit, if_true, rest]
    rw [decimalInt]
    split
    · exact tail n.natAbs _ rfl
    · exact tail n.natAbs _ (digits n.natAbs).1
  cases text : decimalInt n with
  | nil => exact absurd text (decimalInt_ne_nil n)
  | cons c s =>
      have head := head_decimalInt text
      have ordinary := ordinary_of_number head
      have notTrue : ¬ asciiBytes "true" <+: c :: (s ++ after) := by
        intro h
        obtain ⟨rfl, _⟩ := List.cons_prefix_cons.mp (show 0x74#8 :: _ <+: _ from h)
        exact absurd head (by decide)
      have notFalse : ¬ asciiBytes "false" <+: c :: (s ++ after) := by
        intro h
        obtain ⟨rfl, _⟩ := List.cons_prefix_cons.mp (show 0x66#8 :: _ <+: _ from h)
        exact absurd head (by decide)
      rw [text, List.cons_append] at number
      have content : contentRest (c :: (s ++ after)) = after := by
        rw [contentRest, if_neg notTrue, if_neg notFalse, number]
        rfl
      have drop : dropQuote after = after := by
        cases after with
        | nil => rfl
        | cons d t => exact if_neg (not_or.mpr (stop d rfl).2.2)
      rw [List.cons_append, first_valuePattern_unquoted
        ⟨ne_quote_of_isOrdinary ordinary, ne_apostrophe_of_isOrdinary ordinary⟩, content, drop]
      intro t same d hd
      rw [number, Option.some.injEq] at same
      exact (stop d (same ▸ hd)).2.1

end JSON

/-! ## Scalars -/

/-- What the decoder stores for the value of a scalar. -/
def JSONValue.ofValue (t : ScalarType) (v : t.Value) : JSONValue :=
  match t.jsonContent v with
  | some x => .string (quotedRead x)
  | none => .number (readDouble (decimalInt (t.jsonNumber v)))

/-- What the decoder leaves of the text of a scalar. -/
def ScalarType.leftover (t : ScalarType) (v : t.Value) : Bytes :=
  match t.jsonContent v with
  | some x => quotedLeftover x
  | none => []

theorem ScalarType.quotable_jsonContent {t : ScalarType} {v : t.Value} {x : Bytes}
    (h : t.jsonContent v = some x) : Quotable x := by
  cases t with
  | char =>
      obtain rfl := Option.some.inj h
      exact quotable_charContent v
  | bytes | string =>
      obtain rfl := Option.some.inj h
      exact quotable_base64 (all_isBase64 v)
  | bool | int8 | uint8 | int16 | uint16 | int32 | uint32 | int64 | uint64 | float | double =>
      cases h

theorem ScalarType.remainder_leftover (t : ScalarType) (v : t.Value) :
    Remainder (t.leftover v) := by
  rw [leftover]
  cases content : t.jsonContent v with
  | some x => exact (quotable_jsonContent content).remainder
  | none => exact .plain fun _ h => absurd h List.not_mem_nil

/-- The text of a value, without white space, stands between quotes or is a number. -/
theorem ToJSONVisitor.compactText_eq (F : FloatFormat) {t : ScalarType} (inJSON : t.InJSON)
    (v : t.Value) : compactText F t v =
      match t.jsonContent v with
      | some x => quote :: x ++ [quote]
      | none => decimalInt (t.jsonNumber v) := by
  have keeps {s : Bytes} (plain : ∀ c ∈ s, isOrdinary c) : s.filter (fun c => !isSpace c) = s := by
    apply List.filter_eq_self.mpr
    intro c hc
    have ordinary := plain c hc
    rw [isOrdinary, Bool.and_eq_true] at ordinary
    exact ordinary.2
  have number (n : ℤ) : (decimalInt n).filter (fun c => !isSpace c) = decimalInt n :=
    keeps fun c hc => ordinary_of_number (all_decimalInt n c hc)
  have natural (n : Nat) : decimal n = decimalInt n := (decimalInt_natCast n).symm
  have quotes (s : Bytes) : (quote :: s ++ [quote]).filter (fun c => !isSpace c) =
      quote :: s.filter (fun c => !isSpace c) ++ [quote] := by
    have kept : isSpace quote = false := by decide
    simp [List.filter_append, kept]
  cases t with
  | bool => cases v <;> rfl
  | char => exact quotes [v]
  | int8 | int16 | int32 => exact number _
  | uint8 | uint16 | uint32 => exact (congrArg _ (natural _)).trans (number _)
  | bytes | string =>
      refine (quotes (encodeBase64 v)).trans ?_
      rw [keeps fun c hc => (ordinary_of_isBase64 (all_isBase64 v c hc)).1]
      rfl
  | int64 | uint64 | float | double => exact absurd inJSON not_false

/-- What the decoder takes of the text of an integer and what it makes of it. -/
theorem match_decimalInt (n : ℤ) {after : Bytes}
    (next : ∀ c ∈ after.head?, c = comma ∨ c = closeBrace) :
    valuePattern.first (decimalInt n ++ after) = some after ∧
      (decimalInt n ≠ [] ∧ colon ∉ decimalInt n) ∧
      JSONValue.ofText (decimalInt n) = .number (readDouble (decimalInt n)) ∧
      ∀ c ∈ (decimalInt n ++ after).head?, isSpace c = false := by
  have stop : ∀ c ∈ after.head?, isDigit c = false ∧ c ≠ 0x2E ∧ c ≠ quote ∧ c ≠ apostrophe := by
    intro c hc
    rcases next c hc with rfl | rfl
    · decide
    · decide
  refine ⟨first_valuePattern_number n stop, ⟨decimalInt_ne_nil _, fun h => ?_⟩, ?_⟩
  · exact ne_colon_of_isOrdinary (ordinary_of_number (all_decimalInt _ _ h)) rfl
  cases digits : decimalInt n with
  | nil => exact absurd digits (decimalInt_ne_nil _)
  | cons c s =>
      have head := head_decimalInt digits
      have ordinary := ordinary_of_number head
      have noQuote : ¬ (c :: s).head? = some quote := by
        intro h
        obtain rfl := Option.some.inj h
        exact ne_quote_of_isOrdinary ordinary rfl
      have noWord : ¬ (c :: s = asciiBytes "false" ∨ c :: s = asciiBytes "true") := by
        rintro (h | h)
        · obtain ⟨rfl, _⟩ := List.cons_eq_cons.mp (show c :: s = 0x66#8 :: _ from h)
          exact absurd head (by decide)
        · obtain ⟨rfl, _⟩ := List.cons_eq_cons.mp (show c :: s = 0x74#8 :: _ from h)
          exact absurd head (by decide)
      refine ⟨?_, fun d hd => ?_⟩
      · rw [JSONValue.ofText, if_neg noQuote, if_neg noWord]
      · obtain rfl := Option.some.inj hd
        rw [isOrdinary, Bool.and_eq_true, Bool.not_eq_true'] at ordinary
        exact ordinary.2

/-- **What the decoder takes of the text of a scalar** and what it makes of it. -/
theorem ScalarType.match_compactText (F : FloatFormat) {t : ScalarType} (inJSON : t.InJSON)
    (v : t.Value) {after : Bytes} (next : ∀ c ∈ after.head?, c = comma ∨ c = closeBrace) :
    ∃ second, ToJSONVisitor.compactText F t v ++ after = second ++ (t.leftover v ++ after) ∧
      valuePattern.first (ToJSONVisitor.compactText F t v ++ after) =
        some (t.leftover v ++ after) ∧
      (second ≠ [] ∧ colon ∉ second) ∧ JSONValue.ofText second = JSONValue.ofValue t v ∧
      ∀ c ∈ (ToJSONVisitor.compactText F t v ++ after).head?, isSpace c = false := by
  rw [ToJSONVisitor.compactText_eq F inJSON v, JSONValue.ofValue, leftover]
  cases content : t.jsonContent v with
  | some x =>
      have quotable := quotable_jsonContent content
      have whole : quote :: x ++ [quote] ++ after =
          (quote :: quotedRead x) ++ (quotedLeftover x ++ after) := by
        rw [List.cons_append, List.cons_append, ← quotedRead_append, List.append_assoc]
        rfl
      have text : quote :: x ++ [quote] ++ after = quote :: x ++ quote :: after := by
        rw [List.append_assoc]
        rfl
      refine ⟨quote :: quotedRead x, whole, ?_, ⟨List.cons_ne_nil _ _, ?_⟩, ?_, ?_⟩
      · rw [text]
        exact first_valuePattern_content quotable after
      · rintro (_ | ⟨_, inside⟩)
        exact quotable.noColon inside
      · exact if_pos rfl
      · intro c hc
        obtain rfl := Option.some.inj hc
        decide
  | none =>
      obtain ⟨first, some, any, noSpace⟩ := match_decimalInt (t.jsonNumber v) next
      exact ⟨_, rfl, first, some, any, noSpace⟩

/-! ## Readable values -/

/-- A base64 text that the pattern takes as a whole: the word for the Boolean value, only
digits, or neither a digit nor one of the words for Boolean values at the beginning and no slash
anywhere. -/
def JSON.ReadableText (x : Bytes) : Prop :=
  x = asciiBytes "true" ∨ (∀ c ∈ x, isDigit c) ∨
    (¬ asciiBytes "true" <+: x ∧ ¬ asciiBytes "false" <+: x ∧
      (∀ c ∈ x.head?, isDigit c = false) ∧ (0x2F : Byte) ∉ x)

/-- A value of a scalar field that the decoder reads back from its text. -/
def ScalarType.JSONReadable : (t : ScalarType) → t.Value → Prop
  | .char, c => isPlain c ∧ c ≠ (0x20 : Byte) ∨ c = quote ∨ c = apostrophe
  | .bytes, s | .string, s => s.length ≤ 3 * (2 ^ 30 - 1) ∧ ReadableText (encodeBase64 s)
  | _, _ => True

theorem isPlain_iff_of_isBase64 {c : Byte} (h : isBase64 c) : isPlain c ↔ c ≠ 0x2F := by
  rcases isBase64_cases h with letter | digit | rfl | rfl | rfl
  · have plain : isPlain c := by
      rw [isPlain, decide_eq_true (.inr (of_decide_eq_true letter)), Bool.true_or]
    refine iff_of_true plain ?_
    rintro rfl
    exact absurd letter (by decide)
  · have plain : isPlain c := by
      rw [isPlain, decide_eq_true (.inl (of_decide_eq_true digit)), Bool.true_or]
    refine iff_of_true plain ?_
    rintro rfl
    exact absurd digit (by decide)
  · decide
  · decide
  · decide

/-- Nothing is left of a text that begins with no literal if it is readable. -/
theorem numberRest_eq_nil_iff {x : Bytes} (text : ∀ c ∈ x, isBase64 c)
    (isTrue : ¬ asciiBytes "true" <+: x) (isFalse : ¬ asciiBytes "false" <+: x) :
    (numberRest x).getD (x.dropWhile isPlain) = [] ↔ ReadableText x := by
  have notTrue : x ≠ asciiBytes "true" := by
    rintro rfl
    exact isTrue List.prefix_rfl
  rw [ReadableText]
  cases x with
  | nil =>
      refine iff_of_true rfl (.inr (.inl fun _ h => absurd h List.not_mem_nil))
  | cons c s =>
      have noMinus : dropMinus (c :: s) = c :: s := by
        apply if_neg
        rintro rfl
        exact absurd (isBase64_cases (text _ List.mem_cons_self)) (by decide)
      rw [numberRest, noMinus]
      by_cases digit : isDigit c
      · simp only [digit, if_true, Option.getD_some, List.dropWhile_eq_nil_iff]
        constructor
        · intro others
          refine .inr (.inl fun d hd => ?_)
          rcases List.mem_cons.mp hd with rfl | hd
          · exact digit
          · exact others d hd
        · rintro (same | digits | ⟨_, _, head, _⟩)
          · exact absurd same notTrue
          · exact fun d hd => digits d (List.mem_cons_of_mem c hd)
          · exact absurd ((head c rfl).symm.trans digit) Bool.false_ne_true
      · have noDigit : isDigit c = false := Bool.eq_false_iff.mpr digit
        simp only [noDigit, Bool.false_eq_true, if_false, Option.getD_none,
          List.dropWhile_eq_nil_iff]
        constructor
        · intro plain
          refine .inr (.inr ⟨isTrue, isFalse, fun d hd => ?_, fun slash => ?_⟩)
          · obtain rfl := Option.some.inj hd
            exact noDigit
          · exact (isPlain_iff_of_isBase64 (text _ slash)).mp (plain _ slash) rfl
        · rintro (same | digits | ⟨_, _, _, noSlash⟩)
          · exact absurd same notTrue
          · exact absurd (digits c List.mem_cons_self) digit
          · intro d hd
            refine (isPlain_iff_of_isBase64 (text d hd)).mpr ?_
            rintro rfl
            exact noSlash hd

/-- **Nothing is left of a readable text**, and of no other. -/
theorem contentRest_eq_nil_iff {x : Bytes} (text : ∀ c ∈ x, isBase64 c) (fours : 4 ∣ x.length) :
    contentRest x = [] ↔ ReadableText x := by
  rw [contentRest]
  by_cases isTrue : asciiBytes "true" <+: x
  · obtain ⟨s, rfl⟩ := isTrue
    rw [if_pos (List.prefix_append _ _)]
    have drop : (asciiBytes "true" ++ s).drop 4 = s := rfl
    rw [drop]
    constructor
    · rintro rfl
      exact .inl (List.append_nil _)
    · rintro (same | digits | ⟨other, _⟩)
      · exact List.append_cancel_left (same.trans (List.append_nil _).symm)
      · exact absurd (digits 0x74 (List.mem_append_left s (by decide))) (by decide)
      · exact absurd (List.prefix_append _ _) other
  have notTrue : x ≠ asciiBytes "true" := by
    rintro rfl
    exact isTrue List.prefix_rfl
  rw [if_neg isTrue]
  by_cases isFalse : asciiBytes "false" <+: x
  · obtain ⟨s, rfl⟩ := isFalse
    rw [if_pos (List.prefix_append _ _)]
    have drop : (asciiBytes "false" ++ s).drop 5 = s := rfl
    rw [drop]
    constructor
    · rintro rfl
      have five : (asciiBytes "false" ++ []).length = 5 := rfl
      rw [five] at fours
      exact absurd fours (by decide)
    · rintro (same | digits | ⟨_, other, _⟩)
      · exact absurd same notTrue
      · exact absurd (digits 0x66 (List.mem_append_left s (by decide))) (by decide)
      · exact absurd (List.prefix_append _ _) other
  rw [if_neg isFalse]
  exact numberRest_eq_nil_iff text isTrue isFalse

/-- What is taken of a text of which nothing is left. -/
theorem quotedRead_of_nil {x : Bytes} (none : contentRest x = []) :
    quotedRead x = x ++ [quote] := by
  have left : quotedLeftover x = [] := by
    rw [quotedLeftover, none]
    rfl
  rw [← quotedRead_append, left, List.append_nil]

/-- Less than the text is taken if something is left of it. -/
theorem length_quotedRead_lt {x : Bytes} (text : ∀ c ∈ x, isBase64 c)
    (some : contentRest x ≠ []) : (quotedRead x).length < x.length := by
  have whole := congrArg List.length (quotedRead_append x)
  have left : 2 ≤ (quotedLeftover x).length := by
    rw [quotedLeftover]
    cases rest : contentRest x with
    | nil => exact absurd rest some
    | cons c s =>
        have here : c ∈ x := (contentRest_suffix x).subset (rest ▸ List.mem_cons_self)
        have ordinary := (ordinary_of_isBase64 (text c here)).1
        have noQuote : ¬ (c = quote ∨ c = apostrophe) := not_or.mpr
          ⟨ne_quote_of_isOrdinary ordinary, ne_apostrophe_of_isOrdinary ordinary⟩
        rw [List.cons_append, dropQuote, if_neg noQuote]
        simp
  simp only [List.length_append, List.length_cons, List.length_nil] at whole
  omega

/-- **A string is decoded from what is taken of its text if and only if that is all of it.** -/
theorem decodeBase64_quotedRead_iff (s : Bytes) :
    decodeBase64 (quotedRead (encodeBase64 s)) = some s ↔
      s.length ≤ 3 * (2 ^ 30 - 1) ∧ ReadableText (encodeBase64 s) := by
  have length := length_encodeBase64 s
  have text := all_isBase64 s
  have fours : 4 ∣ (encodeBase64 s).length := ⟨_, length⟩
  rw [← contentRest_eq_nil_iff text fours]
  constructor
  · intro decoded
    by_cases none : contentRest (encodeBase64 s) = []
    · refine ⟨?_, none⟩
      rw [quotedRead_of_nil none, decodeBase64] at decoded
      split at decoded
      · rename_i short
        rw [List.length_append, length, List.length_singleton] at short
        omega
      · cases decoded
    · have shorter := length_quotedRead_lt text none
      rw [decodeBase64] at decoded
      split at decoded
      · have bytes := length_decodeBase64Groups (quotedRead (encodeBase64 s))
        rw [Option.some.inj decoded] at bytes
        omega
      · cases decoded
  · rintro ⟨small, none⟩
    rw [quotedRead_of_nil none]
    exact decodeBase64_encodeBase64 small (by simp)

theorem castToInt_readDouble (F : FloatFormat) {signed : Bool} {w : Nat} {n : ℤ}
    (small : |n| < 2 ^ 53) (inRange : JSONValue.IsInteger signed w n) :
    JSONValue.castToInt F signed w (readDouble (decimalInt n)) = BitVec.ofInt w n := by
  rw [JSONValue.castToInt, readDouble_decimalInt small, truncate_intCast, if_pos inRange]

/-- **A scalar gets its value from the entry if and only if the value is readable.** -/
theorem castTo_ofValue_iff (F : FloatFormat) {t : ScalarType} (inJSON : t.InJSON) (v : t.Value) :
    JSONValue.castTo F t (.ofValue t v) = .ok v ↔ t.JSONReadable v := by
  have signed {w : Nat} (hw : w ≤ 32) (x : BitVec w) :
      JSONValue.castToInt F true w (readDouble (decimalInt x.toInt)) = x := by
    have lower := BitVec.le_toInt x
    have upper := BitVec.toInt_lt (x := x)
    have power : (2 : ℤ) ^ (w - 1) ≤ 2 ^ 31 := pow_le_pow_right₀ (by norm_num) (by omega)
    have inRange : JSONValue.IsInteger true w x.toInt := ⟨lower, upper⟩
    rw [castToInt_readDouble F (by rw [abs_lt]; constructor <;> omega) inRange,
      BitVec.ofInt_toInt]
  have unsigned {w : Nat} (hw : w ≤ 32) (x : BitVec w) :
      JSONValue.castToInt F false w (readDouble (decimalInt x.toNat)) = x := by
    have upper : x.toNat < 2 ^ 32 :=
      x.isLt.trans_le (Nat.pow_le_pow_right (by norm_num) hw)
    have inRange : JSONValue.IsInteger false w x.toNat :=
      ⟨Int.natCast_nonneg _, by exact_mod_cast x.isLt⟩
    rw [castToInt_readDouble F (by rw [abs_lt]; constructor <;> omega) inRange]
    exact BitVec.eq_of_toNat_eq (by simp)
  cases t with
  | bool =>
      refine iff_of_true ?_ trivial
      have number : JSONValue.castToInt F false 32 (readDouble (decimalInt (if v then 1 else 0))) =
          if v then 1 else 0 := by
        cases v
        · exact castToInt_readDouble F (by norm_num) (by decide)
        · exact castToInt_readDouble F (by norm_num) (by decide)
      change Except.ok (decide (JSONValue.castToInt F false 32
        (readDouble (decimalInt (if v then 1 else 0))) = 1)) = _
      rw [number]
      cases v <;> rfl
  | char =>
      rw [ScalarType.JSONReadable, ← (charContent_cases v).2.2.2]
      have cast : JSONValue.castTo F .char (.ofValue .char v) =
          (quotedRead (charContent v)).head?.elim (.error .outOfRange) .ok := by
        rw [JSONValue.ofValue]
        simp only [ScalarType.jsonContent, JSONValue.castTo, JSONValue.castToString, bind,
          Except.bind]
        cases quotedRead (charContent v) with
        | nil => rfl
        | cons c s => rfl
      rw [cast]
      cases (quotedRead (charContent v)).head? with
      | none => simp
      | some c => simp
  | int8 | int16 | int32 =>
      exact iff_of_true (congrArg Except.ok (signed (by norm_num) v)) trivial
  | uint8 | uint16 | uint32 =>
      exact iff_of_true (congrArg Except.ok (unsigned (by norm_num) v)) trivial
  | bytes | string =>
      rw [ScalarType.JSONReadable, ← decodeBase64_quotedRead_iff]
      change (JSONValue.string (quotedRead (encodeBase64 v))).castToBytes = _ ↔ _
      rw [JSONValue.castToBytes_eq_elim]
      cases decodeBase64 (quotedRead (encodeBase64 v)) with
      | none => simp
      | some s => simp
  | int64 | uint64 | float | double => exact absurd inJSON not_false

end Cluon
