import Cluon.Library.DecimalNumber

/-!
# JSON texts

The grammar of JSON texts in UTF-8, and what they denote (`Json.IsText`). The characters of a
string are units of UTF-16, as escapes have them. A scanner that only tells strings from what stands
between them follows every text and ends outside of strings (`Json.scan_text`): so a text that it
refuses is no JSON text, and neither is one that leaves a string open.
-/

set_option autoImplicit false

namespace Cluon.Library

/-- What a JSON text denotes. -/
inductive Json where
  | null
  | bool (b : Bool)
  | number (q : ℚ)
  | string (s : List (BitVec 16))
  | array (elements : List Json)
  | object (members : List (List (BitVec 16) × Json))

namespace Json

def quotationMark : Byte := 0x22
def escape : Byte := 0x5C

/-! ## Strings -/

/-- A character in UTF-8. -/
def utf8 (c : Char) : Bytes := (String.utf8EncodeChar c).map UInt8.toBitVec

/-- A character in UTF-16. -/
def utf16 (c : Char) : List (BitVec 16) :=
  if c.toNat < 0x10000 then [BitVec.ofNat 16 c.toNat]
  else [BitVec.ofNat 16 (0xD800 + (c.toNat - 0x10000) / 0x400),
    BitVec.ofNat 16 (0xDC00 + (c.toNat - 0x10000) % 0x400)]

/-- The value of a hexadecimal digit. -/
def hexValue (c : Byte) : Option (BitVec 4) :=
  if 0x30 ≤ c ∧ c ≤ 0x39 then some ((c - 0x30).setWidth 4)
  else if 0x41 ≤ c ∧ c ≤ 0x46 then some ((c - 0x37).setWidth 4)
  else if 0x61 ≤ c ∧ c ≤ 0x66 then some ((c - 0x57).setWidth 4)
  else none

/-- The characters that may follow a backslash, and what they stand for. -/
def escapes : List (Byte × BitVec 16) :=
  [(0x22, 0x22), (0x5C, 0x5C), (0x2F, 0x2F), (0x62, 0x08), (0x66, 0x0C), (0x6E, 0x0A),
    (0x72, 0x0D), (0x74, 0x09)]

/-- What stands between the quotation marks of a string. -/
inductive IsChars : Bytes → List (BitVec 16) → Prop
  | nil : IsChars [] []
  | unescaped {c : Char} {text : Bytes} {s : List (BitVec 16)} (space : 0x20 ≤ c.toNat)
      (noMark : c.toNat ≠ 0x22) (noEscape : c.toNat ≠ 0x5C) (chars : IsChars text s) :
      IsChars (utf8 c ++ text) (utf16 c ++ s)
  | escaped {c : Byte} {u : BitVec 16} {text : Bytes} {s : List (BitVec 16)}
      (known : (c, u) ∈ escapes) (chars : IsChars text s) :
      IsChars (escape :: c :: text) (u :: s)
  | unicode {a b c d : Byte} {x y z w : BitVec 4} {text : Bytes} {s : List (BitVec 16)}
      (first : hexValue a = some x) (second : hexValue b = some y) (third : hexValue c = some z)
      (fourth : hexValue d = some w) (chars : IsChars text s) :
      IsChars (escape :: 0x75 :: a :: b :: c :: d :: text) ((x ++ y ++ z ++ w : BitVec 16) :: s)

/-- A string. -/
def IsString (text : Bytes) (s : List (BitVec 16)) : Prop :=
  ∃ chars, IsChars chars s ∧ text = quotationMark :: chars ++ [quotationMark]

/-! ## Numbers -/

/-- An integer part: digits, which do not begin with a zero unless it is the only one. -/
def IsWhole (digits : Bytes) : Prop :=
  digits ≠ [] ∧ (∀ c ∈ digits, isDigit c) ∧ (digits.head? = some 0x30 → digits.length = 1)

/-- An optional fraction. -/
def IsFraction (text digits : Bytes) : Prop :=
  text = [] ∧ digits = [] ∨ text = 0x2E :: digits ∧ digits ≠ [] ∧ ∀ c ∈ digits, isDigit c

/-- An optional exponent. -/
def IsExponent (text : Bytes) (exponent : ℤ) : Prop :=
  text = [] ∧ exponent = 0 ∨ ∃ (mark : Byte) (sign digits : Bytes),
    (mark = 0x65 ∨ mark = 0x45) ∧ (sign = [] ∨ sign = [0x2B] ∨ sign = [0x2D]) ∧
      digits ≠ [] ∧ (∀ c ∈ digits, isDigit c) ∧ text = mark :: sign ++ digits ∧
      exponent = if sign = [0x2D] then -(ofDecimal digits : ℤ) else ofDecimal digits

/-- A number. -/
def IsNumber (text : Bytes) (q : ℚ) : Prop :=
  ∃ (minus whole fraction digits exponent : Bytes) (e : ℤ),
    (minus = [] ∨ minus = [0x2D]) ∧ IsWhole whole ∧ IsFraction fraction digits ∧
      IsExponent exponent e ∧ text = minus ++ whole ++ fraction ++ exponent ∧
      q = (if minus = [] then 1 else -1) * ofDecimal (whole ++ digits) * 10 ^ (e - digits.length)

/-! ## Values -/

/-- White space. -/
def IsWhiteSpace (text : Bytes) : Prop := ∀ c ∈ text, c = 0x20 ∨ c = 0x09 ∨ c = 0x0A ∨ c = 0x0D

/-- A structural character, with white space around it. -/
def IsStructural (c : Byte) (text : Bytes) : Prop :=
  ∃ before after, IsWhiteSpace before ∧ IsWhiteSpace after ∧ text = before ++ c :: after

/-- `[`, `]`, `{`, `}`, `:`, and `,`. -/
abbrev BeginArray : Bytes → Prop := IsStructural 0x5B
abbrev EndArray : Bytes → Prop := IsStructural 0x5D
abbrev BeginObject : Bytes → Prop := IsStructural 0x7B
abbrev EndObject : Bytes → Prop := IsStructural 0x7D
abbrev NameSeparator : Bytes → Prop := IsStructural 0x3A
abbrev ValueSeparator : Bytes → Prop := IsStructural 0x2C

mutual

/-- A value. -/
inductive IsValue : Bytes → Json → Prop
  | null : IsValue (asciiBytes "null") .null
  | true : IsValue (asciiBytes "true") (.bool Bool.true)
  | false : IsValue (asciiBytes "false") (.bool Bool.false)
  | number {text : Bytes} {q : ℚ} (number : IsNumber text q) : IsValue text (.number q)
  | string {text : Bytes} {s : List (BitVec 16)} (string : IsString text s) :
      IsValue text (.string s)
  | emptyArray {opened closed : Bytes} (begins : BeginArray opened) (ends : EndArray closed) :
      IsValue (opened ++ closed) (.array [])
  | array {opened text closed : Bytes} {elements : List Json} (begins : BeginArray opened)
      (all : IsElements text elements) (ends : EndArray closed) :
      IsValue (opened ++ text ++ closed) (.array elements)
  | emptyObject {opened closed : Bytes} (begins : BeginObject opened) (ends : EndObject closed) :
      IsValue (opened ++ closed) (.object [])
  | object {opened text closed : Bytes} {members : List (List (BitVec 16) × Json)}
      (begins : BeginObject opened) (all : IsMembers text members) (ends : EndObject closed) :
      IsValue (opened ++ text ++ closed) (.object members)

/-- The elements of an array that has some. -/
inductive IsElements : Bytes → List Json → Prop
  | last {text : Bytes} {v : Json} (value : IsValue text v) : IsElements text [v]
  | cons {text separator others : Bytes} {v : Json} {vs : List Json} (value : IsValue text v)
      (separates : ValueSeparator separator) (all : IsElements others vs) :
      IsElements (text ++ separator ++ others) (v :: vs)

/-- A member. -/
inductive IsMember : Bytes → List (BitVec 16) × Json → Prop
  | mk {name separator text : Bytes} {s : List (BitVec 16)} {v : Json} (string : IsString name s)
      (separates : NameSeparator separator) (value : IsValue text v) :
      IsMember (name ++ separator ++ text) (s, v)

/-- The members of an object that has some. -/
inductive IsMembers : Bytes → List (List (BitVec 16) × Json) → Prop
  | last {text : Bytes} {m : List (BitVec 16) × Json} (member : IsMember text m) :
      IsMembers text [m]
  | cons {text separator others : Bytes} {m : List (BitVec 16) × Json}
      {ms : List (List (BitVec 16) × Json)} (member : IsMember text m)
      (separates : ValueSeparator separator) (all : IsMembers others ms) :
      IsMembers (text ++ separator ++ others) (m :: ms)

end

/-- A JSON text: a value with white space around it. -/
def IsText (text : Bytes) (v : Json) : Prop :=
  ∃ before value after, IsWhiteSpace before ∧ IsWhiteSpace after ∧ IsValue value v ∧
    text = before ++ value ++ after

/-! ## Plain texts -/

/-- A character that stands for itself in a string, and takes one byte. -/
def IsPlainChar (c : Byte) : Prop :=
  0x20 ≤ c.toNat ∧ c.toNat < 0x80 ∧ c ≠ quotationMark ∧ c ≠ escape

instance (c : Byte) : Decidable (IsPlainChar c) :=
  inferInstanceAs (Decidable (_ ∧ _ ∧ _ ∧ _))

/-- The units of a text of plain characters. -/
def units (text : Bytes) : List (BitVec 16) := text.map (BitVec.setWidth 16)

/-- What a plain character is in UTF-8 and in UTF-16. -/
theorem plain_char {b : Byte} : IsPlainChar b →
    (Char.ofNat b.toNat).toNat = b.toNat ∧ utf8 (Char.ofNat b.toNat) = [b] ∧
      utf16 (Char.ofNat b.toNat) = [b.setWidth 16] := by
  revert b
  decide +kernel

theorem isChars_units {text : Bytes} :
    (∀ c ∈ text, IsPlainChar c) → IsChars text (units text) := by
  induction text with
  | nil => intro _; exact .nil
  | cons b text ih =>
      intro plain
      have here := plain b List.mem_cons_self
      obtain ⟨same, one, unit⟩ := plain_char here
      obtain ⟨space, _, noMark, noEscape⟩ := here
      have noMark : b.toNat ≠ 0x22 := fun h => noMark (BitVec.eq_of_toNat_eq h)
      have noEscape : b.toNat ≠ 0x5C := fun h => noEscape (BitVec.eq_of_toNat_eq h)
      rw [← same] at space noMark noEscape
      have chars := IsChars.unescaped space noMark noEscape
        (ih fun c hc => plain c (List.mem_cons_of_mem _ hc))
      rw [one, unit] at chars
      exact chars

/-- A text of plain characters between quotation marks. -/
theorem isString_units {text : Bytes} (plain : ∀ c ∈ text, IsPlainChar c) :
    IsString (quotationMark :: text ++ [quotationMark]) (units text) :=
  ⟨text, isChars_units plain, rfl⟩

/-- A structural character without white space. -/
theorem isStructural_singleton (c : Byte) : IsStructural c [c] :=
  ⟨[], [], fun _ h => absurd h List.not_mem_nil, fun _ h => absurd h List.not_mem_nil, rfl⟩

/-- A text without white space around it. -/
theorem IsValue.isText {text : Bytes} {v : Json} (value : IsValue text v) : IsText text v :=
  ⟨[], text, [], fun _ h => absurd h List.not_mem_nil, fun _ h => absurd h List.not_mem_nil, value,
    (List.append_nil text).symm⟩

/-! ## Integers -/

theorem isWhole_decimal (n : Nat) : IsWhole (decimal n) := by
  refine ⟨decimal_ne_nil n, all_isDigit_decimal n, fun zero => ?_⟩
  by_cases none : n = 0
  · rw [none]
    rfl
  · have digits : Nat.digits 10 n ≠ [] := Nat.digits_ne_nil_iff_ne_zero.mpr none
    rw [decimal, if_neg none, List.head?_map, List.head?_reverse,
      List.getLast?_eq_getLast_of_ne_nil digits] at zero
    have last := Nat.getLast_digit_ne_zero 10 none
    have small : (Nat.digits 10 n).getLast digits < 10 :=
      Nat.digits_lt_base (by norm_num) (List.getLast_mem digits)
    have first := Option.some.inj zero
    have number := congrArg (fun c : Byte => c.toNat - 48) first
    simp only [toNat_digitByte small] at number
    exact absurd number last

/-- **Integers are printed as numbers.** -/
theorem isNumber_decimalInt (n : ℤ) : IsNumber (decimalInt n) n := by
  have digits := isWhole_decimal n.natAbs
  have value : (ofDecimal (decimal n.natAbs) : ℚ) = |(n : ℚ)| := by
    rw [ofDecimal_decimal, Nat.cast_natAbs, Int.cast_abs]
  by_cases negative : n < 0
  · refine ⟨[0x2D], decimal n.natAbs, [], [], [], 0, .inr rfl, digits, .inl ⟨rfl, rfl⟩,
      .inl ⟨rfl, rfl⟩, ?_, ?_⟩
    · rw [decimalInt, if_pos negative, List.append_nil, List.append_nil]
      rfl
    · rw [List.append_nil, value, abs_of_neg (Int.cast_lt_zero.mpr negative)]
      simp
  · refine ⟨[], decimal n.natAbs, [], [], [], 0, .inl rfl, digits, .inl ⟨rfl, rfl⟩,
      .inl ⟨rfl, rfl⟩, ?_, ?_⟩
    · rw [decimalInt, if_neg negative, List.append_nil, List.append_nil]
      rfl
    · rw [List.append_nil, value, abs_of_nonneg (Int.cast_nonneg_iff.mpr (not_lt.mp negative))]
      simp

/-! ## Scanning -/

/-- Where a scanner is: between strings, in a string where a character has so many bytes left,
behind a backslash, or at a byte that no string may have there. -/
inductive Scanner where
  | outside
  | inside (pending : Nat)
  | escaped
  | refused
  deriving DecidableEq, Repr

/-- One byte. -/
def Scanner.step : Scanner → Byte → Scanner
  | .outside, c => if c = quotationMark then .inside 0 else .outside
  | .inside 0, c =>
      if c = quotationMark then .outside
      else if c = escape then .escaped
      else if c.toNat < 0x20 then .refused
      else if c.toNat < 0x80 then .inside 0
      else if c.toNat < 0xC0 then .refused
      else if c.toNat < 0xE0 then .inside 1
      else if c.toNat < 0xF0 then .inside 2
      else .inside 3
  | .inside (n + 1), c => if c.toNat < 0x80 then .refused else .inside n
  | .escaped, _ => .inside 0
  | .refused, _ => .refused

/-- A text. -/
def scan (s : Scanner) (text : Bytes) : Scanner := text.foldl Scanner.step s

@[simp] theorem scan_nil (s : Scanner) : scan s [] = s := rfl

@[simp] theorem scan_cons (s : Scanner) (c : Byte) (text : Bytes) :
    scan s (c :: text) = scan (s.step c) text := rfl

@[simp] theorem scan_append (s : Scanner) (left right : Bytes) :
    scan s (left ++ right) = scan (scan s left) right := List.foldl_append

@[simp] theorem scan_refused (text : Bytes) : scan .refused text = .refused := by
  induction text with
  | nil => rfl
  | cons c text ih => exact ih

/-- Without quotation marks the scanner stays between strings. -/
theorem scan_outside {text : Bytes} :
    quotationMark ∉ text → scan .outside text = .outside := by
  induction text with
  | nil => intro _; rfl
  | cons c text ih =>
      intro noMark
      have other : c ≠ quotationMark := fun h => noMark (h ▸ List.mem_cons_self)
      rw [scan_cons, Scanner.step, if_neg other]
      exact ih fun h => noMark (List.mem_cons_of_mem _ h)

/-- Plain characters leave the scanner in a string. -/
theorem scan_plain {text : Bytes} :
    (∀ c ∈ text, IsPlainChar c) → scan (.inside 0) text = .inside 0 := by
  induction text with
  | nil => intro _; rfl
  | cons c text ih =>
      intro plain
      obtain ⟨space, ascii, noMark, noEscape⟩ := plain c List.mem_cons_self
      rw [scan_cons, Scanner.step, if_neg noMark, if_neg noEscape, if_neg (Nat.not_lt.mpr space),
        if_pos ascii]
      exact ih fun d hd => plain d (List.mem_cons_of_mem _ hd)

theorem toNat_byte {n : Nat} (small : n < 256) : (UInt8.ofNat n).toBitVec.toNat = n :=
  Nat.mod_eq_of_lt small

/-- The first one of several bytes of a character. -/
theorem step_lead {c : Byte} (high : 0xC0 ≤ c.toNat) : Scanner.step (.inside 0) c =
    .inside (if c.toNat < 0xE0 then 1 else if c.toNat < 0xF0 then 2 else 3) := by
  have noMark : c ≠ quotationMark := by rintro rfl; exact absurd high (by decide)
  have noEscape : c ≠ escape := by rintro rfl; exact absurd high (by decide)
  rw [Scanner.step, if_neg noMark, if_neg noEscape, if_neg (by omega), if_neg (by omega),
    if_neg (by omega)]
  split
  · rfl
  · split
    · rfl
    · rfl

/-- One of the other bytes. -/
theorem step_follow {c : Byte} (high : 0x80 ≤ c.toNat) (n : Nat) :
    Scanner.step (.inside (n + 1)) c = .inside n :=
  if_neg (Nat.not_lt.mpr high)

/-- A character of a string is read as a whole. -/
theorem scan_utf8 {c : Char} (space : 0x20 ≤ c.toNat) (noMark : c.toNat ≠ 0x22)
    (noEscape : c.toNat ≠ 0x5C) : scan (.inside 0) (utf8 c) = .inside 0 := by
  have lead {n : Nat} (high : 0xC0 ≤ n) (small : n < 256) :
      Scanner.step (.inside 0) (UInt8.ofNat n).toBitVec =
        .inside (if n < 0xE0 then 1 else if n < 0xF0 then 2 else 3) := by
    have same := toNat_byte small
    rw [step_lead (same.symm ▸ high), same]
  have follow (n pending : Nat) :
      Scanner.step (.inside (pending + 1)) (UInt8.ofNat (n % 0x40 + 0x80)).toBitVec =
        .inside pending :=
    step_follow (by rw [toNat_byte (by omega)]; omega) pending
  rw [utf8, String.utf8EncodeChar]
  rw [Char.toNat] at space noMark noEscape
  generalize c.val.toNat = v at space noMark noEscape
  split_ifs with one two three
  · have same : (UInt8.ofNat v).toBitVec.toNat = v := toNat_byte (by omega)
    apply scan_plain
    intro d hd
    obtain rfl := List.mem_singleton.mp hd
    refine ⟨by omega, by omega, fun h => noMark ?_, fun h => noEscape ?_⟩
    · rw [← same, h]
      rfl
    · rw [← same, h]
      rfl
  · simp only [List.map_cons, List.map_nil, scan_cons, scan_nil]
    rw [lead (by omega) (by omega), if_pos (by omega), follow]
  · simp only [List.map_cons, List.map_nil, scan_cons, scan_nil]
    rw [lead (by omega) (by omega), if_neg (by omega), if_pos (by omega), follow, follow]
  · simp only [List.map_cons, List.map_nil, scan_cons, scan_nil]
    rw [lead (by omega) (by omega), if_neg (by omega), if_neg (by omega), follow, follow, follow]

/-- A hexadecimal digit is a plain character. -/
theorem plain_of_hexValue {c : Byte} {x : BitVec 4} (digit : hexValue c = some x) :
    IsPlainChar c := by
  have all : ∀ c : Byte, (hexValue c).isSome → IsPlainChar c := by decide +kernel
  exact all c (Option.isSome_iff_exists.mpr ⟨x, digit⟩)

theorem scan_chars {text : Bytes} {s : List (BitVec 16)} (chars : IsChars text s) :
    scan (.inside 0) text = .inside 0 := by
  induction chars with
  | nil => rfl
  | unescaped space noMark noEscape _ ih => rw [scan_append, scan_utf8 space noMark noEscape, ih]
  | escaped known _ ih => exact ih
  | @unicode a b c d x y z w text s first second third fourth _ ih =>
      have digits : ∀ e ∈ [a, b, c, d], IsPlainChar e := by
        intro e he
        simp only [List.mem_cons, List.not_mem_nil, or_false] at he
        rcases he with rfl | rfl | rfl | rfl
        · exact plain_of_hexValue first
        · exact plain_of_hexValue second
        · exact plain_of_hexValue third
        · exact plain_of_hexValue fourth
      change scan (.inside 0) ([a, b, c, d] ++ text) = _
      rw [scan_append, scan_plain digits, ih]

theorem scan_string {text : Bytes} {s : List (BitVec 16)} (string : IsString text s) :
    scan .outside text = .outside := by
  obtain ⟨chars, isChars, rfl⟩ := string
  rw [List.cons_append, scan_cons, scan_append]
  exact congrArg (Scanner.step · quotationMark) (scan_chars isChars)

theorem scan_number {text : Bytes} {q : ℚ} (number : IsNumber text q) :
    scan .outside text = .outside := by
  obtain ⟨minus, whole, fraction, digits, exponent, e, sign, ⟨_, allWhole, _⟩, isFraction,
    isExponent, rfl, _⟩ := number
  have noMark {s : Bytes} (all : ∀ c ∈ s, isDigit c) : quotationMark ∉ s := fun h =>
    absurd (all _ h) (by decide)
  have minusOutside : scan .outside minus = .outside := by
    rcases sign with rfl | rfl
    · rfl
    · rfl
  have fractionOutside : scan .outside fraction = .outside := by
    rcases isFraction with ⟨rfl, _⟩ | ⟨rfl, _, all⟩
    · rfl
    · exact scan_outside (List.not_mem_cons_of_ne_of_not_mem (by decide) (noMark all))
  have exponentOutside : scan .outside exponent = .outside := by
    rcases isExponent with ⟨rfl, _⟩ | ⟨mark, signs, ds, isMark, isSign, _, all, rfl, _⟩
    · rfl
    · have marked : scan .outside (mark :: signs) = .outside := by
        rcases isMark with rfl | rfl
        · rcases isSign with rfl | rfl | rfl
          · rfl
          · rfl
          · rfl
        · rcases isSign with rfl | rfl | rfl
          · rfl
          · rfl
          · rfl
      rw [scan_append, marked, scan_outside (noMark all)]
  rw [scan_append, scan_append, scan_append, minusOutside, scan_outside (noMark allWhole),
    fractionOutside, exponentOutside]

theorem scan_whiteSpace {text : Bytes} (blank : IsWhiteSpace text) :
    scan .outside text = .outside := by
  apply scan_outside
  intro h
  rcases blank _ h with h | h | h | h
  · exact absurd h (by decide)
  · exact absurd h (by decide)
  · exact absurd h (by decide)
  · exact absurd h (by decide)

theorem scan_structural {c : Byte} {text : Bytes} (other : c ≠ quotationMark)
    (structural : IsStructural c text) : scan .outside text = .outside := by
  obtain ⟨before, after, left, right, rfl⟩ := structural
  rw [scan_append, scan_whiteSpace left, scan_cons, Scanner.step, if_neg other,
    scan_whiteSpace right]

mutual

/-- **A value leaves the scanner between strings.** -/
theorem scan_value {text : Bytes} {v : Json} : IsValue text v → scan .outside text = .outside
  | .null => rfl
  | .true => rfl
  | .false => rfl
  | .number isNumber => scan_number isNumber
  | .string isString => scan_string isString
  | .emptyArray begins ends => by
      rw [scan_append, scan_structural (by decide) begins, scan_structural (by decide) ends]
  | .array begins all ends => by
      rw [scan_append, scan_append, scan_structural (by decide) begins, scan_elements all,
        scan_structural (by decide) ends]
  | .emptyObject begins ends => by
      rw [scan_append, scan_structural (by decide) begins, scan_structural (by decide) ends]
  | .object begins all ends => by
      rw [scan_append, scan_append, scan_structural (by decide) begins, scan_members all,
        scan_structural (by decide) ends]

theorem scan_elements {text : Bytes} {vs : List Json} :
    IsElements text vs → scan .outside text = .outside
  | .last value => scan_value value
  | .cons value separates all => by
      rw [scan_append, scan_append, scan_value value, scan_structural (by decide) separates,
        scan_elements all]

theorem scan_member {text : Bytes} {m : List (BitVec 16) × Json} :
    IsMember text m → scan .outside text = .outside
  | .mk isString separates value => by
      rw [scan_append, scan_append, scan_string isString, scan_structural (by decide) separates,
        scan_value value]

theorem scan_members {text : Bytes} {ms : List (List (BitVec 16) × Json)} :
    IsMembers text ms → scan .outside text = .outside
  | .last member => scan_member member
  | .cons member separates all => by
      rw [scan_append, scan_append, scan_member member, scan_structural (by decide) separates,
        scan_members all]

end

/-- **A JSON text leaves the scanner between strings.** -/
theorem scan_text {text : Bytes} {v : Json} (isText : IsText text v) :
    scan .outside text = .outside := by
  obtain ⟨before, value, after, left, right, isValue, rfl⟩ := isText
  rw [scan_append, scan_append, scan_whiteSpace left, scan_value isValue, scan_whiteSpace right]

end Json

end Cluon.Library
