import Cluon.JSON.FromJSONVisitor

/-!
# What the pattern matches

The pattern begins to match only at the quote in front of a key (`search_skip`), and there it
takes the key, the colon, and a beginning of what follows (`search_keyText`). What it leaves of
the text behind the colon depends on the first alternative that fits (`contentRest`,
`first_valuePattern_quoted`, `first_valuePattern_number`, `first_valuePattern_object`).
-/

set_option autoImplicit false

namespace Cluon

open Library Regex JSON stringtoolbox

namespace JSON

/-! ## Identifiers -/

def isLetter (c : Byte) : Bool := decide (0x61 ≤ c ∧ c ≤ 0x7A ∨ 0x41 ≤ c ∧ c ≤ 0x5A)

/-- An identifier of the specification language: a letter, and letters, digits, and
underscores. -/
def IsIdentifier : Bytes → Prop
  | [] => False
  | c :: s => isLetter c ∧ ∀ d ∈ s, isLetter d ∨ isDigit d ∨ d = 0x5F

/-- The characters that have no meaning for the pattern. -/
def isOrdinary (c : Byte) : Bool :=
  decide (c ≠ quote ∧ c ≠ apostrophe ∧ c ≠ colon) && !isSpace c

theorem isOrdinary_of_letter {c : Byte} (h : isLetter c) : isOrdinary c := by
  revert c
  decide

theorem isOrdinary_of_digit {c : Byte} (h : isDigit c) : isOrdinary c := by
  revert c
  decide

theorem IsIdentifier.ordinary {name : Bytes} (h : IsIdentifier name) :
    ∀ c ∈ name, isOrdinary c := by
  cases name with
  | nil => exact absurd h not_false
  | cons d s =>
      intro c hc
      rcases List.mem_cons.mp hc with rfl | hc
      · exact isOrdinary_of_letter h.1
      · rcases h.2 c hc with letter | digit | rfl
        · exact isOrdinary_of_letter letter
        · exact isOrdinary_of_digit digit
        · decide

theorem ne_quote_of_isOrdinary {c : Byte} (h : isOrdinary c) : c ≠ quote := by
  rintro rfl
  exact absurd h (by decide)

theorem ne_apostrophe_of_isOrdinary {c : Byte} (h : isOrdinary c) : c ≠ apostrophe := by
  rintro rfl
  exact absurd h (by decide)

theorem ne_colon_of_isOrdinary {c : Byte} (h : isOrdinary c) : c ≠ colon := by
  rintro rfl
  exact absurd h (by decide)

/-! ## Quotes -/

/-- A text without quotes of either kind. -/
def NoQuotes (s : Bytes) : Prop := ∀ c ∈ s, c ≠ quote ∧ c ≠ apostrophe

theorem rests_quotePattern_cons {c : Byte} (h : c ≠ quote ∧ c ≠ apostrophe) (s : Bytes) :
    quotePattern.rests (c :: s) = [] :=
  rests_alt_eq_nil (rests_chr_of_ne h.1 s) (rests_chr_of_ne h.2 s)

theorem first_quotePattern_quote (s : Bytes) : quotePattern.first (quote :: s) = some s :=
  first_alt_left (first_chr quote s)

theorem first_quotePattern_apostrophe (s : Bytes) :
    quotePattern.first (apostrophe :: s) = some s :=
  (first_alt_right (rests_chr_of_ne (by decide) s)).trans (first_chr apostrophe s)

/-- What is left when an optional quote has been taken. -/
def dropQuote : Bytes → Bytes
  | c :: s => if c = quote ∨ c = apostrophe then s else c :: s
  | [] => []

theorem first_opt_quotePattern (s : Bytes) : quotePattern.opt.first s = some (dropQuote s) := by
  cases s with
  | nil => rfl
  | cons c s =>
      rw [dropQuote]
      split
      · rename_i either
        rcases either with rfl | rfl
        · exact first_alt_left (first_quotePattern_quote s)
        · exact first_alt_left (first_quotePattern_apostrophe s)
      · rename_i neither
        exact first_opt_none (rests_quotePattern_cons (not_or.mp neither) s)

/-! ## Where no match begins -/

/-- A text that is at its end or at a key, whose first character is not a colon. -/
def AtKey (s : Bytes) : Prop := s = [] ∨ ∃ c t, s = quote :: c :: t ∧ c ≠ colon

theorem rests_MATCH_JSON_of_noQuote {c : Byte} (h : c ≠ quote ∧ c ≠ apostrophe) (s : Bytes) :
    MATCH_JSON.rests (c :: s) = [] :=
  rests_seq_of_left (rests_quotePattern_cons h s)

/-- The quote of a key does not end another key. -/
theorem rests_quotePattern_atKey {s : Bytes} (next : AtKey s) (r : Regex Byte) :
    (Regex.seq quotePattern (.seq (.look (.chr colon)) r)).rests s = [] := by
  rcases next with rfl | ⟨c, t, rfl, other⟩
  · rfl
  · refine rests_seq_eq_nil fun u hu => rests_seq_of_left ?_
    have only : quotePattern.rests (quote :: c :: t) = [c :: t] := rfl
    rw [only, List.mem_singleton] at hu
    subst hu
    rw [rests_look, rests_chr_of_ne other, List.isEmpty_nil, if_pos rfl]

/-- **No match begins at a stray quote**: the next quote is not followed by a colon. -/
theorem rests_MATCH_JSON_stray {p s : Bytes} (plain : NoQuotes p) (next : AtKey s) :
    MATCH_JSON.rests (quote :: (p ++ s)) = [] := by
  refine rests_seq_eq_nil fun t ht => rests_seq_eq_nil fun u hu => ?_
  have only : quotePattern.rests (quote :: (p ++ s)) = [p ++ s] := rfl
  rw [only, List.mem_singleton] at ht
  subst ht
  obtain ⟨a, split, inside⟩ := mem_starRests hu
  rcases List.append_eq_append_iff.mp split with ⟨b, rfl, rest⟩ | ⟨b, rfl, rest⟩
  · -- What is taken reaches the end of `p`, so it stops at the quote of the key.
    cases b with
    | nil =>
        rw [List.nil_append] at rest
        exact rest ▸ rests_quotePattern_atKey next _
    | cons d b =>
        rcases next with rfl | ⟨c, w, rfl, _⟩
        · cases rest
        · obtain ⟨rfl, _⟩ := List.cons_eq_cons.mp rest
          exact absurd (inside quote (by simp)) (by decide)
  · -- It ends within `p`, where there is no quote.
    cases b with
    | nil =>
        rw [List.nil_append] at rest
        exact rest ▸ rests_quotePattern_atKey next _
    | cons d b =>
        rw [rest, List.cons_append]
        exact rests_seq_of_left (rests_quotePattern_cons (plain d (by simp)) _)

/-- Characters that are no quotes are skipped. -/
theorem search_noQuotes {a : Bytes} (plain : NoQuotes a) (s : Bytes) :
    MATCH_JSON.search (a ++ s) = MATCH_JSON.search s := by
  refine search_append a fun b c split some => ?_
  cases c with
  | nil => exact absurd rfl some
  | cons d c =>
      exact first_eq_none (rests_MATCH_JSON_of_noQuote (plain d (by simp [split])) _)

/-- What remains of a value in front of the next key, or of the end: characters that are no
quotes, or a stray quote with such characters before and behind it. -/
inductive Remainder : Bytes → Prop
  | plain {a : Bytes} : NoQuotes a → Remainder a
  | stray {a p : Bytes} : NoQuotes a → NoQuotes p → Remainder (a ++ quote :: p)

/-- **What remains of a value is skipped.** -/
theorem search_skip {junk s : Bytes} (remainder : Remainder junk) (next : AtKey s) :
    MATCH_JSON.search (junk ++ s) = MATCH_JSON.search s := by
  cases remainder with
  | plain h => exact search_noQuotes h s
  | stray ha hp =>
      rw [List.append_assoc, search_noQuotes ha, List.cons_append,
        search_cons (first_eq_none (rests_MATCH_JSON_stray hp next)), search_noQuotes hp]

theorem search_nil : MATCH_JSON.search [] = none := rfl

/-! ## Values -/

/-- What is left when an optional minus has been taken. -/
def dropMinus : Bytes → Bytes
  | c :: s => if c = 0x2D then s else c :: s
  | [] => []

/-- What a number leaves, if the text begins with one that has no point. -/
def numberRest (w : Bytes) : Option Bytes :=
  match dropMinus w with
  | c :: s => if isDigit c then some (s.dropWhile isDigit) else none
  | [] => none

/-- What the alternatives for a value leave of a text. -/
def contentRest (w : Bytes) : Bytes :=
  if asciiBytes "true" <+: w then w.drop 4
  else if asciiBytes "false" <+: w then w.drop 5
  else (numberRest w).getD (w.dropWhile isPlain)

theorem minus_of_isDigit {c : Byte} (h : isDigit c) : c ≠ 0x2D := by
  rintro rfl
  exact absurd h (by decide)

/-- A minus is taken if a digit follows. -/
theorem rests_minusPattern (w : Bytes) :
    minusPattern.rests w = [dropMinus w, w] ∧ dropMinus w ≠ w ∨
      minusPattern.rests w = [w] ∧ dropMinus w = w := by
  cases w with
  | nil => exact .inr ⟨rfl, rfl⟩
  | cons c s =>
      by_cases minus : c = 0x2D
      · subst minus
        refine .inl ⟨?_, ?_⟩
        · rw [minusPattern, opt, rests_alt, rests_chr]
          rfl
        · rw [dropMinus, if_pos rfl]
          intro same
          have length := congrArg List.length same
          simp at length
      · refine .inr ⟨?_, ?_⟩
        · rw [minusPattern, opt, rests_alt, rests_chr_of_ne minus]
          rfl
        · rw [dropMinus, if_neg minus]

/-- Behind a minus that has not been taken there is no digit. -/
theorem rests_minusPattern_seq {r : Regex Byte} {w : Bytes}
    (behind : (Regex.seq (.set isDigit) r).rests (dropMinus w) = []) :
    (Regex.seq minusPattern (.seq (.set isDigit) r)).rests w = [] := by
  refine rests_seq_eq_nil fun t ht => ?_
  rcases rests_minusPattern w with ⟨both, differs⟩ | ⟨one, same⟩
  · rw [both] at ht
    rcases List.mem_cons.mp ht with rfl | second
    · exact behind
    · obtain rfl := List.mem_singleton.mp second
      cases t with
      | nil => exact absurd rfl differs
      | cons c s =>
          have minus : c = 0x2D := by
            by_contra other
            exact differs (by rw [dropMinus, if_neg other])
          subst minus
          exact rests_seq_of_left (rests_set_of_neg (by decide) s)
  · rw [one, List.mem_singleton] at ht
    rw [ht, ← same]
    exact behind

/-- **The first alternative that fits** decides what is left. -/
theorem first_contentPattern {w : Bytes}
    (noPoint : ∀ t, numberRest w = some t → ∀ c ∈ t.head?, c ≠ 0x2E) :
    contentPattern.first w = some (contentRest w) := by
  rw [contentRest]
  by_cases isTrue : asciiBytes "true" <+: w
  · obtain ⟨t, rfl⟩ := isTrue
    rw [if_pos (List.prefix_append _ _)]
    exact first_alt_left (first_word _ t)
  rw [if_neg isTrue]
  refine (first_alt_right (rests_word_of_not_isPrefix _ isTrue)).trans ?_
  by_cases isFalse : asciiBytes "false" <+: w
  · obtain ⟨t, rfl⟩ := isFalse
    rw [if_pos (List.prefix_append _ _)]
    exact first_alt_left (first_word _ t)
  rw [if_neg isFalse]
  refine (first_alt_right (rests_word_of_not_isPrefix _ isFalse)).trans ?_
  -- There is no point behind the digits, so the third alternative does not fit.
  have point : decimalPattern.rests w = [] := by
    refine rests_minusPattern_seq ?_
    cases rest : dropMinus w with
    | nil => rfl
    | cons c s =>
        by_cases digit : isDigit c
        · refine rests_seq_eq_nil fun t ht => ?_
          rw [rests_set_cons, if_pos digit, List.mem_singleton] at ht
          subst ht
          refine rests_star_seq (by decide) (noPoint _ ?_)
          rw [numberRest, rest]
          simp only [digit, if_true]
        · exact rests_seq_of_left (rests_set_of_neg (by simpa using digit) s)
  refine (first_alt_right point).trans ?_
  cases number : numberRest w with
  | some t =>
      refine first_alt_left ?_
      have minus : minusPattern.first w = some (dropMinus w) := by
        rcases rests_minusPattern w with ⟨both, _⟩ | ⟨one, same⟩
        · rw [first, both, List.head?_cons]
        · rw [first, one, same, List.head?_cons]
      rw [numberRest] at number
      split at number
      · rename_i c s rest
        split at number
        · rename_i digit
          obtain rfl := Option.some.inj number
          rw [rest] at minus
          exact first_seq minus (first_seq (first_set_of_pos digit s) (first_star _ s))
        · cases number
      · cases number
  | none =>
      refine (first_alt_right ?_).trans (first_star _ w)
      refine rests_minusPattern_seq ?_
      rw [numberRest] at number
      split at number
      · rename_i c s rest
        split at number
        · cases number
        · rename_i digit
          rw [rest]
          exact rests_seq_of_left (rests_set_of_neg (by simpa using digit) s)
      · rename_i rest
        rw [rest]
        rfl

/-- A value that begins with a quote. -/
theorem first_valuePattern_quoted {w : Bytes}
    (noPoint : ∀ t, numberRest w = some t → ∀ c ∈ t.head?, c ≠ 0x2E) :
    valuePattern.first (quote :: w) = some (dropQuote (contentRest w)) :=
  first_seq (first_alt_left (first_quotePattern_quote w))
    (first_seq (first_contentPattern noPoint) (first_opt_quotePattern _))

/-- A value that begins without a quote. -/
theorem first_valuePattern_unquoted {c : Byte} {w : Bytes} (h : c ≠ quote ∧ c ≠ apostrophe)
    (noPoint : ∀ t, numberRest (c :: w) = some t → ∀ c ∈ t.head?, c ≠ 0x2E) :
    valuePattern.first (c :: w) = some (dropQuote (contentRest (c :: w))) :=
  first_seq (first_opt_none (rests_quotePattern_cons h w))
    (first_seq (first_contentPattern noPoint) (first_opt_quotePattern _))

/-! ## Members -/

/-- **A key is found with a beginning of what follows.** -/
theorem search_keyText {name w matched rest : Bytes} (ordinary : ∀ c ∈ name, isOrdinary c)
    (noSpace : ∀ c ∈ w.head?, isSpace c = false) (value : valuePattern.first w = some rest)
    (split : w = matched ++ rest) :
    MATCH_JSON.search (ToJSONVisitor.keyText name ++ w) =
      some (ToJSONVisitor.keyText name ++ matched, rest) := by
  have text : ToJSONVisitor.keyText name ++ w = quote :: (name ++ quote :: colon :: w) := by
    simp [ToJSONVisitor.keyText]
  have key : (Regex.star fun c => decide (c ≠ quote)).first (name ++ quote :: colon :: w) =
      some (quote :: colon :: w) := by
    rw [first_star, List.dropWhile_append_of_pos fun c hc =>
      decide_eq_true (ne_quote_of_isOrdinary (ordinary c hc)),
      List.dropWhile_cons_of_neg (by simp)]
  have spaces : (Regex.star isSpace).first w = some w := by
    rw [first_star]
    cases w with
    | nil => rfl
    | cons c w =>
        rw [List.dropWhile_cons_of_neg (by simpa using noSpace c rfl)]
  have found : MATCH_JSON.first (quote :: (name ++ quote :: colon :: w)) = some rest :=
    first_seq (first_quotePattern_quote _) <| first_seq key <|
      first_seq (first_quotePattern_quote _) <| first_seq (first_look (first_chr colon w)) <|
        first_seq (first_chr colon w) <| first_seq spaces value
  have parts : quote :: (name ++ quote :: colon :: w) =
      (ToJSONVisitor.keyText name ++ matched) ++ rest := by
    rw [← text, split, List.append_assoc]
  rw [text, search_of_first found parts]

end JSON

end Cluon
