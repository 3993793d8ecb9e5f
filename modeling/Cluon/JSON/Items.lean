import Cluon.JSON.Matching

/-!
# Texts as sequences of items

To the decoder a text is a sequence of items: values with their keys, keys of nested
objects, and, as a property of some of the values, closing braces that directly follow a value
(`Spells`). Other closing braces are not seen. From the items alone it follows which map the
decoder assigns each value to (`Collects`), and the decoder does so with enough rounds
(`readKeyValues_of_collects`).
-/

set_option autoImplicit false

namespace Cluon

open Library JSON stringtoolbox FromJSONVisitor

/-- What the decoder sees in a text. -/
inductive JSONItem where
  | value (name : Bytes) (any : JSONValue) (closes : Bool)
  | object (name : Bytes)

/-- A map is collected from the beginning of a sequence of items; the others are left. -/
inductive Collects : List JSONItem → KeyValueMap Bytes JSONValue →
    KeyValueMap Bytes JSONValue → List JSONItem → Prop
  | nil (keyValues : KeyValueMap Bytes JSONValue) : Collects [] keyValues keyValues []
  | close (name : Bytes) (any : JSONValue) (items : List JSONItem)
      (keyValues : KeyValueMap Bytes JSONValue) :
      Collects (.value name any true :: items) keyValues (keyValues.assign name any) items
  | value {name : Bytes} {any : JSONValue} {items left : List JSONItem}
      {keyValues keyValues' : KeyValueMap Bytes JSONValue} :
      Collects items (keyValues.assign name any) keyValues' left →
      Collects (.value name any false :: items) keyValues keyValues' left
  | object {name : Bytes} {items left left' : List JSONItem}
      {keyValues nested keyValues' : KeyValueMap Bytes JSONValue} :
      Collects items [] nested left →
      Collects left (keyValues.assign name (.object nested)) keyValues' left' →
      Collects (.object name :: items) keyValues keyValues' left'

/-- A text without white space. -/
def Compact (text : Bytes) : Prop := ∀ c ∈ text, isSpace c = false

instance (text : Bytes) : Decidable (Compact text) :=
  inferInstanceAs (Decidable (∀ c ∈ text, isSpace c = false))

theorem Compact.append {s t : Bytes} (left : Compact s) (right : Compact t) : Compact (s ++ t) := by
  intro c hc
  rcases List.mem_append.mp hc with hc | hc
  · exact left c hc
  · exact right c hc

theorem compact_of_ordinary {s : Bytes} (ordinary : ∀ c ∈ s, isOrdinary c) : Compact s := by
  intro c hc
  have plain := ordinary c hc
  rw [isOrdinary, Bool.and_eq_true, Bool.not_eq_true'] at plain
  exact plain.2

theorem isBlank_eq_false {c : Byte} (h : isSpace c = false) : isBlank c = false := by
  revert c
  decide

theorem Compact.trim {text : Bytes} (h : Compact text) : trim text = text :=
  trim_eq_self fun c hc => isBlank_eq_false (h c hc)

/-- A text that the decoder sees as the given items. -/
def Spells : List JSONItem → Bytes → Prop
  | [], text => MATCH_JSON.search text = none
  | .value name any closes :: items, text =>
      (∀ c ∈ name, isOrdinary c) ∧ ∃ second rest,
        MATCH_JSON.search text = some (ToJSONVisitor.keyText name ++ second, rest) ∧
        (second ≠ [] ∧ colon ∉ second) ∧ JSONValue.ofText second = any ∧
        (closes = true ↔ rest.head? = some closeBrace) ∧ Spells items rest
  | .object name :: items, text =>
      (∀ c ∈ name, isOrdinary c) ∧ ∃ rest,
        MATCH_JSON.search text = some (ToJSONVisitor.keyText name, rest) ∧ Spells items rest

/-! ## One round -/

/-- The key in front of the colon. -/
theorem secondPart_key {name : Bytes} (ordinary : ∀ c ∈ name, isOrdinary c) :
    secondPart (split (trim (quote :: name ++ [quote])) quote) = .ok name := by
  have noQuote : quote ∉ name := fun h => ne_quote_of_isOrdinary (ordinary quote h) rfl
  have blanks : trim (quote :: name ++ [quote]) = quote :: name ++ [quote] := by
    apply trim_eq_self
    intro c hc
    rw [List.cons_append, List.mem_cons, List.mem_append, List.mem_singleton] at hc
    rcases hc with rfl | hc | rfl
    · decide
    · apply isBlank_eq_false
      have plain := ordinary c hc
      rw [isOrdinary, Bool.and_eq_true, Bool.not_eq_true'] at plain
      exact plain.2
    · decide
  rw [blanks, split_between noQuote]
  rfl

/-- The parts of a match. -/
theorem split_keyText {name second : Bytes} (ordinary : ∀ c ∈ name, isOrdinary c)
    (noColon : colon ∉ second) :
    split (ToJSONVisitor.keyText name ++ second) colon = [quote :: name ++ [quote], second] := by
  have parts : ToJSONVisitor.keyText name ++ second =
      (quote :: name ++ [quote]) ++ colon :: second := by
    simp [ToJSONVisitor.keyText]
  rw [parts]
  refine split_two (fun h => ?_) noColon
  rw [List.cons_append, List.mem_cons, List.mem_append, List.mem_singleton] at h
  rcases h with h | h | h
  · exact absurd h (by decide)
  · exact ne_colon_of_isOrdinary (ordinary colon h) rfl
  · exact absurd h (by decide)

section Round

variable {rounds : Nat} {keyValues : KeyValueMap Bytes JSONValue} {oldInput text rest : Bytes}
  {name : Bytes}

/-- A round that finds no further key. -/
theorem readKeyValues_none (found : MATCH_JSON.search text = none) :
    readKeyValues (rounds + 1) keyValues oldInput text = .ok (keyValues, text) := by
  rw [readKeyValues, found]

/-- A round that finds a value. -/
theorem readKeyValues_value (ordinary : ∀ c ∈ name, isOrdinary c) {second : Bytes}
    (found : MATCH_JSON.search text = some (ToJSONVisitor.keyText name ++ second, rest))
    (some : second ≠ []) (noColon : colon ∉ second) (compact : Compact second)
    (compactRest : Compact rest) :
    readKeyValues (rounds + 1) keyValues oldInput text =
      if rest.head? = .some closeBrace then
        .ok (keyValues.assign name (.ofText second), rest)
      else if text ≠ rest then
        readKeyValues rounds (keyValues.assign name (.ofText second)) text rest
      else .ok (keyValues.assign name (.ofText second), rest) := by
  rw [readKeyValues, found]
  simp only [split_keyText ordinary noColon, compact.trim, if_neg some, secondPart_key ordinary,
    compactRest.trim]
  rfl

/-- A round that finds the key of a nested object. -/
theorem readKeyValues_object (ordinary : ∀ c ∈ name, isOrdinary c)
    (found : MATCH_JSON.search text = some (ToJSONVisitor.keyText name, rest))
    (compactRest : Compact rest) {nested : KeyValueMap Bytes JSONValue} {left : Bytes}
    (inner : readKeyValues rounds [] [] rest = .ok (nested, left)) :
    readKeyValues (rounds + 1) keyValues oldInput text =
      if text ≠ left then
        readKeyValues rounds (keyValues.assign name (.object nested)) text left
      else .ok (keyValues.assign name (.object nested), left) := by
  have parts : split (ToJSONVisitor.keyText name) colon = [quote :: name ++ [quote], []] := by
    rw [← List.append_nil (ToJSONVisitor.keyText name)]
    exact split_keyText ordinary List.not_mem_nil
  have empty : trim [] = [] := rfl
  rw [readKeyValues, found]
  simp only [parts, empty, if_true, secondPart_key ordinary, compactRest.trim]
  simp only [inner, bind, Except.bind]

end Round

/-! ## All rounds -/

/-- What a match leaves is shorter than the text. -/
theorem rest_of_search {text name second rest : Bytes}
    (found : MATCH_JSON.search text = some (ToJSONVisitor.keyText name ++ second, rest))
    (compact : Compact text) :
    rest.length < text.length ∧ Compact second ∧ Compact rest := by
  obtain ⟨a, rfl⟩ := Regex.search_eq_some found
  refine ⟨?_, fun c hc => compact c (by simp [hc]), fun c hc => compact c (by simp [hc])⟩
  simp only [ToJSONVisitor.keyText, List.length_append, List.length_cons]
  omega

/-- **The decoder collects what it sees.** -/
theorem readKeyValues_of_collects {items left : List JSONItem}
    {keyValues keyValues' : KeyValueMap Bytes JSONValue}
    (collects : Collects items keyValues keyValues' left) :
    ∀ {rounds : Nat} {oldInput text : Bytes}, Spells items text → Compact text →
      text.length < rounds → ∃ text', Spells left text' ∧ Compact text' ∧
        text'.length ≤ text.length ∧
        readKeyValues rounds keyValues oldInput text = .ok (keyValues', text') := by
  induction collects with
  | nil keyValues =>
      intro rounds oldInput text spells compact enough
      obtain ⟨rounds, rfl⟩ := Nat.exists_eq_add_of_lt enough
      exact ⟨text, spells, compact, le_rfl, readKeyValues_none spells⟩
  | close name any items keyValues =>
      intro rounds oldInput text spells compact enough
      obtain ⟨rounds, rfl⟩ := Nat.exists_eq_add_of_lt enough
      obtain ⟨ordinary, second, rest, found, ⟨some, noColon⟩, rfl, closes, others⟩ := spells
      obtain ⟨shorter, compactSecond, compactRest⟩ := rest_of_search found compact
      refine ⟨rest, others, compactRest, shorter.le, ?_⟩
      rw [readKeyValues_value ordinary found some noColon compactSecond compactRest,
        if_pos (closes.mp rfl)]
  | value _ ih =>
      intro rounds oldInput text spells compact enough
      obtain ⟨rounds, rfl⟩ := Nat.exists_eq_add_of_lt enough
      obtain ⟨ordinary, second, rest, found, ⟨some, noColon⟩, rfl, closes, others⟩ := spells
      obtain ⟨shorter, compactSecond, compactRest⟩ := rest_of_search found compact
      have continues : ¬ rest.head? = .some closeBrace := fun h => Bool.false_ne_true (closes.mpr h)
      obtain ⟨text', spells', compact', length, read⟩ :=
        @ih (text.length + rounds) text rest others compactRest (by omega)
      refine ⟨text', spells', compact', length.trans shorter.le, ?_⟩
      rw [readKeyValues_value ordinary found some noColon compactSecond compactRest,
        if_neg continues, if_pos (ne_of_apply_ne List.length shorter.ne'), read]
  | object _ _ ihInner ih =>
      intro rounds oldInput text spells compact enough
      obtain ⟨rounds, rfl⟩ := Nat.exists_eq_add_of_lt enough
      obtain ⟨ordinary, rest, found, others⟩ := spells
      have whole := found
      rw [← List.append_nil (ToJSONVisitor.keyText _)] at whole
      obtain ⟨shorter, _, compactRest⟩ := rest_of_search whole compact
      obtain ⟨left, spellsLeft, compactLeft, length, inner⟩ :=
        @ihInner (text.length + rounds) [] rest others compactRest (by omega)
      have shorterLeft := length.trans_lt shorter
      obtain ⟨text', spells', compact', length', read⟩ :=
        @ih (text.length + rounds) text left spellsLeft compactLeft (by omega)
      refine ⟨text', spells', compact', length'.trans shorterLeft.le, ?_⟩
      rw [readKeyValues_object ordinary found compactRest inner,
        if_pos (ne_of_apply_ne List.length shorterLeft.ne'), read]

end Cluon
