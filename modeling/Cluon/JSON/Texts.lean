import Cluon.JSON.Values
import Cluon.Library.JSONGrammar
import Cluon.Message.DataStructures

/-!
# The JSON texts of messages

`json()` is a JSON text that denotes an object with the members that are not masked, in their
order, if each character that it encodes stands for itself in a string (`emitsJSON_iff`). A
character is written raw between quotes: a quote ends the string too early, a backslash keeps it
open, and neither control characters nor single bytes from 128 on may stand in a string. Line breaks
stand between the members, so a string that is left open is not closed by a later one, and the text
is no JSON text at all (`plain_of_isText`).
-/

set_option autoImplicit false

namespace Cluon

open Library JSON Json

/-! ## What a message denotes -/

/-- What the text of a scalar denotes. Floating-point numbers are left out. -/
def ScalarType.json : (t : ScalarType) → t.Value → Json
  | .char, v => .string (units [v])
  | .bytes, v | .string, v => .string (units (encodeBase64 v))
  | .float, _ | .double, _ => .null
  | t, v => .number (t.jsonNumber v)

/-- The members of the object for a message. -/
def Fields.jsonMembers : (fs : Fields) → fs.Values → List (List (BitVec 16) × Json)
  | .nil, _ => []
  | .scalar field t rest, m => (units field.name, t.json m.1) :: rest.jsonMembers m.2
  | .nested field _ inner rest, m =>
      (units field.name, .object (inner.jsonMembers m.1)) :: rest.jsonMembers m.2

/-- Not a floating-point type. -/
def ScalarType.IsExact (t : ScalarType) : Prop := t ≠ .float ∧ t ≠ .double

/-- A character stands for itself in a string. -/
def ScalarType.IsPlain : (t : ScalarType) → t.Value → Prop
  | .char, v => IsPlainChar v
  | _, _ => True

/-- Whether a mask shows a field: it is not set to false. -/
def ToJSONVisitor.shows (mask : KeyValueMap (BitVec 32) Bool) (id : BitVec 32) : Bool :=
  mask.find id ≠ some false

theorem ToJSONVisitor.renders_eq_shows (e : ToJSONVisitor) : e.renders = shows e.mask := by
  funext id
  rw [renders, shows, KeyValueMap.count]
  cases value : e.mask.find id with
  | none => rfl
  | some b => cases b <;> rfl

/-! ## Scalars -/

/-- A byte between two plain ones that is not one of the two exceptions. -/
theorem isPlainChar_of_le {c : Byte} (lower : 0x30 ≤ c.toNat) (upper : c.toNat ≤ 0x7A)
    (other : c ≠ escape) : IsPlainChar c := by
  refine ⟨by omega, by omega, ?_, other⟩
  rintro rfl
  exact absurd lower (by decide)

theorem isPlainChar_of_letter (c : Byte) (letter : isLetter c) : IsPlainChar c := by
  have range : 0x61 ≤ c.toNat ∧ c.toNat ≤ 0x7A ∨ 0x41 ≤ c.toNat ∧ c.toNat ≤ 0x5A :=
    of_decide_eq_true letter
  refine isPlainChar_of_le (by omega) (by omega) ?_
  rintro rfl
  exact absurd letter (by decide)

theorem isPlainChar_of_digit (c : Byte) (digit : isDigit c) : IsPlainChar c := by
  have range := of_decide_eq_true digit
  refine isPlainChar_of_le range.1 (by omega) ?_
  rintro rfl
  exact absurd digit (by decide)

theorem isPlainChar_of_identifier {name : Bytes} (identifier : IsIdentifier name) :
    ∀ c ∈ name, IsPlainChar c := by
  cases name with
  | nil => exact absurd identifier not_false
  | cons c s =>
      intro d hd
      rcases List.mem_cons.mp hd with rfl | hd
      · exact isPlainChar_of_letter _ identifier.1
      · rcases identifier.2 d hd with letter | digit | rfl
        · exact isPlainChar_of_letter _ letter
        · exact isPlainChar_of_digit _ digit
        · decide

theorem isPlainChar_of_isBase64 {c : Byte} (h : isBase64 c) : IsPlainChar c := by
  rcases isBase64_cases h with letter | digit | rfl | rfl | rfl
  · exact isPlainChar_of_letter _ letter
  · exact isPlainChar_of_digit _ digit
  · decide
  · decide
  · decide

namespace ToJSONVisitor

variable (F : FloatFormat)

/-- **The text of a scalar is a value**, if a character stands for itself. -/
theorem isValue_scalarText {t : ScalarType} (exact : t.IsExact) {v : t.Value}
    (plain : t.IsPlain v) : IsValue (scalarText F t v) (t.json v) := by
  have number (n : ℤ) : IsValue (decimalInt n) (.number n) := .number (isNumber_decimalInt n)
  have natural (n : Nat) : IsValue (decimal n) (.number (n : ℤ)) :=
    decimalInt_natCast n ▸ number n
  have quoted {s : Bytes} (plain : ∀ c ∈ s, IsPlainChar c) :
      IsValue (quote :: s ++ [quote]) (.string (units s)) := .string (isString_units plain)
  cases t with
  | bool => cases v with
    | true => exact number 1
    | false => exact number 0
  | char => exact quoted fun c hc => List.mem_singleton.mp hc ▸ plain
  | int8 | int16 | int32 | int64 => exact number _
  | uint8 | uint16 | uint32 | uint64 => exact natural _
  | bytes | string => exact quoted fun c hc => isPlainChar_of_isBase64 (all_isBase64 v c hc)
  | float => exact absurd rfl exact.1
  | double => exact absurd rfl exact.2

/-- A character that does not stand for itself leaves a string open, or may not stand in one. -/
theorem scan_scalarText {t : ScalarType} {v : t.Value} (notPlain : ¬ t.IsPlain v) :
    scan .outside (scalarText F t v) = .inside 0 ∨ scan .outside (scalarText F t v) = .refused := by
  have raw : ∀ c : Byte, ¬ IsPlainChar c →
      scan .outside [quote, c, quote] = .inside 0 ∨ scan .outside [quote, c, quote] = .refused := by
    decide +kernel
  cases t with
  | char => exact raw v notPlain
  | bool | int8 | int16 | int32 | int64 | uint8 | uint16 | uint32 | uint64 | bytes | string | float
  | double => exact absurd trivial notPlain

/-! ## Members -/

theorem isStructural_separator : ValueSeparator separator :=
  ⟨[], [newline], fun _ h => absurd h List.not_mem_nil,
    fun _ h => List.mem_singleton.mp h ▸ .inr (.inr (.inl rfl)), rfl⟩

/-- A key and a value. -/
theorem isMember {name text : Bytes} {v : Json} (identifier : IsIdentifier name)
    (value : IsValue text v) : IsMember (keyText name ++ text) (units name, v) := by
  have key : keyText name = (quote :: name ++ [quote]) ++ [colon] := by
    rw [keyText, List.append_assoc]
    rfl
  rw [key]
  exact .mk (isString_units (isPlainChar_of_identifier identifier)) (isStructural_singleton colon)
    value

/-- A member, and the others behind it. -/
theorem isMembers_before {text : Bytes} {member : List (BitVec 16) × Json}
    (isMember : IsMember text member) {fs : Fields} {m : fs.Values}
    (others : fs ≠ .nil →
      IsMembers (fs.jsonBody separator (scalarText F) m []) (fs.jsonMembers m)) :
    IsMembers (text ++ fs.before separator (fs.jsonBody separator (scalarText F) m []))
      (member :: fs.jsonMembers m) := by
  by_cases empty : fs = .nil
  · subst empty
    rw [Fields.before, Fields.jsonBody, List.append_nil]
    exact .last isMember
  · have text : fs.before separator (fs.jsonBody separator (scalarText F) m []) =
        separator ++ fs.jsonBody separator (scalarText F) m [] := by
      cases fs with
      | nil => exact absurd rfl empty
      | scalar => rfl
      | nested => rfl
    rw [text, ← List.append_assoc]
    exact .cons isMember isStructural_separator (others empty)

/-- Members in braces. -/
theorem isValue_object {fs : Fields} {m : fs.Values}
    (members : fs ≠ .nil →
      IsMembers (fs.jsonBody separator (scalarText F) m []) (fs.jsonMembers m)) :
    IsValue (openBrace :: fs.jsonBody separator (scalarText F) m [closeBrace])
      (.object (fs.jsonMembers m)) := by
  have opened := isStructural_singleton openBrace
  have closed := isStructural_singleton closeBrace
  by_cases empty : fs = .nil
  · subst empty
    exact .emptyObject opened closed
  · have text := fs.jsonBody_append separator (scalarText F) m [] [closeBrace]
    rw [List.nil_append] at text
    rw [text]
    exact .object opened (members empty) closed

/-- **The members of a message are those of an object.** -/
theorem isMembers_jsonBody (fs : Fields) :
    fs.All (fun field => IsIdentifier field.name) → fs.AllTypes ScalarType.IsExact →
      ∀ {m : fs.Values}, fs.AllValues ScalarType.IsPlain m → fs ≠ .nil →
        IsMembers (fs.jsonBody separator (scalarText F) m []) (fs.jsonMembers m) := by
  induction fs with
  | nil => intro _ _ _ _ some; exact absurd rfl some
  | scalar field t rest ih =>
      intro names exact m plain _
      have member := isMember names.1 (isValue_scalarText F exact.1 plain.1)
      have all := isMembers_before F member (ih names.2 exact.2 plain.2)
      rw [List.append_assoc] at all
      exact all
  | nested field info inner rest ihInner ih =>
      intro names exact m plain _
      have object := isValue_object F (ihInner names.2.1 exact.1 plain.1)
      have all := isMembers_before F (isMember names.1 object) (ih names.2.2 exact.2 plain.2)
      rw [List.append_assoc, List.cons_append, ← Fields.jsonBody_append] at all
      exact all

/-! ## Scanning the text of a message -/

theorem scan_keyText {name : Bytes} (identifier : IsIdentifier name) :
    scan .outside (keyText name) = .outside := by
  rw [keyText, List.cons_append, scan_cons, scan_append]
  have inside := scan_plain (isPlainChar_of_identifier identifier)
  exact congrArg (scan · [quote, colon]) inside

theorem scan_before (fs : Fields) (text : Bytes) :
    scan .outside (fs.before separator text) = scan .outside text := by
  cases fs with
  | nil => rfl
  | scalar => rfl
  | nested => rfl

/-- A string that is left open is not closed by what follows a member. -/
theorem scan_before_ne (fs : Fields) (m : fs.Values) {after : Bytes}
    (stays : scan (.inside 0) after ≠ .outside) : scan (.inside 0)
      (fs.before separator (fs.jsonBody separator (scalarText F) m after)) ≠ .outside := by
  have broken (text : Bytes) : scan (.inside 0) (separator ++ text) ≠ .outside := by
    rw [scan_append]
    change scan .refused text ≠ .outside
    rw [scan_refused]
    exact nofun
  cases fs with
  | nil => exact stays
  | scalar => exact broken _
  | nested => exact broken _

/-- **Only plain characters leave the scanner between strings.** -/
theorem scan_jsonBody (fs : Fields) :
    fs.All (fun field => IsIdentifier field.name) → fs.AllTypes ScalarType.IsExact →
      ∀ (m : fs.Values) {after : Bytes}, scan (.inside 0) after ≠ .outside →
        (scan .outside (fs.jsonBody separator (scalarText F) m after) = .outside ↔
          fs.AllValues ScalarType.IsPlain m ∧ scan .outside after = .outside) := by
  induction fs with
  | nil => intro _ _ _ _ _; exact ⟨fun h => ⟨trivial, h⟩, fun h => h.2⟩
  | scalar field t rest ih =>
      intro names exact m after stays
      rw [Fields.jsonBody, scan_append, scan_keyText names.1, scan_append]
      by_cases plain : t.IsPlain m.1
      · rw [scan_value (isValue_scalarText F exact.1 plain), scan_before,
          ih names.2 exact.2 m.2 stays]
        exact ⟨fun h => ⟨⟨plain, h.1⟩, h.2⟩, fun h => ⟨h.1.2, h.2⟩⟩
      · refine iff_of_false (fun closed => ?_) fun h => plain h.1.1
        rcases scan_scalarText F plain with open_ | refused
        · rw [open_] at closed
          exact scan_before_ne F rest m.2 stays closed
        · rw [refused, scan_refused] at closed
          cases closed
  | nested field info inner rest ihInner ih =>
      intro names exact m after stays
      have staysInner : scan (.inside 0) (closeBrace :: rest.before separator
          (rest.jsonBody separator (scalarText F) m.2 after)) ≠ .outside :=
        scan_before_ne F rest m.2 stays
      have others : scan .outside (closeBrace :: rest.before separator
          (rest.jsonBody separator (scalarText F) m.2 after)) =
            scan .outside (rest.jsonBody separator (scalarText F) m.2 after) :=
        scan_before rest _
      rw [Fields.jsonBody, scan_append, scan_keyText names.1]
      change scan .outside (inner.jsonBody separator (scalarText F) m.1 _) = _ ↔ _
      rw [ihInner names.2.1 exact.1 m.1 staysInner, others, ih names.2.2 exact.2 m.2 stays]
      exact and_assoc.symm

/-! ## Texts with a mask -/

/-- What holds of all fields holds of those that are shown. -/
theorem unmasked_fields {P : FieldInfo → Prop} {Q : ScalarType → Prop} (shown : BitVec 32 → Bool)
    (fs : Fields) : fs.All P → fs.AllTypes Q → ∀ m : fs.Values,
      (fs.unmasked shown m).1.All P ∧ (fs.unmasked shown m).1.AllTypes Q := by
  induction fs with
  | nil => intro _ _ _; exact ⟨trivial, trivial⟩
  | scalar field t rest ih =>
      intro all types m
      have others := ih all.2 types.2 m.2
      by_cases here : shown field.fieldIdentifier
      · rw [Fields.unmasked_scalar here]
        exact ⟨⟨all.1, others.1⟩, types.1, others.2⟩
      · rw [Fields.unmasked_scalar_masked here]
        exact others
  | nested field info inner rest _ ih =>
      intro all types m
      have others := ih all.2.2 types.2 m.2
      by_cases here : shown field.fieldIdentifier
      · rw [Fields.unmasked_nested here]
        exact ⟨⟨all.1, all.2.1, others.1⟩, types.1, others.2⟩
      · rw [Fields.unmasked_nested_masked here]
        exact others

/-- **What is no JSON text**: a text with a character that does not stand for itself. -/
theorem plain_of_isText {T : MessageType}
    (names : T.fields.All fun field => IsIdentifier field.name)
    (exact : T.fields.AllTypes ScalarType.IsExact) {mask : KeyValueMap (BitVec 32) Bool}
    {m : T.Values} {v : Json} (isText : IsText (encodedWith F mask T m) v) :
    (T.fields.unmasked (shows mask) m).1.AllValues ScalarType.IsPlain
      (T.fields.unmasked (shows mask) m).2 := by
  have fields := unmasked_fields (shows mask) T.fields names exact m
  have stays : scan (.inside 0) [closeBrace] ≠ .outside := nofun
  have scanned := scan_text isText
  rw [encodedWith_eq, renders_eq_shows, scan_cons] at scanned
  exact ((scan_jsonBody F _ fields.1 fields.2 _ stays).mp scanned).1

/-- **A message is encoded as a JSON text**, which denotes an object with the members that are not
masked, if and only if each character among them stands for itself. -/
theorem emitsJSON_iff {T : MessageType} (names : T.fields.All fun field => IsIdentifier field.name)
    (exact : T.fields.AllTypes ScalarType.IsExact) (mask : KeyValueMap (BitVec 32) Bool)
    (m : T.Values) :
    let shown := T.fields.unmasked (shows mask) m
    IsText (encodedWith F mask T m) (.object (shown.1.jsonMembers shown.2)) ↔
      shown.1.AllValues ScalarType.IsPlain shown.2 := by
  intro shown
  refine ⟨plain_of_isText F names exact, fun plain => ?_⟩
  have fields := unmasked_fields (shows mask) T.fields names exact m
  rw [encodedWith_eq, renders_eq_shows]
  exact (isValue_object F (isMembers_jsonBody F shown.1 fields.1 fields.2 plain)).isText

theorem emitsJSON_iff_timeStamp :
    let F : FloatFormat := ⟨fun _ => [], fun _ => [], fun _ => 0, fun _ => 0, fun _ _ => 0⟩
    let shown := TimeStamp.fields.unmasked (shows [(1, false)]) (TimeStamp.of 1 2)
    IsText (encodedWith F [(1, false)] TimeStamp (TimeStamp.of 1 2))
        (.object (shown.1.jsonMembers shown.2)) ↔
      shown.1.AllValues ScalarType.IsPlain shown.2 :=
  emitsJSON_iff _
    (by simp [TimeStamp, Fields.All, FieldInfo.declared, asciiBytes, IsIdentifier, isLetter])
    (by simp [TimeStamp, Fields.AllTypes, ScalarType.IsExact]) _ _

/-- **A quote is not written as a JSON text.** -/
theorem not_emitsJSON :
    ¬ ∀ (F : FloatFormat) (T : MessageType), T.fields.All (fun field => IsIdentifier field.name) →
      T.fields.AllTypes ScalarType.IsExact →
        ∀ (mask : KeyValueMap (BitVec 32) Bool) (m : T.Values),
          let shown := T.fields.unmasked (shows mask) m
          IsText (encodedWith F mask T m) (.object (shown.1.jsonMembers shown.2)) := by
  intro emits
  let T : MessageType :=
    ⟨⟨1, asciiBytes "M", asciiBytes "M"⟩, .scalar (.declared "char" "c" 1) .char .nil⟩
  let F : FloatFormat := ⟨fun _ => [], fun _ => [], fun _ => 0, fun _ => 0, fun _ _ => 0⟩
  have names : T.fields.All fun field => IsIdentifier field.name :=
    ⟨⟨by decide, fun _ h => absurd h List.not_mem_nil⟩, trivial⟩
  have exact : T.fields.AllTypes ScalarType.IsExact := ⟨⟨nofun, nofun⟩, trivial⟩
  have isText := emits F T names exact [] (quote, ())
  have unclosed : scan .outside (encodedWith F [] T (quote, ())) = .inside 0 := by decide
  exact absurd (unclosed.symm.trans (scan_text isText)) (by decide)

end ToJSONVisitor

end Cluon
