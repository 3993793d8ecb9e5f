import Cluon.JSON.Items

/-!
# The items of an encoded message

The encoder writes the members of a message one after the other (`encoded_eq`), and without
white space their text spells one item for each field (`spells_jsonBody`): what the decoder
finds for a scalar is `JSONValue.ofValue`, and it leaves `leftover` of the text of the value.
-/

set_option autoImplicit false

namespace Cluon

open Library JSON stringtoolbox

/-! ## The text of a message -/

namespace Fields

/-- What stands in front of the following fields, if there are any. -/
def before (separator : Bytes) : Fields → Bytes → Bytes
  | .nil, text => text
  | _, text => separator ++ text

/-- The text of the members of a message, with given texts for the values of scalars and
between members, and what follows the message. -/
def jsonBody (separator : Bytes) (scalarText : (t : ScalarType) → t.Value → Bytes) :
    (fs : Fields) → fs.Values → Bytes → Bytes
  | .nil, _, after => after
  | .scalar field t rest, m, after =>
      ToJSONVisitor.keyText field.name ++ (scalarText t m.1 ++
        rest.before separator (rest.jsonBody separator scalarText m.2 after))
  | .nested field _ inner rest, m, after =>
      ToJSONVisitor.keyText field.name ++ (openBrace :: inner.jsonBody separator scalarText m.1
        (closeBrace :: rest.before separator (rest.jsonBody separator scalarText m.2 after)))

variable (separator : Bytes) (scalarText : (t : ScalarType) → t.Value → Bytes)

/-- What follows a message is at the end of its text. -/
theorem jsonBody_append (fs : Fields) :
    ∀ (m : fs.Values) (a b : Bytes),
      fs.jsonBody separator scalarText m (a ++ b) = fs.jsonBody separator scalarText m a ++ b := by
  have split (fs : Fields) (s t : Bytes) :
      fs.before separator (s ++ t) = fs.before separator s ++ t := by
    cases fs <;> simp [before]
  induction fs with
  | nil => intro _ _ _; rfl
  | scalar field t rest ih =>
      intro m a b
      simp only [jsonBody, ih, split, List.append_assoc]
  | nested field info inner rest ihInner ih =>
      intro m a b
      have others : closeBrace :: rest.before separator
          (rest.jsonBody separator scalarText m.2 (a ++ b)) =
          (closeBrace :: rest.before separator (rest.jsonBody separator scalarText m.2 a)) ++ b := by
        rw [ih, split, List.cons_append]
      rw [jsonBody, others, ihInner, jsonBody, List.append_assoc, List.cons_append]

end Fields

/-! ## Masks -/

/-- A message without the fields that are not shown. A mask is about the outermost message only. -/
def Fields.unmasked (shown : BitVec 32 → Bool) :
    (fs : Fields) → fs.Values → (fs' : Fields) × fs'.Values
  | .nil, _ => ⟨.nil, ()⟩
  | .scalar field t rest, m =>
      let others := rest.unmasked shown m.2
      if shown field.fieldIdentifier then ⟨.scalar field t others.1, (m.1, others.2)⟩ else others
  | .nested field info inner rest, m =>
      let others := rest.unmasked shown m.2
      if shown field.fieldIdentifier then
        ⟨.nested field info inner others.1, (m.1, others.2)⟩
      else others

section Unmasked

variable {shown : BitVec 32 → Bool} {field : FieldInfo} {rest : Fields}

theorem Fields.unmasked_scalar {t : ScalarType} (here : shown field.fieldIdentifier)
    (m : (Fields.scalar field t rest).Values) : (Fields.scalar field t rest).unmasked shown m =
      ⟨.scalar field t (rest.unmasked shown m.2).1, (m.1, (rest.unmasked shown m.2).2)⟩ :=
  if_pos here

theorem Fields.unmasked_scalar_masked {t : ScalarType} (masked : ¬ shown field.fieldIdentifier)
    (m : (Fields.scalar field t rest).Values) :
    (Fields.scalar field t rest).unmasked shown m = rest.unmasked shown m.2 :=
  if_neg masked

variable {info : MessageInfo} {inner : Fields}

theorem Fields.unmasked_nested (here : shown field.fieldIdentifier)
    (m : (Fields.nested field info inner rest).Values) :
    (Fields.nested field info inner rest).unmasked shown m =
      ⟨.nested field info inner (rest.unmasked shown m.2).1, (m.1, (rest.unmasked shown m.2).2)⟩ :=
  if_pos here

theorem Fields.unmasked_nested_masked (masked : ¬ shown field.fieldIdentifier)
    (m : (Fields.nested field info inner rest).Values) :
    (Fields.nested field info inner rest).unmasked shown m = rest.unmasked shown m.2 :=
  if_neg masked

end Unmasked

/-- Without a mask, all fields are shown. -/
theorem Fields.unmasked_of_forall {shown : BitVec 32 → Bool} (all : ∀ id, shown id = true)
    (fs : Fields) : ∀ m : fs.Values, fs.unmasked shown m = ⟨fs, m⟩ := by
  induction fs with
  | nil => intro _; rfl
  | scalar field t rest ih => intro m; rw [unmasked_scalar (all _), ih]
  | nested field info inner rest _ ih => intro m; rw [unmasked_nested (all _), ih]

namespace ToJSONVisitor

variable (F : FloatFormat)

/-- The separator of members. -/
def separator : Bytes := [comma, newline]

/-- Members take more than two characters. -/
theorem length_jsonBody {fs : Fields} (some : fs ≠ .nil) (m : fs.Values) (after : Bytes) :
    2 < (fs.jsonBody separator (scalarText F) m after).length := by
  cases fs with
  | nil => exact absurd rfl some
  | scalar field t rest =>
      simp only [Fields.jsonBody, keyText, List.length_append, List.length_cons]
      omega
  | nested field info inner rest =>
      simp only [Fields.jsonBody, keyText, List.length_append, List.length_cons]
      omega

/-- The buffer of an encoder that has visited a message. -/
def members (fs : Fields) (m : fs.Values) : Bytes :=
  if fs = .nil then [] else fs.jsonBody separator (scalarText F) m separator

/-- `json()` cuts the last separator off. -/
theorem json_members (fs : Fields) (m : fs.Values) :
    json (init.append (members F fs m)) =
      openBrace :: fs.jsonBody separator (scalarText F) m [closeBrace] := by
  by_cases empty : fs = .nil
  · subst empty
    rfl
  · have body (after : Bytes) := fs.jsonBody_append separator (scalarText F) m [] after
    simp only [List.nil_append] at body
    have cut : (fs.jsonBody separator (scalarText F) m separator).take
        ((fs.jsonBody separator (scalarText F) m separator).length - 2) =
          fs.jsonBody separator (scalarText F) m [] := by
      rw [body separator, List.length_append]
      exact List.take_left' rfl
    rw [members, if_neg empty, append, init, List.nil_append, json,
      if_pos (length_jsonBody F empty m separator), cut, body [closeBrace]]
    rfl

theorem renders_of_mask {e : ToJSONVisitor} (h : e.mask = []) (id : BitVec 32) :
    e.renders id = true := by
  rw [renders, h]
  rfl

/-- What stands behind the text of a member is the text of the others. -/
theorem separator_members (fs : Fields) (m : fs.Values) :
    separator ++ members F fs m =
      fs.before separator (fs.jsonBody separator (scalarText F) m separator) := by
  cases fs with
  | nil => rfl
  | scalar field t rest => rw [members, if_neg (by simp)]; rfl
  | nested field info inner rest => rw [members, if_neg (by simp)]; rfl

theorem append_append (e : ToJSONVisitor) (a b : Bytes) :
    (e.append a).append b = e.append (a ++ b) := by
  rw [append, append, append, List.append_assoc]

/-- **An encoder appends the members that are not masked**, each with a comma. -/
theorem accept_unmasked (fs : Fields) :
    ∀ (m : fs.Values) (e : ToJSONVisitor), (fs.visitable (visitor F)).accept m e =
      (m, e.append (members F (fs.unmasked e.renders m).1 (fs.unmasked e.renders m).2)) := by
  induction fs with
  | nil =>
      intro m e
      have nothing : e.append [] = e := by rw [append, List.append_nil]
      exact congrArg (m, ·) nothing.symm
  | scalar field t rest ih =>
      intro m e
      rw [Fields.accept_scalar]
      by_cases shown : e.renders field.fieldIdentifier
      · have visited : (visitor F).visit field t m.1 e =
            (m.1, e.append (keyText field.name ++ scalarText F t m.1 ++ separator)) := if_pos shown
        have others := ih m.2 (e.append (keyText field.name ++ scalarText F t m.1 ++ separator))
        rw [visited, Fields.unmasked_scalar shown]
        simp only [others]
        rw [append_append, List.append_assoc, separator_members, List.append_assoc, members,
          if_neg (by simp)]
        rfl
      · have visited : (visitor F).visit field t m.1 e = (m.1, e) := if_neg shown
        rw [visited, Fields.unmasked_scalar_masked shown]
        simp only [ih]
  | nested field info inner rest ihInner ih =>
      intro m e
      have nested : acceptAll (visitor F) info (inner.visitable (visitor F)).accept m.1 init =
          (m.1, init.append (members F inner m.1)) := by
        have accepted := ihInner m.1 init
        rw [inner.unmasked_of_forall (renders_of_mask rfl)] at accepted
        exact accepted
      rw [Fields.accept_nested]
      by_cases shown : e.renders field.fieldIdentifier
      · have visited : (visitor F).visitMessage field
            ((MessageType.mk info inner).visitable (visitor F)) m.1 e =
            (m.1, e.append (keyText field.name ++
              (openBrace :: inner.jsonBody separator (scalarText F) m.1 [closeBrace]) ++
                separator)) := by
          refine (if_pos shown).trans ?_
          rw [MessageType.accept_eq, nested]
          simp only [json_members]
          rfl
        have others := ih m.2 (e.append (keyText field.name ++
          (openBrace :: inner.jsonBody separator (scalarText F) m.1 [closeBrace]) ++ separator))
        have closed := inner.jsonBody_append separator (scalarText F) m.1 [closeBrace]
        rw [visited, Fields.unmasked_nested shown]
        simp only [others]
        rw [append_append, List.append_assoc, separator_members, List.append_assoc,
          List.cons_append, ← closed, members, if_neg (by simp)]
        rfl
      · have visited : (visitor F).visitMessage field
            ((MessageType.mk info inner).visitable (visitor F)) m.1 e = (m.1, e) := if_neg shown
        rw [visited, Fields.unmasked_nested_masked shown]
        simp only [ih]

/-- **The JSON text of a message**, with a mask. -/
theorem encodedWith_eq (mask : KeyValueMap (BitVec 32) Bool) (T : MessageType) (m : T.Values) :
    let shown := T.fields.unmasked (renders ⟨true, mask, []⟩) m
    encodedWith F mask T m =
      openBrace :: shown.1.jsonBody separator (scalarText F) shown.2 [closeBrace] := by
  intro shown
  have visited : acceptAll (visitor F) T.info (T.fields.visitable (visitor F)).accept m
      ⟨true, mask, []⟩ = (m, append ⟨true, mask, []⟩ (members F shown.1 shown.2)) :=
    accept_unmasked F T.fields m ⟨true, mask, []⟩
  rw [encodedWith, MessageType.accept_eq, visited]
  exact json_members F shown.1 shown.2

/-- **The JSON text of a message**, without a mask. -/
theorem encoded_eq (T : MessageType) (m : T.Values) :
    encoded F T m =
      openBrace :: T.fields.jsonBody separator (scalarText F) m [closeBrace] := by
  have text := encodedWith_eq F [] T m
  rw [T.fields.unmasked_of_forall (renders_of_mask rfl)] at text
  exact text

end ToJSONVisitor

/-! ## Without white space -/

namespace ToJSONVisitor

variable (F : FloatFormat)

/-- The text of the value of a scalar, without white space. -/
def compactText (t : ScalarType) (v : t.Value) : Bytes :=
  (scalarText F t v).filter fun c => !isSpace c

theorem filter_keyText {name : Bytes} (identifier : IsIdentifier name) :
    (keyText name).filter (fun c => !isSpace c) = keyText name := by
  apply List.filter_eq_self.mpr
  intro c hc
  simp only [keyText, List.cons_append, List.mem_cons, List.mem_append, List.not_mem_nil,
    or_false] at hc
  rcases hc with rfl | hc | rfl | rfl
  · decide
  · have plain := identifier.ordinary c hc
    rw [isOrdinary, Bool.and_eq_true] at plain
    exact plain.2
  · decide
  · decide

/-- Extracting the text from a stream removes the white space between the members, and inside
of the values of characters. -/
theorem filter_jsonBody (fs : Fields) :
    fs.All (fun field => IsIdentifier field.name) → ∀ (m : fs.Values) (after : Bytes),
      (fs.jsonBody separator (scalarText F) m after).filter (fun c => !isSpace c) =
        fs.jsonBody [comma] (compactText F) m (after.filter fun c => !isSpace c) := by
  have between (fs : Fields) (s : Bytes) :
      (fs.before separator s).filter (fun c => !isSpace c) =
        fs.before [comma] (s.filter fun c => !isSpace c) := by
    cases fs <;> rfl
  have brace : isSpace openBrace = false ∧ isSpace closeBrace = false := by decide
  induction fs with
  | nil => intro _ _ _; rfl
  | scalar field t rest ih =>
      intro names m after
      simp only [Fields.jsonBody, List.filter_append, filter_keyText names.1, between,
        ih names.2, compactText]
  | nested field info inner rest ihInner ih =>
      intro names m after
      simp only [Fields.jsonBody, List.filter_append, filter_keyText names.1, List.filter_cons,
        brace, ihInner names.2.1, between, ih names.2.2, Bool.not_false, if_true]

end ToJSONVisitor

end Cluon
