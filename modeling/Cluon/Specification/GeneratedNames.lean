import Cluon.Specification.MetaMessageToCPPTransformator

/-!
# Clashes of generated names

All messages of a specification have the same package, and their names begin with letters. So the
include guards of their headers, and their names in Protobuf, are made of their own names in the
same way. Dots become underscores in both, and guards are in upper case. This is where the names
of different messages can clash.

The name of a type may have white space behind its parts, which is kept in the generated names. So
a field has the type of a message only if its name is written with the same white space there.
`generatedNamesDistinct_iff` says that names do not clash in all other cases.
-/

set_option autoImplicit false

namespace Cluon

open Library MessageParser

/-- The messages of a specification have different include guards, and different names in
Protobuf. The type of a field is the name of the message it refers to, where white space does not
count. -/
structure GeneratedNamesDistinct (S : AcceptedSpecification) : Prop where
  headerGuards :
    (S.messages.map fun mm => (MetaMessageToCPPTransformator.visit mm).headerGuard).Nodup
  protoNames : (S.messages.map fun mm => (MetaMessageToProtoTransformator.visit mm).message).Nodup
  fieldTypes : ∀ mm ∈ S.messages, ∀ f ∈ mm.listOfMetaFields, f.fieldDataType = .message →
    ∀ nested ∈ S.messages, plainName nested.messageName = plainName f.fieldDataTypeName →
      (MetaMessageToCPPTransformator.fieldEntry mm f).type =
          (MetaMessageToCPPTransformator.visit nested).className ∧
        MetaMessageToProtoTransformator.typeText mm f =
          (MetaMessageToProtoTransformator.visit nested).message

/-- The name of a message with underscores for dots, and in upper case. -/
def foldedName (mm : MetaMessage) : Bytes :=
  (MetaMessageToProtoTransformator.withUnderscores mm.messageName).map
    MetaMessageToCPPTransformator.toupper

/-- A field that refers to a message has its name with the same white space in it. -/
def SameWhitespace (mms : List MetaMessage) : Prop :=
  ∀ mm ∈ mms, ∀ f ∈ mm.listOfMetaFields, f.fieldDataType = .message →
    ∀ nested ∈ mms, plainName nested.messageName = plainName f.fieldDataTypeName →
      nested.messageName = f.fieldDataTypeName

namespace MessageParser

/-- A name that begins with a letter still does so when blanks are cut off. -/
theorem beginsWithLetter_trim {w : Bytes} (h : BeginsWithLetter w) :
    (stringtoolbox.trim w).head? ≠ some 0x2E := by
  obtain ⟨c, s, rfl, letter⟩ := h
  have notBlank : stringtoolbox.isBlank c = false := by
    revert letter
    decide +revert
  obtain ⟨t, b, trimmed, -⟩ := trim_cons notBlank s
  rw [trimmed]
  rintro ⟨⟩
  cases letter

end MessageParser

/-- The package stands in front of the name. -/
theorem qualified_append (packageName messageName : Bytes) :
    qualified packageName messageName = qualified packageName [] ++ messageName := by
  rw [qualified, qualified]
  split <;> simp

namespace AcceptedSpecification

/-- **All messages have the same package**, and their names do not begin with dots. -/
theorem exists_packageName (S : AcceptedSpecification) : ∃ packageName, ∀ mm ∈ S.messages,
    mm.packageName = packageName ∧ mm.messageName.head? ≠ some 0x2E := by
  obtain ⟨ast, tree, -, -, made⟩ := parse_eq_noMessageParserError.mp S.accepted
  have wellFormed := wellFormed_of_syntaxTree tree
  have several (packageName : Bytes)
      (made : ast.messages.mapM (createMetaMessage packageName) = some S.messages) :
      ∀ mm ∈ S.messages, mm.packageName = stringtoolbox.trim packageName ∧
        mm.messageName.head? ≠ some 0x2E := by
    intro mm member
    obtain ⟨m, inMessages, isMm⟩ :=
      List.mem_map.mp ((map_eq_of_mapM made) ▸ List.mem_map_of_mem (f := some) member)
    have isWellFormed := wellFormed m inMessages
    have created := created_of_createMetaMessage isWellFormed isMm
    refine ⟨created.packageName, ?_⟩
    rw [created.messageName]
    exact beginsWithLetter_trim isWellFormed.messageName
  obtain ⟨packageName, messages⟩ := ast
  rcases packageName with _ | packageName
  · exact ⟨_, several [] made⟩
  · rcases messages with _ | ⟨m, more⟩
    · refine ⟨[], ?_⟩
      have only : S.messages = [⟨[], [], 0, []⟩] := (Option.some.inj made).symm
      rw [only]
      exact List.forall_mem_singleton.mpr ⟨rfl, nofun⟩
    · exact ⟨_, several packageName made⟩

end AcceptedSpecification

namespace MetaMessageToProtoTransformator

/-- The name of a message with its package, with underscores. -/
theorem message_eq {mm : MetaMessage} (name : mm.messageName.head? ≠ some 0x2E) :
    (visit mm).message = withUnderscores (qualified mm.packageName mm.messageName) := by
  rw [← text_eq_message rfl name, messageTypeText, qualified]
  by_cases empty : mm.packageName = []
  · simp [empty, withUnderscores]
  · simp [empty, withUnderscores_eq_nil, withUnderscores_append]
    rfl

end MetaMessageToProtoTransformator

namespace MetaMessageToCPPTransformator

theorem replaceDots_colons_cons (c : Byte) (s : Bytes) :
    replaceDots (asciiBytes "::") (c :: s) =
      (if c = 0x2E then asciiBytes "::" else [c]) ++ replaceDots (asciiBytes "::") s := rfl

/-- A dot and a colon are different in names without white space. -/
theorem dot_of_replaceDots_eq {d : Byte} {a b : Bytes}
    (plain : plainName (0x2E :: a) = plainName (d :: b))
    (same : replaceDots (asciiBytes "::") (0x2E :: a) = replaceDots (asciiBytes "::") (d :: b)) :
    d = 0x2E := by
  by_contra other
  rw [replaceDots_colons_cons, replaceDots_colons_cons, if_neg other] at same
  obtain ⟨rfl, -⟩ := List.cons.inj same
  cases (List.cons.inj plain).1

/-- Names without white space that are the same do not differ in dots and colons. -/
theorem eq_of_replaceDots_eq {a b : Bytes} (plain : plainName a = plainName b)
    (same : replaceDots (asciiBytes "::") a = replaceDots (asciiBytes "::") b) : a = b := by
  induction a generalizing b with
  | nil => exact ((replaceDots_eq_nil (by decide)).mp same.symm).symm
  | cons c a ih =>
      cases b with
      | nil => exact (replaceDots_eq_nil (by decide)).mp same
      | cons d b =>
          have equal : c = d ∧
              replaceDots (asciiBytes "::") a = replaceDots (asciiBytes "::") b := by
            by_cases dot : c = 0x2E
            · subst dot
              obtain rfl := dot_of_replaceDots_eq plain same
              exact ⟨rfl, List.append_cancel_left same⟩
            · by_cases dot' : d = 0x2E
              · subst dot'
                exact absurd (dot_of_replaceDots_eq plain.symm same.symm) dot
              · rw [replaceDots_colons_cons, replaceDots_colons_cons, if_neg dot,
                  if_neg dot'] at same
                exact List.cons.inj same
          obtain ⟨rfl, others⟩ := equal
          refine congrArg (c :: ·) (ih ?_ others)
          rw [plainName, plainName, List.filter_cons, List.filter_cons] at plain
          split at plain
          · exact (List.cons.inj plain).2
          · exact plain

end MetaMessageToCPPTransformator

open MetaMessageToProtoTransformator MetaMessageToCPPTransformator

/-- Include guards clash when the folded names of messages do. -/
theorem nodup_headerGuards (S : AcceptedSpecification) :
    (S.messages.map fun mm => (MetaMessageToCPPTransformator.visit mm).headerGuard).Nodup ↔
      (S.messages.map foldedName).Nodup := by
  obtain ⟨packageName, same⟩ := S.exists_packageName
  have guards : (S.messages.map fun mm => (MetaMessageToCPPTransformator.visit mm).headerGuard) =
      (S.messages.map foldedName).map fun name =>
        (withUnderscores (qualified packageName [])).map toupper ++ name := by
    rw [List.map_map]
    apply List.map_congr_left
    intro mm member
    obtain ⟨package, name⟩ := same mm member
    rw [headerGuard_eq name, package, qualified_append, withUnderscores_append, List.map_append]
    rfl
  rw [guards]
  exact List.nodup_map_iff (List.append_right_injective _)

/-- **Generated names are distinct** if and only if the names of the messages differ in more than
dots, underscores, and upper and lower case, and the types of fields are written with the white
space of the declarations. -/
theorem generatedNamesDistinct_iff (S : AcceptedSpecification) :
    GeneratedNamesDistinct S ↔ (S.messages.map foldedName).Nodup ∧ SameWhitespace S.messages := by
  obtain ⟨packageName, same⟩ := S.exists_packageName
  constructor
  · intro h
    refine ⟨(nodup_headerGuards S).mp h.headerGuards, ?_⟩
    intro mm member f inFields message nested inMessages plain
    obtain ⟨isType, -⟩ := h.fieldTypes mm member f inFields message nested inMessages plain
    have package := (same mm member).1
    obtain ⟨package', name⟩ := same nested inMessages
    rw [fieldEntry, message, className_eq name] at isType
    change completeDataTypeNameWithDoubleColons _ _ = _ at isType
    rw [completeDataTypeNameWithDoubleColons_eq, package, package',
      qualified_append packageName f.fieldDataTypeName,
      qualified_append packageName nested.messageName, replaceDots_append, replaceDots_append]
      at isType
    exact eq_of_replaceDots_eq plain (List.append_cancel_left isType).symm
  · rintro ⟨distinct, sameWhitespace⟩
    have guards := (nodup_headerGuards S).mpr distinct
    refine ⟨guards, ?_, ?_⟩
    · -- A guard is the name in Protobuf in upper case.
      have inUpperCase : (S.messages.map fun mm =>
          (MetaMessageToCPPTransformator.visit mm).headerGuard) =
            (S.messages.map fun mm => (MetaMessageToProtoTransformator.visit mm).message).map
              (List.map toupper) := by
        rw [List.map_map]
        apply List.map_congr_left
        intro mm member
        obtain ⟨-, name⟩ := same mm member
        rw [headerGuard_eq name, Function.comp_apply, message_eq name]
      rw [inUpperCase] at guards
      exact guards.of_map _
    · intro mm member f inFields message nested inMessages plain
      have written := sameWhitespace mm member f inFields message nested inMessages plain
      have package := (same mm member).1
      obtain ⟨package', name⟩ := same nested inMessages
      rw [fieldEntry, typeText, message, ← written, package, ← package']
      exact ⟨type_eq_className name, text_eq_message rfl name⟩

/-- **Two messages whose names differ in a dot.** Both have the same include guard, and the same
name in Protobuf. -/
theorem not_generatedNamesDistinct : ¬ ∀ S, GeneratedNamesDistinct S := by
  intro h
  have accepted : parse (asciiBytes "message A.B [id=1] \x7b \x7d message A_B [id=2] \x7b \x7d") =
      some ([⟨[], asciiBytes "A.B", 1, []⟩, ⟨[], asciiBytes "A_B", 2, []⟩],
        .noMessageParserError) := by
    decide +kernel
  have guards := (h ⟨_, _, accepted⟩).headerGuards
  have same : (MetaMessageToCPPTransformator.visit ⟨[], asciiBytes "A.B", 1, []⟩).headerGuard =
      (MetaMessageToCPPTransformator.visit ⟨[], asciiBytes "A_B", 2, []⟩).headerGuard := by
    decide
  exact (List.nodup_cons.mp guards).1 (List.mem_singleton.mpr same)

end Cluon
