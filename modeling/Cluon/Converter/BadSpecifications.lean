import Cluon.Converter.EnvelopeConverter
import Cluon.Specification.DuplicateFree

/-!
# Specifications that the parser does not report

`parse` catches `std::bad_cast` only. The conversion of an identifier that is no `int` throws
`std::out_of_range`, which leaves `parse`, and ends the program where `setMessageSpecification` has
called it. This happens for the numbers that are converted: those of messages, the first identifier
of each field, and if no duplicates are found, its last one (`reportsSpecification_iff`).
-/

set_option autoImplicit false

namespace Cluon

open Library MessageParser

/-- The parser returns one of its result codes for the text, and no messages unless there is no
error. So the program goes on after the text has been given to a converter. -/
def ReportsSpecification (input : Bytes) : Prop :=
  (∃ mms code, parse input = some (mms, code) ∧ (code ≠ .noMessageParserError → mms = [])) ∧
    ∀ c : EnvelopeConverter, ∃ result, c.setMessageSpecification input = some result

/-- The numbers that are converted are of type `int`. -/
def MessagesSpecification.NumbersInRange (ast : MessagesSpecification) : Prop :=
  ast.Checkable ∧ (ast.FirstDistinct → ast.Creatable)

namespace MessageParser

/-- The result for a syntax tree exists if its numbers can be converted. -/
theorem exists_resultOf_iff {ast : MessagesSpecification}
    (wellFormed : ∀ m ∈ ast.messages, MessageWellFormed m) :
    (∃ result, resultOf ast = some result) ↔ ast.NumbersInRange := by
  rw [resultOf_eq wellFormed]
  constructor
  · rintro ⟨result, found⟩
    split_ifs at found with checkable distinct
    · obtain ⟨mms, made, -⟩ := Option.map_eq_some_iff.mp found
      obtain ⟨creatable, -⟩ := transform2MetaMessages_eq_some wellFormed distinct made
      exact ⟨checkable, fun _ => creatable⟩
    · exact ⟨checkable, fun distinct' => absurd distinct' distinct⟩
  · rintro ⟨checkable, creatable⟩
    rw [if_pos checkable]
    by_cases distinct : ast.FirstDistinct
    · obtain ⟨mms, made⟩ :=
        exists_transform2MetaMessages wellFormed checkable (creatable distinct)
      rw [if_pos distinct, made]
      exact ⟨_, rfl⟩
    · rw [if_neg distinct]
      exact ⟨_, rfl⟩

/-- There are no messages unless there is no error. -/
theorem messages_of_resultOf {ast : MessagesSpecification}
    (wellFormed : ∀ m ∈ ast.messages, MessageWellFormed m)
    {mms : List MetaMessage} {code : MessageParserErrorCodes}
    (h : resultOf ast = some (mms, code)) : code ≠ .noMessageParserError → mms = [] := by
  rw [resultOf_eq wellFormed] at h
  intro error
  split_ifs at h with checkable distinct
  · obtain ⟨_, -, same⟩ := Option.map_eq_some_iff.mp h
    exact absurd (Prod.mk.inj same).2.symm error
  · exact (Prod.mk.inj (Option.some.inj h)).1.symm

end MessageParser

/-- A converter takes the text if and only if the parser returns. -/
theorem EnvelopeConverter.exists_setMessageSpecification_iff (c : EnvelopeConverter)
    (input : Bytes) : (∃ result, c.setMessageSpecification input = some result) ↔
      ∃ result, parse input = some result := by
  rw [setMessageSpecification]
  rcases parse input with _ | parsingResult
  · simp
  · rw [Option.bind_eq_bind, Option.bind_some]
    split_ifs <;> simp

/-- **Bad specifications are reported** if and only if the numbers of the syntax tree, if there is
one, are of type `int` where they are converted. -/
theorem reportsSpecification_iff (input : Bytes) :
    ReportsSpecification input ↔
      ∀ ast, syntaxTree input = some ast → ast.NumbersInRange := by
  have returns : ReportsSpecification input ↔ ∃ result, parse input = some result := by
    constructor
    · rintro ⟨⟨mms, code, parsed, -⟩, -⟩
      exact ⟨_, parsed⟩
    · rintro ⟨⟨mms, code⟩, parsed⟩
      refine ⟨⟨mms, code, parsed, ?_⟩, fun c => ?_⟩
      · rw [parse] at parsed
        rcases tree : syntaxTree input with _ | ast
        · rw [tree] at parsed
          exact fun _ => (Prod.mk.inj (Option.some.inj parsed)).1.symm
        · rw [tree] at parsed
          exact messages_of_resultOf (wellFormed_of_syntaxTree tree) parsed
      · exact (c.exists_setMessageSpecification_iff input).mpr ⟨_, parsed⟩
  rw [returns, parse]
  rcases tree : syntaxTree input with _ | ast
  · simp
  · simp only [Option.some.injEq, forall_eq']
    exact exists_resultOf_iff (wellFormed_of_syntaxTree tree)

/-- **An identifier that is no `int`** is not reported. -/
theorem not_reportsSpecification :
    ¬ ReportsSpecification (asciiBytes "message A [id = 2147483648] \x7b \x7d") := by
  rintro ⟨⟨mms, code, parsed, -⟩, -⟩
  have thrown : parse (asciiBytes "message A [id = 2147483648] \x7b \x7d") = none := by
    decide +kernel
  rw [thrown] at parsed
  cases parsed

end Cluon
