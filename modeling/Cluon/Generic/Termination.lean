import Cluon.Generic.Creation
import Cluon.Specification.MessageParser

/-!
# Where the creation of generic messages ends

`createFrom` creates a generic message for every field whose type is found in the specification,
and these create those of their fields. The parser does not look at the types of fields, so a
specification may have message types that contain themselves. For such a type `createFrom` calls
itself again and again, and it ends for all message types that none of these is a part of
(`creationTerminates_iff`).
-/

set_option autoImplicit false

namespace Cluon

open Library Relation

namespace GenericMessage

section CreateFields

variable {α : Type} {scope : KeyValueMap Bytes MetaMessage} {create : MetaMessage → Option α}

/-- The loop of `createFrom` creates the messages of all fields. -/
theorem exists_create_of_createFields {fields : List MetaField} :
    ∀ {before after : KeyValueMap (BitVec 32) (LinbAny α)},
      fields.foldlM (createField scope create) before = some after →
        ∀ f ∈ fields, f.fieldDataType = .message → ∀ inner,
          scope.find f.fieldDataTypeName = some inner → ∃ gm, create inner = some gm := by
  induction fields with
  | nil => intro _ _ _ f member; cases member
  | cons f fs ih =>
      intro before after h f' member type inner found
      rw [List.foldlM_cons] at h
      obtain ⟨next, created, h⟩ := Option.bind_eq_some_iff.mp h
      rcases List.mem_cons.mp member with rfl | later
      · rw [createField, type] at created
        simp only [found] at created
        obtain ⟨gm, made, -⟩ := Option.map_eq_some_iff.mp created
        exact ⟨gm, made⟩
      · exact ih h f' later type inner found

end CreateFields

variable {mms : List MetaMessage}

/-- A message is created after those that it contains, which are nested less deep. -/
theorem exists_createFrom_of_contains {n : Nat} {outer inner : MetaMessage}
    {gm : GenericMessage n} (created : createFrom mms n outer = some gm)
    (contains : outer.Contains mms inner) :
    ∃ k < n, ∃ gm, createFrom mms k inner = some gm := by
  cases n with
  | zero => cases created
  | succ n =>
      rw [createFrom] at created
      obtain ⟨data, fields, -⟩ := Option.map_eq_some_iff.mp created
      obtain ⟨f, member, type, found⟩ := contains
      exact ⟨n, Nat.lt_succ_self n, exists_create_of_createFields fields f member type inner found⟩

theorem exists_createFrom_of_transGen {outer inner : MetaMessage}
    (contains : TransGen (MetaMessage.Contains mms) outer inner) :
    ∀ {n : Nat} {gm : GenericMessage n}, createFrom mms n outer = some gm →
      ∃ k < n, ∃ gm, createFrom mms k inner = some gm := by
  induction contains with
  | single contains => intro n gm created; exact exists_createFrom_of_contains created contains
  | tail _ contains ih =>
      intro n gm created
      obtain ⟨k, less, gm', created'⟩ := ih created
      obtain ⟨l, less', made⟩ := exists_createFrom_of_contains created' contains
      exact ⟨l, less'.trans less, made⟩

/-- **A message that contains itself is not created**, however deep messages may be nested. -/
theorem createFrom_of_recursive {mm : MetaMessage}
    (recursive : TransGen (MetaMessage.Contains mms) mm mm) (n : Nat) :
    createFrom mms n mm = none := by
  induction n using Nat.strong_induction_on with
  | _ n ih =>
      rcases created : createFrom mms n mm with _ | gm
      · rfl
      · obtain ⟨k, less, gm', created'⟩ := exists_createFrom_of_transGen recursive created
        rw [ih k less] at created'
        cases created'

end GenericMessage

/-- `createFrom(mm, mms)` ends: there is a bound on how deep it nests messages. -/
def CreationTerminates (mms : List MetaMessage) (mm : MetaMessage) : Prop :=
  ∃ n, ∃ gm, GenericMessage.createFrom mms n mm = some gm

/-- **The creation of a generic message ends** if and only if no message type that is a part of it,
the message itself included, contains itself. -/
theorem creationTerminates_iff (S : AcceptedSpecification) (mm : MetaMessage) :
    CreationTerminates S.messages mm ↔
      ∀ inner, ReflTransGen (MetaMessage.Contains S.messages) mm inner →
        ¬ TransGen (MetaMessage.Contains S.messages) inner inner := by
  constructor
  · rintro ⟨n, gm, created⟩ inner part recursive
    have never := GenericMessage.createFrom_of_recursive recursive
    rcases ReflTransGen.cases_head_iff.mp part with rfl | ⟨next, contains, others⟩
    · rw [never n] at created
      cases created
    · obtain ⟨k, -, gm', created'⟩ := GenericMessage.exists_createFrom_of_transGen
        (TransGen.head' contains others) created
      rw [never k] at created'
      cases created'
  · intro nonRecursive
    exact ⟨_, GenericMessage.exists_createFrom_of_parts nonRecursive (Nat.lt_succ_self _)⟩

/-- **A message type that is that of its own field** is accepted, and its creation does not end. -/
theorem not_creationTerminates :
    ¬ ∀ (S : AcceptedSpecification), ∀ mm ∈ S.messages, CreationTerminates S.messages mm := by
  intro terminates
  let A : MetaMessage :=
    ⟨[], asciiBytes "A", 1, [⟨.message, asciiBytes "A", asciiBytes "a", 1, []⟩]⟩
  let S : AcceptedSpecification :=
    ⟨asciiBytes "message A [id = 1] \x7b A a; \x7d", [A], by decide +kernel⟩
  have contains : A.Contains S.messages A := ⟨_, List.mem_cons_self, rfl, by decide⟩
  obtain ⟨n, gm, created⟩ := terminates S A List.mem_cons_self
  rw [GenericMessage.createFrom_of_recursive (.single contains) n] at created
  cases created

end Cluon
