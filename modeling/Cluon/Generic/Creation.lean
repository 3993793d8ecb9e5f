import Cluon.Generic.GenericMessage
import Mathlib.Data.List.Chain
import Mathlib.Logic.Relation

/-!
# Creating generic messages

`createFrom` creates the nested messages of a message as it comes to them, so it ends when no
message type contains itself: a chain of messages each of which is contained in the one before
has no message twice, and is not longer than the specification (`exists_createFrom`). What it
creates has the messages of the specification at all depths (`shaped_of_createFrom`).
-/

set_option autoImplicit false

namespace Cluon

open Library

/-! ## Recursive message types -/

/-- A message type is that of a field of another one. -/
def MetaMessage.Contains (mms : List MetaMessage) (outer inner : MetaMessage) : Prop :=
  ∃ f ∈ outer.listOfMetaFields, f.fieldDataType = .message ∧
    (mapForScopeOfMetaMessages mms).find f.fieldDataTypeName = some inner

/-- No message type contains itself, directly or by way of others. -/
def NonRecursive (mms : List MetaMessage) : Prop :=
  ∀ mm, ¬ Relation.TransGen (MetaMessage.Contains mms) mm mm

/-- What is found in the scope of a specification belongs to it. -/
theorem mem_of_find_scope {mms : List MetaMessage} {name : Bytes} {mm : MetaMessage}
    (found : (mapForScopeOfMetaMessages mms).find name = some mm) : mm ∈ mms := by
  have each : ∀ (mms : List MetaMessage) (scope : KeyValueMap Bytes MetaMessage),
      (mms.foldl (fun scope mm => scope.assign mm.messageName mm) scope).find name = some mm →
        mm ∈ mms ∨ scope.find name = some mm := by
    intro mms
    induction mms with
    | nil => intro scope found; exact .inr found
    | cons mm' mms ih =>
        intro scope found
        rcases ih _ found with later | before
        · exact .inl (List.mem_cons_of_mem _ later)
        · rw [KeyValueMap.find_assign] at before
          split at before
          · obtain rfl := Option.some.inj before
            exact .inl List.mem_cons_self
          · exact .inr before
  exact (each mms [] found).resolve_right fun none => by cases none

namespace GenericMessage

/-- The loop of `createFrom` fails where a nested message cannot be created. -/
theorem exists_of_createFields {α : Type} {scope : KeyValueMap Bytes MetaMessage}
    {create : MetaMessage → Option α} {fields : List MetaField} :
    ∀ {data : KeyValueMap (BitVec 32) (LinbAny α)},
      fields.foldlM (createField scope create) data = none →
        ∃ f ∈ fields, f.fieldDataType = .message ∧
          ∃ mm, scope.find f.fieldDataTypeName = some mm ∧ create mm = none := by
  induction fields with
  | nil => intro _ h; cases h
  | cons f fs ih =>
      intro data h
      rw [List.foldlM_cons] at h
      rcases created : createField scope create data f with _ | next
      · refine ⟨f, List.mem_cons_self, ?_⟩
        rw [createField] at created
        split at created
        · cases created
        · rename_i type
          split at created
          · rename_i mm found
            exact ⟨type, mm, found, Option.map_eq_none_iff.mp created⟩
          · cases created
        · cases created
      · rw [created] at h
        obtain ⟨f', member, rest⟩ := ih h
        exact ⟨f', List.mem_cons_of_mem _ member, rest⟩

/-- If messages are nested too deep, then there is a chain of messages that contain each other. -/
theorem exists_chain_of_createFrom {mms : List MetaMessage} :
    ∀ {n : Nat} {mm : MetaMessage}, createFrom mms n mm = none →
      ∃ chain : List MetaMessage, chain.length = n ∧
        (mm :: chain).IsChain (MetaMessage.Contains mms) ∧ chain ⊆ mms := by
  intro n
  induction n with
  | zero => intro mm _; exact ⟨[], rfl, .singleton mm, List.nil_subset _⟩
  | succ n ih =>
      intro mm h
      rw [createFrom, Option.map_eq_none_iff] at h
      obtain ⟨f, member, type, inner, found, none⟩ := exists_of_createFields h
      obtain ⟨chain, length, isChain, subset⟩ := ih none
      exact ⟨inner :: chain, congrArg (· + 1) length,
        .cons_cons ⟨f, member, type, found⟩ isChain,
        List.cons_subset.mpr ⟨mem_of_find_scope found, subset⟩⟩

/-- `createFrom` ends for a message no part of which contains itself. -/
theorem exists_createFrom_of_parts {mms : List MetaMessage} {mm : MetaMessage}
    (nonRecursive : ∀ inner, Relation.ReflTransGen (MetaMessage.Contains mms) mm inner →
      ¬ Relation.TransGen (MetaMessage.Contains mms) inner inner)
    {n : Nat} (deep : mms.length < n) : ∃ gm, createFrom mms n mm = some gm := by
  rw [← Option.isSome_iff_exists, ← Option.ne_none_iff_isSome]
  intro none
  obtain ⟨chain, length, isChain, subset⟩ := exists_chain_of_createFrom none
  have related : (mm :: chain).Pairwise (Relation.TransGen (MetaMessage.Contains mms)) :=
    List.isChain_iff_pairwise.mp (isChain.imp fun _ _ contains => .single contains)
  obtain ⟨parts, related⟩ := List.pairwise_cons.mp related
  have nodup : chain.Nodup := by
    refine related.imp_of_mem fun {a b} member _ contains same => ?_
    subst same
    exact nonRecursive a (parts a member).to_reflTransGen contains
  have atMost := (nodup.subperm subset).length_le
  omega

/-- **`createFrom` ends** for a specification without recursive message types. -/
theorem exists_createFrom {mms : List MetaMessage} (nonRecursive : NonRecursive mms) {n : Nat}
    (deep : mms.length < n) (mm : MetaMessage) : ∃ gm, createFrom mms n mm = some gm :=
  exists_createFrom_of_parts (fun inner _ => nonRecursive inner) deep

/-! ## What is created -/

/-- The nested messages in a map are those of fields of a specification, and meet a condition that
depends on the message type of the field. -/
def DataShaped {α : Type} (mms : List MetaMessage) (mm : MetaMessage)
    (P : MetaMessage → α → Prop) (data : KeyValueMap (BitVec 32) (LinbAny α)) : Prop :=
  ∀ id inside, data.find id = some (.message inside) →
    ∃ f ∈ mm.listOfMetaFields, f.fieldIdentifier = id ∧ f.fieldDataType = .message ∧
      ∃ inner, (mapForScopeOfMetaMessages mms).find f.fieldDataTypeName = some inner ∧
        P inner inside

/-- A generic message of a specification, at all depths. -/
def Shaped (mms : List MetaMessage) : (n : Nat) → MetaMessage → GenericMessage n → Prop
  | 0, _, _ => False
  | n + 1, mm, gm =>
      gm.metaMessage = mm ∧ DataShaped mms mm (Shaped mms n) gm.intermediateDataRepresentation

section DataShaped

variable {α : Type} {mms : List MetaMessage} {mm : MetaMessage} {P : MetaMessage → α → Prop}
  {data : KeyValueMap (BitVec 32) (LinbAny α)}

theorem DataShaped.assign_scalar (shaped : DataShaped mms mm P data) (id : BitVec 32)
    (t : ScalarType) (v : t.Value) : DataShaped mms mm P (data.assign id (.ofScalar t v)) := by
  intro id' inside found
  rw [KeyValueMap.find_assign] at found
  split at found
  · cases t <;> cases found
  · exact shaped id' inside found

theorem DataShaped.assign_message (shaped : DataShaped mms mm P data) {f : MetaField}
    (member : f ∈ mm.listOfMetaFields) (type : f.fieldDataType = .message) {inner : MetaMessage}
    (resolved : (mapForScopeOfMetaMessages mms).find f.fieldDataTypeName = some inner) {gm : α}
    (holds : P inner gm) : DataShaped mms mm P (data.assign f.fieldIdentifier (.message gm)) := by
  intro id inside found
  rw [KeyValueMap.find_assign] at found
  split at found
  · rename_i here
    obtain rfl := LinbAny.message.inj (Option.some.inj found)
    exact ⟨f, member, here, type, inner, resolved, holds⟩
  · exact shaped id inside found

/-- The loop of `createFrom` assigns what it creates. -/
theorem dataShaped_of_createFields {create : MetaMessage → Option α}
    (creates : ∀ inner gm, create inner = some gm → P inner gm) (fields : List MetaField) :
    fields ⊆ mm.listOfMetaFields → ∀ {before after : KeyValueMap (BitVec 32) (LinbAny α)},
      DataShaped mms mm P before →
      fields.foldlM (createField (mapForScopeOfMetaMessages mms) create) before = some after →
        DataShaped mms mm P after := by
  induction fields with
  | nil =>
      intro _ before after shaped h
      obtain rfl := Option.some.inj h
      exact shaped
  | cons f fs ih =>
      intro subset before after shaped h
      obtain ⟨member, subset⟩ := List.cons_subset.mp subset
      rw [List.foldlM_cons] at h
      obtain ⟨next, created, h⟩ := Option.bind_eq_some_iff.mp h
      refine ih subset ?_ h
      rw [createField] at created
      split at created
      · rename_i t type
        obtain rfl := Option.some.inj created
        exact shaped.assign_scalar _ _ _
      · rename_i type
        split at created
        · rename_i inner resolved
          obtain ⟨gm, made, rfl⟩ := Option.map_eq_some_iff.mp created
          exact shaped.assign_message member type resolved (creates inner gm made)
        · obtain rfl := Option.some.inj created
          exact shaped
      · obtain rfl := Option.some.inj created
        exact shaped

end DataShaped

/-- **What `createFrom` creates** is of the specification. -/
theorem shaped_of_createFrom {mms : List MetaMessage} :
    ∀ {n : Nat} {mm : MetaMessage} {gm : GenericMessage n}, createFrom mms n mm = some gm →
      Shaped mms n mm gm := by
  intro n
  induction n with
  | zero => intro _ _ h; cases h
  | succ n ih =>
      intro mm gm h
      rw [createFrom] at h
      obtain ⟨data, created, rfl⟩ := Option.map_eq_some_iff.mp h
      have nothing : DataShaped mms mm (Shaped mms n) [] := fun _ _ found => nomatch found
      have creates (inner : MetaMessage) (gm : GenericMessage n)
          (made : createFrom mms n inner = some gm) : Shaped mms n inner gm := ih made
      exact ⟨rfl,
        dataShaped_of_createFields creates mm.listOfMetaFields (List.Subset.refl _) nothing
        created⟩

end GenericMessage

end Cluon
