import Cluon.Generic.Creation
import Cluon.Proto.Reads

/-!
# Generic messages and memory that was never written

What a generic message takes from a decoder depends on the contents of memory only by way of
strings that have been read in part. For a string field the first record of its identifier counts,
and the bytes of a nested message are decoded in turn. If these strings have all their bytes
(`Settled`), then the generic message is the same whatever the memory contains
(`accept_eq_of_settled`).
-/

set_option autoImplicit false

namespace Cluon

open Library InputStream

namespace FromProtoVisitor

/-! ## The first record of an identifier -/

/-- The decoder after the first read of an identifier, and the wire type of that read. -/
def firstOf (id : BitVec 32) :
    FromProtoVisitor → List (BitVec 32 × Read) → Option (FromProtoVisitor × ProtoConstants)
  | _, [] => none
  | d, r :: rs =>
      if r.1 = id then some (d.store r.2, r.2.protoType) else firstOf id (d.store r.2) rs

/-- All bytes of the string that was read last have been written. -/
def Written (d : FromProtoVisitor) : Prop := d.value.toNat ≤ d.stringValue.written.length

/-- The string that was read last, as far as its bytes have been written. -/
def written (d : FromProtoVisitor) : Bytes := d.stringValue.written.take d.value.toNat

section Collect

variable (uninit : Nat → Byte)

theorem member_of_written {d : FromProtoVisitor} (h : d.Written) :
    d.member uninit .lengthDelimited = .string d.written :=
  congrArg ProtoAny.string (StringBuffer.str_of_le uninit h)

/-- The map has no influence on what is read. -/
theorem firstOf_withMap (id : BitVec 32) (rs : List (BitVec 32 × Read)) :
    ∀ (d : FromProtoVisitor) (map : KeyValueMap (BitVec 32) ProtoAny),
      (firstOf id { d with mapOfKeyValues := map } rs).map (fun f => f.1.member uninit f.2) =
        (firstOf id d rs).map fun f => f.1.member uninit f.2 := by
  have stores : ∀ (d : FromProtoVisitor) (map : KeyValueMap (BitVec 32) ProtoAny) (r : Read),
      ({ d with mapOfKeyValues := map } : FromProtoVisitor).store r =
        { d.store r with mapOfKeyValues := map } := by
    intro d map r
    cases r <;> rfl
  have members : ∀ (d : FromProtoVisitor) (map : KeyValueMap (BitVec 32) ProtoAny)
      (protoType : ProtoConstants),
      ({ d with mapOfKeyValues := map } : FromProtoVisitor).member uninit protoType =
        d.member uninit protoType := by
    intro d map protoType
    cases protoType <;> rfl
  induction rs with
  | nil => intro _ _; rfl
  | cons r rs ih =>
      intro d map
      rw [firstOf, firstOf, stores]
      split
      · rw [Option.map_some, Option.map_some, members]
      · exact ih _ _

/-- **What is found for an identifier** is the payload of its first read. -/
theorem find_foldl_collectRead (id : BitVec 32) (rs : List (BitVec 32 × Read)) :
    ∀ d : FromProtoVisitor,
      (rs.foldl (collectRead uninit) d).mapOfKeyValues.find id =
        (d.mapOfKeyValues.find id).or
          ((firstOf id d rs).map fun f => f.1.member uninit f.2) := by
  induction rs with
  | nil => intro d; exact Option.or_none.symm
  | cons r rs ih =>
      intro d
      have same : (d.store r.2).mapOfKeyValues = d.mapOfKeyValues := by
        cases r.2 <;> rfl
      rw [List.foldl_cons, ih, collectRead, firstOf_withMap, KeyValueMap.find_emplace, same,
        firstOf]
      by_cases here : r.1 = id
      · rw [if_pos here, if_pos here, here]
        cases d.mapOfKeyValues.find id <;> rfl
      · rw [if_neg here, if_neg here]

theorem find_decodeFrom (id : BitVec 32) (bytes : Bytes) :
    (decodeFrom uninit init (ofBytes bytes)).1.mapOfKeyValues.find id =
      (firstOf id init (reads (ofBytes bytes))).map fun f => f.1.member uninit f.2 := by
  rw [decodeFrom_eq_foldl, find_foldl_collectRead]
  rfl

theorem flag_decodeFrom (bytes : Bytes) :
    (decodeFrom uninit init (ofBytes bytes)).1.callToDecodeFromWithDirectVisit = false := by
  have each : ∀ (rs : List (BitVec 32 × Read)) (d : FromProtoVisitor),
      (rs.foldl (collectRead uninit) d).callToDecodeFromWithDirectVisit =
        d.callToDecodeFromWithDirectVisit := by
    intro rs
    induction rs with
    | nil => intro _; rfl
    | cons r rs ih =>
        intro d
        rw [List.foldl_cons, ih]
        exact store_flag d r.2
  rw [decodeFrom_eq_foldl, each]
  rfl

end Collect

end FromProtoVisitor

namespace FromProtoVisitor

/-! ## Memory for what is read -/

/-- So many bytes can be reserved for each string that is read. -/
def ReservesIn (memory : Nat) (bytes : Bytes) : Prop :=
  ∀ r ∈ reads (ofBytes bytes), r.2.declared ≤ memory

instance (memory : Nat) (bytes : Bytes) : Decidable (ReservesIn memory bytes) :=
  inferInstanceAs (Decidable (∀ r ∈ reads (ofBytes bytes), r.2.declared ≤ memory))

/-- The bytes that a nested message is decoded from, after the first stage. -/
def nestedBytes (uninit : Nat → Byte) (bytes : Bytes) (id : BitVec 32) : Option Bytes :=
  match (decodeFrom uninit init (ofBytes bytes)).1.mapOfKeyValues.find id with
  | some (.string s) => some s
  | _ => none

theorem nestedBytes_eq (uninit : Nat → Byte) (bytes : Bytes) (id : BitVec 32) :
    nestedBytes uninit bytes id =
      match (firstOf id init (reads (ofBytes bytes))).map fun f => f.1.member uninit f.2 with
      | some (.string s) => some s
      | _ => none := by
  rw [nestedBytes, find_decodeFrom]

/-- A string that is read is as long as it is declared. -/
theorem exists_declared_of_firstOf {id : BitVec 32} {rs : List (BitVec 32 × Read)} :
    ∀ {d d' : FromProtoVisitor}, firstOf id d rs = some (d', .lengthDelimited) →
      ∃ r ∈ rs, d'.value.toNat = r.2.declared := by
  induction rs with
  | nil => intro _ _ first; cases first
  | cons r rs ih =>
      intro d d' first
      rw [firstOf] at first
      split at first
      · obtain ⟨rfl, type⟩ := Prod.mk.inj (Option.some.inj first)
        refine ⟨r, List.mem_cons_self, ?_⟩
        rcases r with ⟨_, r⟩
        cases r <;> cases type
        rfl
      · obtain ⟨r', member, declared⟩ := ih first
        exact ⟨r', List.mem_cons_of_mem _ member, declared⟩

/-- Nested messages are decoded from no more bytes than can be reserved. -/
theorem length_le_of_nestedBytes {memory : Nat} {uninit : Nat → Byte} {bytes s : Bytes}
    {id : BitVec 32} (reserves : ReservesIn memory bytes)
    (found : nestedBytes uninit bytes id = some s) : s.length ≤ memory := by
  rw [nestedBytes_eq] at found
  rcases first : firstOf id init (reads (ofBytes bytes)) with _ | ⟨d, protoType⟩
  · rw [first] at found
    cases found
  · rw [first, Option.map_some] at found
    cases protoType with
    | varint | eightBytes | fourBytes => cases found
    | lengthDelimited =>
        obtain rfl := Option.some.inj found
        obtain ⟨r, member, declared⟩ := exists_declared_of_firstOf first
        rw [StringBuffer.length_str, declared]
        exact reserves r member

end FromProtoVisitor

namespace GenericMessage

/-- The decoder can reserve memory for all strings that it reads from the bytes of a message, and
from those of the messages nested in it less than `n` deep. Otherwise an exception leaves it, which
ends the program. -/
def reserves (memory : Nat) (uninit : Nat → Byte) (mms : List MetaMessage) :
    (n : Nat) → MetaMessage → Bytes → Bool
  | 0, _, _ => true
  | n + 1, mm, bytes =>
      decide (FromProtoVisitor.ReservesIn memory bytes) && mm.listOfMetaFields.all fun f =>
        decide (f.fieldDataType ≠ .message) ||
          ((mapForScopeOfMetaMessages mms).find f.fieldDataTypeName).all fun inner =>
            (FromProtoVisitor.nestedBytes uninit bytes f.fieldIdentifier).all
              (reserves memory uninit mms n inner)

end GenericMessage

/-! ## Settled bytes -/

/-- The first strings that are read for the fields of a specification have all their bytes, and so
have those that are read from the bytes of nested messages; and memory can be reserved for all
strings. -/
inductive Settled (memory : Nat) (mms : List MetaMessage) : MetaMessage → Bytes → Prop where
  | intro {mm : MetaMessage} {bytes : Bytes} :
      FromProtoVisitor.ReservesIn memory bytes →
      (∀ f ∈ mm.listOfMetaFields, ∀ t : ScalarType, f.fieldDataType = .scalar t →
        t.protoType = .lengthDelimited →
        ∀ d, FromProtoVisitor.firstOf f.fieldIdentifier .init
          (FromProtoVisitor.reads (ofBytes bytes)) = some (d, .lengthDelimited) → d.Written) →
      (∀ f ∈ mm.listOfMetaFields, f.fieldDataType = .message →
        ∀ inner, (mapForScopeOfMetaMessages mms).find f.fieldDataTypeName = some inner →
        ∀ d, FromProtoVisitor.firstOf f.fieldIdentifier .init
          (FromProtoVisitor.reads (ofBytes bytes)) = some (d, .lengthDelimited) →
          d.Written) →
      (∀ f ∈ mm.listOfMetaFields, f.fieldDataType = .message →
        ∀ inner, (mapForScopeOfMetaMessages mms).find f.fieldDataTypeName = some inner →
        ∀ d, FromProtoVisitor.firstOf f.fieldIdentifier .init
          (FromProtoVisitor.reads (ofBytes bytes)) = some (d, .lengthDelimited) →
          Settled memory mms inner d.written) →
      Settled memory mms mm bytes

namespace GenericMessage

open FromProtoVisitor

/-- Memory can be reserved for what is read from settled bytes. -/
theorem reserves_of_settled {memory : Nat} {mms : List MetaMessage} (uninit : Nat → Byte) :
    ∀ (n : Nat) {mm : MetaMessage} {bytes : Bytes}, Settled memory mms mm bytes →
      reserves memory uninit mms n mm bytes = true := by
  intro n
  induction n with
  | zero => intro _ _ _; rfl
  | succ n ih =>
      rintro mm bytes ⟨within, -, messages, nested⟩
      rw [reserves, Bool.and_eq_true, decide_eq_true_iff, List.all_eq_true]
      refine ⟨within, fun f member => ?_⟩
      rw [Bool.or_eq_true, decide_eq_true_iff, or_iff_not_imp_left, not_not, Option.all_eq_true]
      intro isMessage inner found
      rw [Option.all_eq_true]
      intro s read
      rw [nestedBytes_eq] at read
      rcases first : firstOf f.fieldIdentifier init (reads (ofBytes bytes)) with _ | ⟨d, protoType⟩
      · rw [first] at read
        cases read
      · rw [first, Option.map_some] at read
        cases protoType with
        | varint | eightBytes | fourBytes => cases read
        | lengthDelimited =>
            rw [member_of_written uninit (messages f member isMessage inner found d first)] at read
            obtain rfl := Option.some.inj read
            exact ih (nested f member isMessage inner found d first)

/-- The decoder after the first stage. -/
def decoded (uninit : Nat → Byte) (bytes : Bytes) : FromProtoVisitor :=
  (decodeFrom uninit init (ofBytes bytes)).1

/-- What a scalar field takes is the payload of the first record of its identifier. -/
theorem visit_decoded (u : Nat → Byte) (field : FieldInfo) (t : ScalarType) (v : t.Value)
    (bytes : Bytes) :
    visit u field t v (decoded u bytes) =
      match (firstOf field.fieldIdentifier init (reads (ofBytes bytes))).map
        fun f => f.1.member u f.2 with
      | some any => (any.castTo t).getD v
      | none => v := by
  have staged : (decoded u bytes).callToDecodeFromWithDirectVisit ≠ true := by
    rw [decoded, flag_decodeFrom]
    exact Bool.false_ne_true
  rw [← find_decodeFrom u field.fieldIdentifier bytes]
  exact if_neg staged

theorem visitMessage_decoded (u : Nat → Byte) {α : Type} (field : FieldInfo)
    (obj : Visitable FromProtoVisitor α) (v : α) (bytes : Bytes) :
    visitMessage u field obj v (decoded u bytes) =
      match (firstOf field.fieldIdentifier init (reads (ofBytes bytes))).map
        fun f => f.1.member u f.2 with
      | some (.string s) => (obj.accept v (decoded u s)).1
      | _ => v := by
  have staged : (decoded u bytes).callToDecodeFromWithDirectVisit ≠ true := by
    rw [decoded, flag_decodeFrom]
    exact Bool.false_ne_true
  rw [← find_decodeFrom u field.fieldIdentifier bytes]
  exact if_neg staged

/-- A scalar field takes the same value, whatever the memory contains. -/
theorem visit_eq_of_written {bytes : Bytes} {field : FieldInfo} {t : ScalarType}
    (settled : t.protoType = .lengthDelimited →
      ∀ d, firstOf field.fieldIdentifier init (reads (ofBytes bytes)) = some (d, .lengthDelimited) →
        d.Written) (u₁ u₂ : Nat → Byte) (v : t.Value) :
    visit u₁ field t v (decoded u₁ bytes) = visit u₂ field t v (decoded u₂ bytes) := by
  rw [visit_decoded, visit_decoded]
  rcases first : firstOf field.fieldIdentifier init (reads (ofBytes bytes)) with _ | ⟨d, protoType⟩
  · rfl
  · simp only [Option.map_some]
    cases protoType with
    | varint | eightBytes | fourBytes => rfl
    | lengthDelimited =>
        by_cases fits : t.protoType = .lengthDelimited
        · have written := settled fits d first
          rw [member_of_written u₁ written, member_of_written u₂ written]
        · have fails (s : Bytes) : ProtoAny.castTo t (.string s) = none := by
            rw [← Option.not_isSome_iff_eq_none, ProtoAny.castTo_isSome]
            exact Ne.symm fits
          simp only [member, fails]

theorem find_of_castToMessage {α : Type} {found : Option (LinbAny α)} {gm : α}
    (h : found.bind LinbAny.castToMessage = some gm) : found = some (.message gm) := by
  obtain ⟨any, rfl, cast⟩ := Option.bind_eq_some_iff.mp h
  cases any <;> cases cast
  rfl

section Settled

variable {memory : Nat} {mms : List MetaMessage} {n : Nat}

/-- What a generic message becomes when it accepts a decoder does not depend on the memory, and is
still of its specification. -/
def Independent (memory : Nat) (mms : List MetaMessage) (n : Nat) : Prop :=
  ∀ mm gm, Shaped mms n mm gm → ∀ bytes, Settled memory mms mm bytes → ∀ u₁ u₂,
    ((visitable (visitor u₁) n).accept gm (decoded u₁ bytes)).1 =
        ((visitable (visitor u₂) n).accept gm (decoded u₂ bytes)).1 ∧
      Shaped mms n mm ((visitable (visitor u₁) n).accept gm (decoded u₁ bytes)).1

/-- A nested message becomes the same, whatever the memory contains. -/
theorem visitMessage_eq_of_settled (independent : Independent memory mms n) {inner : MetaMessage}
    {gm : GenericMessage n} (shaped : Shaped mms n inner gm) {bytes : Bytes} {field : FieldInfo}
    (settled : ∀ d, firstOf field.fieldIdentifier init (reads (ofBytes bytes)) =
      some (d, .lengthDelimited) → d.Written ∧ Settled memory mms inner d.written)
    (u₁ u₂ : Nat → Byte) :
    visitMessage u₁ field (visitable (visitor u₁) n) gm (decoded u₁ bytes) =
        visitMessage u₂ field (visitable (visitor u₂) n) gm (decoded u₂ bytes) ∧
      Shaped mms n inner
        (visitMessage u₁ field (visitable (visitor u₁) n) gm (decoded u₁ bytes)) := by
  rw [visitMessage_decoded, visitMessage_decoded]
  rcases first : firstOf field.fieldIdentifier init (reads (ofBytes bytes)) with _ | ⟨d, protoType⟩
  · exact ⟨rfl, shaped⟩
  · simp only [Option.map_some]
    cases protoType with
    | varint | eightBytes | fourBytes => exact ⟨rfl, shaped⟩
    | lengthDelimited =>
        obtain ⟨written, settled⟩ := settled d first
        rw [member_of_written u₁ written, member_of_written u₂ written]
        exact independent inner gm shaped d.written settled u₁ u₂

/-- **The visit of a field** does not depend on the memory. -/
theorem visitField_eq_of_settled (independent : Independent memory mms n) {mm : MetaMessage}
    {bytes : Bytes} (settled : Settled memory mms mm bytes) {f : MetaField}
    (member : f ∈ mm.listOfMetaFields)
    {data : KeyValueMap (BitVec 32) (LinbAny (GenericMessage n))}
    (shaped : DataShaped mms mm (Shaped mms n) data) (u₁ u₂ : Nat → Byte) :
    (visitField (visitor u₁) (visitable (visitor u₁) n) f data (decoded u₁ bytes)).1 =
        (visitField (visitor u₂) (visitable (visitor u₂) n) f data (decoded u₂ bytes)).1 ∧
      DataShaped mms mm (Shaped mms n)
        (visitField (visitor u₁) (visitable (visitor u₁) n) f data (decoded u₁ bytes)).1 := by
  obtain ⟨_, scalars, messages, nested⟩ := settled
  rw [visitField, visitField]
  rcases type : f.fieldDataType with t | _ | _
  · simp only []
    rcases held : (data.find f.fieldIdentifier).bind (LinbAny.castTo t) with _ | v
    · exact ⟨rfl, shaped⟩
    · have same : visit u₁ f.info t v (decoded u₁ bytes) = visit u₂ f.info t v (decoded u₂ bytes) :=
        visit_eq_of_written (scalars f member t type) u₁ u₂ v
      exact ⟨congrArg (fun w => data.assign f.fieldIdentifier (.ofScalar t w)) same,
        shaped.assign_scalar _ _ _⟩
  · simp only []
    rcases held : (data.find f.fieldIdentifier).bind LinbAny.castToMessage with _ | gm
    · exact ⟨rfl, shaped⟩
    · obtain ⟨g, inFields, id, isMessage, inner, resolved, ofInner⟩ := shaped _ gm
        (find_of_castToMessage held)
      have settled (d : FromProtoVisitor)
          (first : firstOf f.info.fieldIdentifier init (reads (ofBytes bytes)) =
            some (d, .lengthDelimited)) : d.Written ∧ Settled memory mms inner d.written := by
        change firstOf f.fieldIdentifier init _ = _ at first
        rw [← id] at first
        exact ⟨messages g inFields isMessage inner resolved d first,
          nested g inFields isMessage inner resolved d first⟩
      obtain ⟨same, ofInner'⟩ := visitMessage_eq_of_settled independent ofInner settled u₁ u₂
      have stillShaped := shaped.assign_message inFields isMessage resolved ofInner'
      rw [id] at stillShaped
      exact ⟨congrArg (fun gm => data.assign f.fieldIdentifier (.message gm)) same, stillShaped⟩
  · exact ⟨rfl, shaped⟩

theorem snd_visitField {α : Type} (u : Nat → Byte) (nested : Visitable FromProtoVisitor α)
    (f : MetaField) (data : KeyValueMap (BitVec 32) (LinbAny α)) (d : FromProtoVisitor) :
    (visitField (visitor u) nested f data d).2 = d := by
  rw [visitField]
  split
  · split <;> rfl
  · split <;> rfl
  · rfl

theorem visitFields_eq_of_settled (independent : Independent memory mms n) {mm : MetaMessage}
    {bytes : Bytes} (settled : Settled memory mms mm bytes) (u₁ u₂ : Nat → Byte)
    (fs : List MetaField) : fs ⊆ mm.listOfMetaFields →
      ∀ {data : KeyValueMap (BitVec 32) (LinbAny (GenericMessage n))},
      DataShaped mms mm (Shaped mms n) data →
      (visitFields (visitor u₁) (visitable (visitor u₁) n) fs data (decoded u₁ bytes)).1 =
          (visitFields (visitor u₂) (visitable (visitor u₂) n) fs data (decoded u₂ bytes)).1 ∧
        DataShaped mms mm (Shaped mms n)
          (visitFields (visitor u₁) (visitable (visitor u₁) n) fs data (decoded u₁ bytes)).1 := by
  induction fs with
  | nil => intro _ data shaped; exact ⟨rfl, shaped⟩
  | cons f fs ih =>
      intro subset data shaped
      obtain ⟨member, subset⟩ := List.cons_subset.mp subset
      obtain ⟨same, shaped⟩ :=
        visitField_eq_of_settled independent settled member shaped u₁ u₂
      obtain ⟨others, shaped⟩ := ih subset shaped
      rw [visitFields, visitFields, snd_visitField, snd_visitField, ← same]
      exact ⟨others, shaped⟩

end Settled

/-- **A generic message does not depend on the memory** if all strings that it takes have all
their bytes. -/
theorem independent (memory : Nat) (mms : List MetaMessage) (n : Nat) :
    Independent memory mms n := by
  induction n with
  | zero => intro _ gm; exact gm.elim
  | succ n ih =>
      rintro mm gm ⟨isOf, shaped⟩ bytes settled u₁ u₂
      subst isOf
      obtain ⟨same, shaped⟩ :=
        visitFields_eq_of_settled ih settled u₁ u₂ _ (List.Subset.refl _) shaped
      exact ⟨congrArg (GenericMessageOf.mk gm.metaMessage) same, rfl, shaped⟩

end GenericMessage

end Cluon
