import Cluon.Proto.RoundTrip

/-!
# The two decoding paths

A direct injection lets every record of a field change it, so the last record of a scalar
field decides, and the payloads of a nested message are injected one after the other. The
map of the two-stage path is filled with `emplace`, so there the first record decides
(`Fields.collect`). The two leave the same message exactly if the records of repeated
fields agree (`Fields.RepeatsAgree`, `decodeDirect_eq_decodeTwoStage_iff`), and so in
particular if no identifier is repeated (`decodeDirect_eq_decodeTwoStage`).
-/

set_option autoImplicit false

namespace Cluon

open Library InputStream

/-- For every field of a message with values `v`, the records `direct` and the records
`staged` agree: the last payload for a scalar field among the former and the first one among
the latter have the same value, a missing payload counting as the present value. For a
nested message the records of all its payloads are compared in the same way with those of
its first payload. Only the first field of an identifier takes records of `direct`. -/
def Fields.RepeatsAgree : (fs : Fields) → (direct staged : Records) → fs.Values → Prop
  | .nil, _, _, _ => True
  | .scalar field t rest, direct, staged, v =>
      t.afterPayload v.1 (direct.lastPayload field.fieldIdentifier) =
          t.afterPayload v.1 (staged.firstPayload field.fieldIdentifier) ∧
        rest.RepeatsAgree (direct.without field.fieldIdentifier) staged v.2
  | .nested field _ fields rest, direct, staged, v =>
      fields.RepeatsAgree (direct.allNested field.fieldIdentifier)
          (staged.firstNested field.fieldIdentifier) v.1 ∧
        rest.RepeatsAgree (direct.without field.fieldIdentifier) staged v.2

/-- The values of injected records are those of collected ones if and only if the records of
repeated fields agree. -/
theorem Fields.inject_eq_collect_iff (fs : Fields) :
    ∀ {direct : Records}, direct.Matches fs → ∀ (staged : Records) (v : fs.Values),
      direct.inject fs v = fs.collect staged v ↔ fs.RepeatsAgree direct staged v := by
  induction fs with
  | nil => exact fun _ _ _ => ⟨fun _ => trivial, fun _ => rfl⟩
  | scalar field t rest ih =>
      intro direct hm staged v
      rw [Records.inject_scalar hm, collect, RepeatsAgree, Prod.mk.injEq,
        ih (hm.of_scalar.without _)]
  | nested field info fields rest ihFields ih =>
      intro direct hm staged v
      rw [Records.inject_nested hm, collect, RepeatsAgree, Prod.mk.injEq,
        ihFields hm.allNested, ih (hm.of_nested.without _)]

namespace FromProtoVisitor

variable (uninit : Nat → Byte) {T : MessageType} {rs : Records} {bytes : Bytes}

/-- **The two decoding paths agree exactly if the records of repeated fields do.** -/
theorem decodeDirect_eq_decodeTwoStage_iff (encodes : rs.Encodes bytes)
    (hm : rs.Matches T.fields) {d : FromProtoVisitor}
    (flag : d.callToDecodeFromWithDirectVisit = false) (v : T.Values) :
    decodeDirect uninit T d bytes v = decodeTwoStage uninit T d bytes v ↔
      T.fields.RepeatsAgree rs rs v := by
  rw [decodeDirect_eq_inject encodes hm, decodeTwoStage_eq_collect encodes hm flag,
    T.fields.inject_eq_collect_iff hm]

/-- Two complete records for the command of a recorder, with commands of seven bits. -/
theorem encodes_commands (first second : Byte) (hf : first &&& 0x80#8 = 0)
    (hs : second &&& 0x80#8 = 0) :
    (Records.scalar 1 (.uint64 (varIntValue [first]))
      (.scalar 1 (.uint64 (varIntValue [second])) .nil)).Encodes [8, first, 8, second] := by
  have key : IsKey [8] 1 .varint := ⟨⟨.last (by decide), by decide⟩, by decide, by decide⟩
  have record : ∀ b : Byte, b &&& 0x80#8 = 0 → IsRecord [8, b] 1 (.uint64 (varIntValue [b])) :=
    fun b hb => .varint key ⟨.last hb, by simp⟩
  exact .scalar (record first hf) (.scalar (record second hs) .nil)

theorem matches_commands (first second : BitVec 64) :
    (Records.scalar 1 (.uint64 first) (.scalar 1 (.uint64 second) .nil)).Matches
      RecorderCommand.fields :=
  ⟨⟨fun _ => rfl, trivial⟩, ⟨fun _ => rfl, trivial⟩, trivial⟩

theorem decodeDirect_eq_decodeTwoStage_iff_commands :
    decodeDirect (fun _ => 0) RecorderCommand init [8, 2, 8, 2] (RecorderCommand.of 0) =
      decodeTwoStage (fun _ => 0) RecorderCommand init [8, 2, 8, 2] (RecorderCommand.of 0) :=
  (decodeDirect_eq_decodeTwoStage_iff (fun _ => 0) (encodes_commands 2 2 (by decide) (by decide))
    (matches_commands _ _) rfl _).mpr ⟨rfl, trivial⟩

/-- **The paths can disagree.** Of two commands for a recorder, the direct injection takes the
second and the two-stage path the first. -/
theorem decodeDirect_ne_decodeTwoStage :
    ∃ rs : Records, rs.Encodes [8, 1, 8, 2] ∧ rs.Matches RecorderCommand.fields ∧
      decodeDirect (fun _ => 0) RecorderCommand init [8, 1, 8, 2] (RecorderCommand.of 0) =
        RecorderCommand.of 2 ∧
      decodeTwoStage (fun _ => 0) RecorderCommand init [8, 1, 8, 2] (RecorderCommand.of 0) =
        RecorderCommand.of 1 ∧
      RecorderCommand.of 2 ≠ RecorderCommand.of 1 := by
  have encodes := encodes_commands 1 2 (by decide) (by decide)
  have matched := matches_commands (varIntValue [1]) (varIntValue [2])
  refine ⟨_, encodes, matched, ?_, ?_, fun same => ?_⟩
  · rw [decodeDirect_eq_inject encodes matched]
    rfl
  · rw [decodeTwoStage_eq_collect encodes matched rfl]
    rfl
  · exact absurd (Prod.mk.inj same).1 (by decide)

end FromProtoVisitor

/-! ## Records without repetitions -/

namespace Records

/-- No identifier is repeated, in nested messages neither. -/
def Unrepeated : Records → Prop
  | .nil => True
  | .scalar id _ rest => rest.Avoids id ∧ rest.Unrepeated
  | .message id nested rest => rest.Avoids id ∧ nested.Unrepeated ∧ rest.Unrepeated

variable {rs : Records} {id : BitVec 32}

theorem Avoids.firstPayload (h : rs.Avoids id) : rs.firstPayload id = none := by
  induction rs with
  | nil => rfl
  | scalar i payload rest ih => rw [Records.firstPayload, if_neg h.1, ih h.2]
  | message i nested rest _ ih => exact ih h.2

theorem Unrepeated.lastPayload (h : rs.Unrepeated) (id : BitVec 32) :
    rs.lastPayload id = rs.firstPayload id := by
  induction rs with
  | nil => rfl
  | scalar i payload rest ih =>
      rw [Records.lastPayload, Records.firstPayload]
      by_cases here : i = id
      · subst here
        rw [if_pos rfl, if_pos rfl, h.1.lastPayload]
        rfl
      · rw [if_neg here, if_neg here, Option.or_none, ih h.2]
  | message i nested rest _ ih => exact ih h.2.2

theorem Unrepeated.allNested (h : rs.Unrepeated) (id : BitVec 32) :
    rs.allNested id = rs.firstNested id := by
  induction rs with
  | nil => rfl
  | scalar i payload rest ih => exact ih h.2
  | message i nested rest _ ih =>
      rw [Records.allNested, Records.firstNested]
      by_cases here : i = id
      · subst here
        rw [if_pos rfl, if_pos rfl, h.1.allNested, append_nil]
      · rw [if_neg here, if_neg here, ih h.2.2]

theorem Unrepeated.firstNested (h : rs.Unrepeated) (id : BitVec 32) :
    (rs.firstNested id).Unrepeated := by
  induction rs with
  | nil => trivial
  | scalar i payload rest ih => exact ih h.2
  | message i nested rest _ ih =>
      rw [Records.firstNested]
      split
      · exact h.2.1
      · exact ih h.2.2

theorem lastPayload_without (rs : Records) {id other : BitVec 32} (ne : other ≠ id) :
    (rs.without other).lastPayload id = rs.lastPayload id := by
  induction rs with
  | nil => rfl
  | scalar i payload rest ih =>
      rw [Records.without]
      split
      case isTrue here =>
          subst here
          rw [ih, lastPayload, if_neg ne, Option.or_none]
      case isFalse => rw [lastPayload, lastPayload, ih]
  | message i nested rest _ ih =>
      rw [Records.without]
      split
      · exact ih
      · exact ih

theorem allNested_without (rs : Records) {id other : BitVec 32} (ne : other ≠ id) :
    (rs.without other).allNested id = rs.allNested id := by
  induction rs with
  | nil => rfl
  | scalar i payload rest ih =>
      rw [Records.without]
      split
      · exact ih
      · exact ih
  | message i nested rest _ ih =>
      rw [Records.without]
      split
      case isTrue here =>
          subst here
          rw [ih, allNested, if_neg ne]
      case isFalse => rw [allNested, allNested, ih]

end Records

/-- Records that give every field the same payloads agree, also if those of other identifiers
are gone. -/
theorem Fields.repeatsAgree_of_unrepeated (fs : Fields) (distinct : fs.DistinctIdentifiers) :
    ∀ {direct staged : Records}, staged.Unrepeated →
      (∀ id ∈ fs.keys FieldInfo.fieldIdentifier, direct.lastPayload id = staged.lastPayload id ∧
        direct.allNested id = staged.allNested id) →
      ∀ v : fs.Values, fs.RepeatsAgree direct staged v := by
  induction fs with
  | nil => intros; trivial
  | scalar field t rest ih =>
      intro direct staged unrepeated same v
      refine ⟨?_, ih distinct.2 unrepeated (fun id inRest => ?_) v.2⟩
      · rw [(same _ (by simp [keys])).1, unrepeated.lastPayload]
      · have other : field.fieldIdentifier ≠ id := fun h => distinct.1 (h ▸ inRest)
        rw [Records.lastPayload_without _ other, Records.allNested_without _ other]
        exact same id (by simp [keys, inRest])
  | nested field info fields rest ihFields ih =>
      intro direct staged unrepeated same v
      refine ⟨?_, ih distinct.2.2 unrepeated (fun id inRest => ?_) v.2⟩
      · rw [(same _ (by simp [keys])).2, unrepeated.allNested]
        exact ihFields distinct.2.1 (unrepeated.firstNested _) (fun _ _ => ⟨rfl, rfl⟩) v.1
      · have other : field.fieldIdentifier ≠ id := fun h => distinct.1 (h ▸ inRest)
        rw [Records.lastPayload_without _ other, Records.allNested_without _ other]
        exact same id (by simp [keys, inRest])

/-- **Without repeated identifiers the two decoding paths agree**, in whatever order the
records come and whatever unknown identifiers there are among them. -/
theorem FromProtoVisitor.decodeDirect_eq_decodeTwoStage (uninit : Nat → Byte) {T : MessageType}
    {rs : Records} {bytes : Bytes} (encodes : rs.Encodes bytes) (hm : rs.Matches T.fields)
    (distinct : T.fields.DistinctIdentifiers) (unrepeated : rs.Unrepeated)
    {d : FromProtoVisitor} (flag : d.callToDecodeFromWithDirectVisit = false) (v : T.Values) :
    decodeDirect uninit T d bytes v = decodeTwoStage uninit T d bytes v := by
  rw [decodeDirect_eq_inject encodes hm, decodeTwoStage_eq_collect encodes hm flag,
    T.fields.inject_eq_collect_iff hm]
  exact T.fields.repeatsAgree_of_unrepeated distinct unrepeated (fun _ _ => ⟨rfl, rfl⟩) v

end Cluon
