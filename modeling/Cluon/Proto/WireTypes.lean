import Cluon.Message.DataStructures
import Cluon.Proto.Reads

/-!
# Records of another wire type

A direct injection changes the field of a record by the member of the field's type, whatever
the wire type of the record is. So a record that does not fit its field gives it what an earlier
record has left in that member (`Harmless`). A round respects the wire types
(`RespectsWireType`) if and only if nothing has been left there that the field does not hold
already, and so does a whole run (`respectsWireType_iff`).
-/

set_option autoImplicit false

namespace Cluon

open Library InputStream

/-! ## The first field of an identifier -/

namespace Fields

/-- A condition on the first field of the given identifier, if there is one. -/
def AtField (fieldId : BitVec 32) (onScalar : (t : ScalarType) → t.Value → Prop)
    (onMessage : (fields : Fields) → fields.Values → Prop) : (fs : Fields) → fs.Values → Prop
  | .nil, _ => True
  | .scalar field t rest, v =>
      if field.fieldIdentifier = fieldId then onScalar t v.1
      else rest.AtField fieldId onScalar onMessage v.2
  | .nested field _ fields rest, v =>
      if field.fieldIdentifier = fieldId then onMessage fields v.1
      else rest.AtField fieldId onScalar onMessage v.2

/-- The wire type of the first field of the given identifier. -/
def declaredType (fieldId : BitVec 32) : Fields → Option ProtoConstants
  | .nil => none
  | .scalar field t rest =>
      if field.fieldIdentifier = fieldId then some t.protoType else rest.declaredType fieldId
  | .nested field _ _ rest =>
      if field.fieldIdentifier = fieldId then some .lengthDelimited
      else rest.declaredType fieldId

variable {fieldId : BitVec 32}

theorem atField_mono {P P' : (t : ScalarType) → t.Value → Prop}
    {Q Q' : (fields : Fields) → fields.Values → Prop} (scalar : ∀ t w, P t w → P' t w)
    (message : ∀ fields w, Q fields w → Q' fields w) (fs : Fields) (v : fs.Values) :
    fs.AtField fieldId P Q v → fs.AtField fieldId P' Q' v := by
  induction fs with
  | nil => exact id
  | scalar field t rest ih =>
      rw [AtField, AtField]
      split
      · exact scalar t v.1
      · exact ih v.2
  | nested field info fields rest _ ih =>
      rw [AtField, AtField]
      split
      · exact message fields v.1
      · exact ih v.2

theorem atField_congr {P P' : (t : ScalarType) → t.Value → Prop}
    {Q Q' : (fields : Fields) → fields.Values → Prop} (scalar : ∀ t w, P t w ↔ P' t w)
    (message : ∀ fields w, Q fields w ↔ Q' fields w) (fs : Fields) (v : fs.Values) :
    fs.AtField fieldId P Q v ↔ fs.AtField fieldId P' Q' v :=
  ⟨atField_mono (fun t w => (scalar t w).mp) (fun fields w => (message fields w).mp) fs v,
    atField_mono (fun t w => (scalar t w).mpr) (fun fields w => (message fields w).mpr) fs v⟩

theorem atField_and {P P' : (t : ScalarType) → t.Value → Prop}
    {Q Q' : (fields : Fields) → fields.Values → Prop} (fs : Fields) (v : fs.Values) :
    fs.AtField fieldId P Q v ∧ fs.AtField fieldId P' Q' v ↔
      fs.AtField fieldId (fun t w => P t w ∧ P' t w) (fun fields w => Q fields w ∧ Q' fields w)
        v := by
  induction fs with
  | nil => exact and_self_iff
  | scalar field t rest ih =>
      simp only [AtField]
      split
      · exact Iff.rfl
      · exact ih v.2
  | nested field info fields rest _ ih =>
      simp only [AtField]
      split
      · exact Iff.rfl
      · exact ih v.2

/-- The first field of an identifier after a change of the same field, or of another one. -/
theorem atField_update {other : BitVec 32} {P : (t : ScalarType) → t.Value → Prop}
    {Q : (fields : Fields) → fields.Values → Prop}
    {onScalar : (t : ScalarType) → t.Value → t.Value}
    {onMessage : (fields : Fields) → fields.Values → fields.Values} (fs : Fields)
    (v : fs.Values) :
    fs.AtField fieldId P Q (fs.update other onScalar onMessage v) ↔
      fs.AtField fieldId (fun t w => P t (if other = fieldId then onScalar t w else w))
        (fun fields w => Q fields (if other = fieldId then onMessage fields w else w)) v := by
  induction fs with
  | nil => exact Iff.rfl
  | scalar field t rest ih =>
      simp only [AtField, update]
      by_cases here : field.fieldIdentifier = fieldId
      · subst here
        by_cases same : other = field.fieldIdentifier
        · simp [same]
        · simp [same, Ne.symm same]
      · simp only [if_neg here, ← ih]
        by_cases changed : field.fieldIdentifier = other
        · have apart : other ≠ fieldId := fun same => here (changed.trans same)
          simp only [if_pos changed, ih, if_neg apart]
        · simp only [if_neg changed]
  | nested field info fields rest _ ih =>
      simp only [AtField, update]
      by_cases here : field.fieldIdentifier = fieldId
      · subst here
        by_cases same : other = field.fieldIdentifier
        · simp [same]
        · simp [same, Ne.symm same]
      · simp only [if_neg here, ← ih]
        by_cases changed : field.fieldIdentifier = other
        · have apart : other ≠ fieldId := fun same => here (changed.trans same)
          simp only [if_pos changed, ih, if_neg apart]
        · simp only [if_neg changed]

/-- What depends on the wire type of a field. -/
theorem forall_declaredType_iff {R : ProtoConstants → Prop} (fs : Fields) (v : fs.Values) :
    (∀ w, fs.declaredType fieldId = some w → R w) ↔
      fs.AtField fieldId (fun t _ => R t.protoType) (fun _ _ => R .lengthDelimited) v := by
  induction fs with
  | nil => exact ⟨fun _ => trivial, fun _ w h => nomatch h⟩
  | scalar field t rest ih =>
      rw [AtField, declaredType]
      split
      · exact ⟨fun h => h _ rfl, fun h w same => Option.some.inj same ▸ h⟩
      · exact ih v.2
  | nested field info fields rest _ ih =>
      rw [AtField, declaredType]
      split
      · exact ⟨fun h => h _ rfl, fun h w same => Option.some.inj same ▸ h⟩
      · exact ih v.2

/-- When a change leaves a field of some wire types as it is. -/
theorem update_eq_self_iff {R : ProtoConstants → Prop}
    {onScalar : (t : ScalarType) → t.Value → t.Value}
    {onMessage : (fields : Fields) → fields.Values → fields.Values} (fs : Fields)
    (v : fs.Values) :
    (∀ w, fs.declaredType fieldId = some w → R w → fs.update fieldId onScalar onMessage v = v) ↔
      fs.AtField fieldId (fun t w => R t.protoType → onScalar t w = w)
        (fun fields w => R .lengthDelimited → onMessage fields w = w) v := by
  induction fs with
  | nil => exact ⟨fun _ => trivial, fun _ w h => nomatch h⟩
  | scalar field t rest ih =>
      rw [AtField, declaredType, update]
      split
      · constructor
        · exact fun h some => congrArg Prod.fst (h _ rfl some)
        · exact fun h w same some => by rw [h (Option.some.inj same ▸ some)]
      · rw [← ih v.2]
        constructor
        · exact fun h w same some => congrArg Prod.snd (h w same some)
        · exact fun h w same some => by rw [h w same some]
  | nested field info fields rest _ ih =>
      rw [AtField, declaredType, update]
      split
      · constructor
        · exact fun h some => congrArg Prod.fst (h _ rfl some)
        · exact fun h w same some => by rw [h (Option.some.inj same ▸ some)]
      · rw [← ih v.2]
        constructor
        · exact fun h w same some => congrArg Prod.snd (h w same some)
        · exact fun h w same some => by rw [h w same some]

/-- Changes that do the same to the first field of an identifier. -/
theorem update_congr {f f' : (t : ScalarType) → t.Value → t.Value}
    {g : (fields : Fields) → fields.Values → fields.Values} (fs : Fields) (v : fs.Values)
    (same : fs.AtField fieldId (fun t w => f t w = f' t w) (fun _ _ => True) v) :
    fs.update fieldId f g v = fs.update fieldId f' g v := by
  induction fs with
  | nil => rfl
  | scalar field t rest ih =>
      rw [AtField] at same
      rw [update, update]
      split
      · rename_i here
        rw [if_pos here] at same
        rw [same]
      · rename_i other
        rw [if_neg other] at same
        rw [ih v.2 same]
  | nested field info fields rest _ ih =>
      rw [AtField] at same
      rw [update, update]
      split
      · rfl
      · rename_i other
        rw [if_neg other] at same
        rw [ih v.2 same]

end Fields

/-! ## What a round should do -/

/-- A stream that consists of complete records with the given identifiers and payloads. -/
inductive RecordStream : List (BitVec 32 × ProtoAny) → Bytes → Prop
  | nil : RecordStream [] []
  | cons {fieldId : BitVec 32} {payload : ProtoAny} {rs : List (BitVec 32 × ProtoAny)}
      {bs more : Bytes} :
      IsRecord bs fieldId payload → RecordStream rs more →
        RecordStream ((fieldId, payload) :: rs) (bs ++ more)

namespace FromProtoVisitor

variable (uninit : Nat → Byte)

/-- The bytes that the next record reads for a string. -/
def ownBytes (is : InputStream) : Bytes :=
  match (nextRead is).1 with
  | some (_, .lengthDelimited _ bytes) => bytes
  | _ => []

/-- A round of a direct injection does not change a field of another wire type than the record,
and builds a string, or the bytes of a nested message, only from what its record has read, within
the memory of the buffer. -/
def RespectsWireType (T : MessageType) (s : T.Values × FromProtoVisitor) (is : InputStream) :
    Prop :=
  ∀ protoType fieldId d' is', s.2.readRecord is = (some (protoType, fieldId), d', is') →
    (∀ w, T.fields.declaredType fieldId = some w → w ≠ protoType →
      ((T.visitable (visitor uninit)).acceptField fieldId s.1 d').1 = s.1) ∧
    (∀ w, T.fields.declaredType fieldId = some w → w = .lengthDelimited →
      d'.value.toNat ≤ d'.stringValue.capacity ∧
        d'.stringValue.str uninit d'.value.toNat = ownBytes is)

/-! ## What is left in the members -/

/-- The last varint or length among records, or the one before them. -/
def lastWord (rs : List (BitVec 32 × ProtoAny)) (before : BitVec 64) : BitVec 64 :=
  rs.foldl (fun w r =>
    match r.2 with
    | .uint64 v => v
    | .string s => BitVec.ofNat 64 s.length
    | _ => w) before

/-- The last number of eight bytes among records, or the one before them. -/
def lastDouble (rs : List (BitVec 32 × ProtoAny)) (before : BitVec 64) : BitVec 64 :=
  rs.foldl (fun w r =>
    match r.2 with
    | .double v => v
    | _ => w) before

/-- The last number of four bytes among records, or the one before them. -/
def lastFloat (rs : List (BitVec 32 × ProtoAny)) (before : BitVec 32) : BitVec 32 :=
  rs.foldl (fun w r =>
    match r.2 with
    | .float v => v
    | _ => w) before

/-- What records leave for a field of the given wire type, if no string is left at all. -/
def leftover (d : FromProtoVisitor) (rs : List (BitVec 32 × ProtoAny)) : ProtoConstants → ProtoAny
  | .varint => .uint64 (lastWord rs d.value)
  | .eightBytes => .double (lastDouble rs d.doubleValue)
  | .fourBytes => .float (lastFloat rs d.floatValue)
  | .lengthDelimited => .string []

/-- The value of a scalar field after the records of its identifier and its wire type. -/
def lastFitting (t : ScalarType) (fieldId : BitVec 32) (rs : List (BitVec 32 × ProtoAny))
    (before : t.Value) : t.Value :=
  rs.foldl (fun w r => if r.1 = fieldId then (r.2.castTo t).getD w else w) before

/-- Nothing harmful is left by the records `before` when the record `r` does not fit its field:
a number for the field is the one that the field has, and there is no length for a string, which
is empty, or for a nested message. -/
def Harmless (fs : Fields) (d : FromProtoVisitor) (before : List (BitVec 32 × ProtoAny))
    (r : BitVec 32 × ProtoAny) (v : fs.Values) : Prop :=
  fs.AtField r.1
    (fun t w => t.protoType ≠ r.2.protoType →
      (t.protoType = .lengthDelimited → lastWord (before ++ [r]) d.value = 0) ∧
        (leftover d (before ++ [r]) t.protoType).castTo t = some (lastFitting t r.1 before w))
    (fun _ _ => .lengthDelimited ≠ r.2.protoType → lastWord (before ++ [r]) d.value = 0) v

/-! ## One round -/

theorem store_ofPayload_value (d : FromProtoVisitor) (r : BitVec 32 × ProtoAny)
    (rs : List (BitVec 32 × ProtoAny)) :
    lastWord rs (d.store (.ofPayload r.2)).value = lastWord (r :: rs) d.value := by
  obtain ⟨fieldId, payload⟩ := r
  cases payload with
  | uint64 | double | float | string => simp only [Read.ofPayload, store, lastWord, List.foldl_cons]

theorem store_ofPayload_doubleValue (d : FromProtoVisitor) (r : BitVec 32 × ProtoAny)
    (rs : List (BitVec 32 × ProtoAny)) :
    lastDouble rs (d.store (.ofPayload r.2)).doubleValue = lastDouble (r :: rs) d.doubleValue := by
  obtain ⟨fieldId, payload⟩ := r
  cases payload with
  | double v =>
      simp only [Read.ofPayload, store, lastDouble, List.foldl_cons]
      rw [overwriteBuffer_of_length _ (leBytes_length 8 _), word_leBytes 8 (by norm_num)]
  | uint64 | float | string => simp only [Read.ofPayload, store, lastDouble, List.foldl_cons]

theorem store_ofPayload_floatValue (d : FromProtoVisitor) (r : BitVec 32 × ProtoAny)
    (rs : List (BitVec 32 × ProtoAny)) :
    lastFloat rs (d.store (.ofPayload r.2)).floatValue = lastFloat (r :: rs) d.floatValue := by
  obtain ⟨fieldId, payload⟩ := r
  cases payload with
  | float v =>
      simp only [Read.ofPayload, store, lastFloat, List.foldl_cons]
      rw [overwriteBuffer_of_length _ (leBytes_length 4 _), word_leBytes 4 (by norm_num)]
  | uint64 | double | string => simp only [Read.ofPayload, store, lastFloat, List.foldl_cons]

/-- What is left after a record and others is what is left after the others. -/
theorem leftover_store (d : FromProtoVisitor) (r : BitVec 32 × ProtoAny)
    (rs : List (BitVec 32 × ProtoAny)) :
    leftover (d.store (.ofPayload r.2)) rs = leftover d (r :: rs) := by
  funext protoType
  cases protoType with
  | varint => exact congrArg ProtoAny.uint64 (store_ofPayload_value d r rs)
  | eightBytes => exact congrArg ProtoAny.double (store_ofPayload_doubleValue d r rs)
  | fourBytes => exact congrArg ProtoAny.float (store_ofPayload_floatValue d r rs)
  | lengthDelimited => rfl

/-- The members of numbers hold what is left. -/
theorem member_eq_leftover (d : FromProtoVisitor) {protoType : ProtoConstants}
    (number : protoType ≠ .lengthDelimited) :
    d.member uninit protoType = leftover d [] protoType := by
  cases protoType with
  | lengthDelimited => exact absurd rfl number
  | varint | eightBytes | fourBytes => rfl

theorem str_eq_nil_iff (b : StringBuffer) (n : BitVec 64) :
    b.str uninit n.toNat = [] ↔ n = 0 := by
  rw [← List.length_eq_zero_iff, StringBuffer.length_str]
  constructor
  · exact fun h => BitVec.eq_of_toNat_eq h
  · rintro rfl
    rfl

/-- A decoder of no bytes changes nothing. -/
theorem decodeNested_nil (fields : Fields) (w : fields.Values) :
    decodeNested uninit [] fields w = w := by
  have none : reads (ofBytes []) = [] := reads_nil rfl rfl
  have read := whileGood_decodeFromIntoBody_eq (fields.visitable (visitor uninit))
    (w, init.directly) (ofBytes [])
  rw [none] at read
  exact congrArg Prod.fst read

theorem protoType_leftover (d : FromProtoVisitor) (rs : List (BitVec 32 × ProtoAny))
    (protoType : ProtoConstants) : (leftover d rs protoType).protoType = protoType := by
  cases protoType <;> rfl

/-- A string that has been read completely is built from its own bytes. -/
theorem str_store_string (d : FromProtoVisitor) {s : Bytes} (short : s.length < 2 ^ 64) :
    let d' := d.store (.ofPayload (.string s))
    d'.value.toNat ≤ d'.stringValue.capacity ∧
      d'.stringValue.str uninit d'.value.toNat = s := by
  have length : (BitVec.ofNat 64 s.length).toNat = s.length := by
    rw [BitVec.toNat_ofNat, Nat.mod_eq_of_lt short]
  simp only [Read.ofPayload, store, length]
  constructor
  · simp only [StringBuffer.write, StringBuffer.reserve]
    split
    · exact le_rfl
    · rename_i enough
      exact Nat.not_lt.mp enough
  · have enough : s.length ≤ ((d.stringValue.reserve s.length).write s).written.length := by
      rw [StringBuffer.write, List.length_append]
      exact Nat.le_add_right _ _
    rw [StringBuffer.str_of_le uninit enough, StringBuffer.write, List.take_left']
    rfl

theorem length_lt_of_isRecord {bs s : Bytes} {fieldId : BitVec 32}
    (h : IsRecord bs fieldId (.string s)) : s.length < 2 ^ 64 := by
  cases h with
  | lengthDelimited _ _ length =>
      rw [← length]
      exact BitVec.isLt _

/-- What a record reads for a string. -/
theorem ownBytes_append {bs t : Bytes} {fieldId : BitVec 32} {payload : ProtoAny}
    (h : IsRecord bs fieldId payload) {is : InputStream} (hg : is.good)
    (hr : is.rest = bs ++ t) :
    ownBytes is = match payload with
      | .string s => s
      | _ => [] := by
  rw [ownBytes, nextRead_append h hg hr]
  cases payload <;> rfl

theorem eq_string_of_protoType {payload : ProtoAny}
    (h : ProtoConstants.lengthDelimited = payload.protoType) : ∃ s, payload = .string s := by
  cases payload with
  | string s => exact ⟨s, rfl⟩
  | uint64 | double | float => cases h

/-- What a round has to respect, once it is known which record it reads. -/
theorem respectsWireType_of_read {T : MessageType} {v : T.Values} {d d' : FromProtoVisitor}
    {protoType : ProtoConstants} {fieldId : BitVec 32} {is is' : InputStream}
    (read : d.readRecord is = (some (protoType, fieldId), d', is')) :
    RespectsWireType uninit T (v, d) is ↔
      (∀ w, T.fields.declaredType fieldId = some w → w ≠ protoType →
        ((T.visitable (visitor uninit)).acceptField fieldId v d').1 = v) ∧
      (∀ w, T.fields.declaredType fieldId = some w → w = .lengthDelimited →
        d'.value.toNat ≤ d'.stringValue.capacity ∧
          d'.stringValue.str uninit d'.value.toNat = ownBytes is) := by
  constructor
  · exact fun every => every _ _ _ _ read
  · rintro both protoType₁ fieldId₁ d₁ is₁ read₁
    have same := read.symm.trans read₁
    simp only [Prod.mk.injEq, Option.some.injEq] at same
    obtain ⟨⟨rfl, rfl⟩, rfl, _⟩ := same
    exact both

/-- A string is built of its own bytes if its wire type fits, or if no length is left. -/
theorem built_store_iff (d : FromProtoVisitor) {bs t : Bytes} {fieldId : BitVec 32}
    {payload : ProtoAny} (h : IsRecord bs fieldId payload) {is : InputStream} (hg : is.good)
    (hr : is.rest = bs ++ t) :
    let d' := d.store (.ofPayload payload)
    (d'.value.toNat ≤ d'.stringValue.capacity ∧
      d'.stringValue.str uninit d'.value.toNat = ownBytes is) ↔
        (.lengthDelimited ≠ payload.protoType → lastWord [(fieldId, payload)] d.value = 0) := by
  intro d'
  have own := ownBytes_append h hg hr
  by_cases fits : ProtoConstants.lengthDelimited = payload.protoType
  · refine iff_of_true ?_ fun differs => absurd fits differs
    obtain ⟨s, rfl⟩ := eq_string_of_protoType fits
    rw [own]
    exact str_store_string uninit d (length_lt_of_isRecord h)
  · have word : d'.value = lastWord [(fieldId, payload)] d.value :=
      store_ofPayload_value d (fieldId, payload) []
    have nothing : ownBytes is = [] := by
      rw [own]
      cases payload with
      | string s => exact absurd rfl fits
      | uint64 | double | float => rfl
    rw [nothing, str_eq_nil_iff, word]
    constructor
    · exact fun built _ => built.2
    · intro harmless
      have zero := harmless fits
      rw [zero]
      exact ⟨Nat.zero_le _, rfl⟩

/-- Only a field of strings takes a string. -/
theorem castTo_string_getD_iff {t : ScalarType} (string : t.protoType = .lengthDelimited)
    (s : Bytes) (w : t.Value) :
    (ProtoAny.castTo t (.string s)).getD w = w ↔ ProtoAny.castTo t (.string s) = some w := by
  cases t with
  | bytes | string => simp [ProtoAny.castTo]
  | bool | char | int8 | uint8 | int16 | uint16 | int32 | uint32 | int64 | uint64 | float
  | double => cases string

/-- **A round respects the wire types if and only if what is left is harmless.** -/
theorem respectsWireType_round (T : MessageType) (v : T.Values) {d : FromProtoVisitor}
    (flag : d.callToDecodeFromWithDirectVisit = true) {bs t : Bytes} {fieldId : BitVec 32}
    {payload : ProtoAny} (h : IsRecord bs fieldId payload) {is : InputStream} (hg : is.good)
    (hr : is.rest = bs ++ t) :
    RespectsWireType uninit T (v, d) is ↔ Harmless T.fields d [] (fieldId, payload) v := by
  set d' := d.store (.ofPayload payload) with stored
  have read : d.readRecord is =
      (some (payload.protoType, fieldId), d', is.advance bs.length) := by
    rw [readRecord_eq, nextRead_append h hg hr]
    cases payload <;> rfl
  have flag' : d'.callToDecodeFromWithDirectVisit = true := (store_flag d _).trans flag
  have word : d'.value = lastWord [(fieldId, payload)] d.value :=
    store_ofPayload_value d (fieldId, payload) []
  have left : leftover d' [] = leftover d [(fieldId, payload)] :=
    leftover_store d (fieldId, payload) []
  have built := built_store_iff uninit d h hg hr
  rw [respectsWireType_of_read uninit read, MessageType.acceptField_eq,
    acceptField_eq_update uninit T.fields fieldId v flag',
    Fields.update_eq_self_iff (R := fun w => w ≠ payload.protoType),
    Fields.forall_declaredType_iff T.fields v, Fields.atField_and]
  refine Fields.atField_congr (fun t w => ?_) (fun fields w => ?_) T.fields v
  · by_cases fits : t.protoType = payload.protoType
    · refine iff_of_true ⟨fun differs => absurd fits differs, fun string => ?_⟩
        fun differs => absurd fits differs
      exact built.mpr fun differs => absurd (string.symm.trans fits) differs
    · by_cases string : t.protoType = .lengthDelimited
      · have differs : ProtoConstants.lengthDelimited ≠ payload.protoType := string ▸ fits
        have bytes := castTo_string_getD_iff string [] w
        constructor
        · rintro ⟨unchanged, own⟩ _
          have zero := built.mp (own string) differs
          refine ⟨fun _ => zero, ?_⟩
          have kept := unchanged fits
          rw [string] at kept ⊢
          rw [member, (str_eq_nil_iff uninit _ _).mpr (word.trans zero)] at kept
          exact bytes.mp kept
        · intro harmless
          obtain ⟨zero, cast⟩ := harmless fits
          refine ⟨fun _ => ?_, fun _ => built.mpr fun _ => zero string⟩
          rw [string] at cast ⊢
          rw [member, (str_eq_nil_iff uninit _ _).mpr (word.trans (zero string))]
          exact bytes.mpr cast
      · have number : d'.member uninit t.protoType =
            leftover d [(fieldId, payload)] t.protoType := by
          rw [← left]
          exact member_eq_leftover uninit d' string
        have some := (ProtoAny.castTo_isSome t (leftover d [(fieldId, payload)] t.protoType)).mpr
          (protoType_leftover d _ _)
        obtain ⟨x, cast⟩ := Option.isSome_iff_exists.mp some
        simp only [number, string, false_implies, and_true, true_and, fits, not_false_eq_true,
          forall_const, List.nil_append, cast, Option.getD_some, ne_eq]
        exact (Option.some.injEq x w).symm ▸ Iff.rfl
  · constructor
    · exact fun both => built.mp (both.2 rfl)
    · intro harmless
      refine ⟨fun differs => ?_, fun _ => built.mpr harmless⟩
      rw [(str_eq_nil_iff uninit _ _).mpr (word.trans (harmless differs))]
      exact decodeNested_nil uninit fields w

/-! ## A run -/

/-- After a round that respects the wire types, a field of another wire type is as before, and
one of the same wire type has the value of the record. -/
theorem acceptField_of_respects (T : MessageType) (v : T.Values) {d : FromProtoVisitor}
    (flag : d.callToDecodeFromWithDirectVisit = true) {bs t : Bytes} {r : BitVec 32 × ProtoAny}
    (h : IsRecord bs r.1 r.2) {is : InputStream} (hg : is.good) (hr : is.rest = bs ++ t)
    (respects : RespectsWireType uninit T (v, d) is) :
    ∃ g, ((T.visitable (visitor uninit)).acceptField r.1 v (d.store (.ofPayload r.2))).1 =
      T.fields.update r.1 (fun t w => (r.2.castTo t).getD w) g v := by
  set d' := d.store (.ofPayload r.2) with stored
  obtain ⟨d₁, read, hasRead⟩ := readRecord_append uninit h d hg hr
  have same : d₁ = d' := by
    have both := read
    rw [readRecord_eq, nextRead_append h hg hr] at both
    exact (congrArg (fun x => x.2.1) both).symm
  rw [same] at read hasRead
  have flag' : d'.callToDecodeFromWithDirectVisit = true := hasRead.flag_eq.trans flag
  have unchanged := (respects _ _ _ _ read).1
  rw [MessageType.acceptField_eq, acceptField_eq_update uninit T.fields r.1 v flag'] at unchanged ⊢
  rw [Fields.update_eq_self_iff (R := fun w => w ≠ r.2.protoType)] at unchanged
  refine ⟨_, Fields.update_congr T.fields v ?_⟩
  refine Fields.atField_mono (fun t w kept => ?_) (fun _ _ _ => trivial) T.fields v unchanged
  by_cases fits : t.protoType = r.2.protoType
  · rw [fits, hasRead.member_eq]
  · have none : r.2.castTo t = Option.none := by
      rw [← Option.not_isSome_iff_eq_none, ProtoAny.castTo_isSome]
      exact Ne.symm fits
    rw [kept fits, none, Option.getD_none]

/-- What is harmless after a record and others is harmless after the others. -/
theorem harmless_cons (fs : Fields) (d : FromProtoVisitor) (r r' : BitVec 32 × ProtoAny)
    (before : List (BitVec 32 × ProtoAny)) (v : fs.Values)
    (g : (fields : Fields) → fields.Values → fields.Values) :
    Harmless fs (d.store (.ofPayload r.2)) before r'
        (fs.update r.1 (fun t w => (r.2.castTo t).getD w) g v) ↔
      Harmless fs d (r :: before) r' v := by
  have word := store_ofPayload_value d r (before ++ [r'])
  have left := leftover_store d r (before ++ [r'])
  rw [Harmless, Fields.atField_update, Harmless]
  simp only [word, left, List.cons_append]
  exact Iff.rfl

/-- The loop on complete records respects the wire types if what is left is harmless at each of
them, and only then. -/
theorem forall_respects_iff {rs : List (BitVec 32 × ProtoAny)} {bytes : Bytes}
    (stream : RecordStream rs bytes) :
    ∀ (T : MessageType) (v : T.Values) {d : FromProtoVisitor},
      d.callToDecodeFromWithDirectVisit = true → ∀ {is : InputStream}, is.good →
      is.rest = bytes →
      ((∀ s is', Reaches (decodeFromIntoBody (T.visitable (visitor uninit))) (v, d) is s is' →
          is'.good → RespectsWireType uninit T s is') ↔
        ∀ before r after, rs = before ++ r :: after → Harmless T.fields d before r v) := by
  induction stream with
  | nil =>
      intro T v d _ is hg hr
      have read := readRecord_nil d hg hr
      have round : decodeFromIntoBody (T.visitable (visitor uninit)) (v, d) is =
          (true, (v, d), is.exhausted) := by
        simp only [decodeFromIntoBody, read]
      rw [forall_reaches_iff hg round]
      constructor
      · intro _ before r after split
        exact absurd split (by simp)
      · intro _
        refine ⟨fun protoType fieldId d' is' found => ?_, fun s is' later good => ?_⟩
        · exact absurd (congrArg Prod.fst (read.symm.trans found)) (by simp)
        · exact absurd good (by rw [later.of_spoiled (good_exhausted is)]; exact Bool.false_ne_true)
  | @cons fieldId payload rs bs more h _ ih =>
      intro T v d flag is hg hr
      set d' := d.store (.ofPayload payload) with stored
      set v' := ((T.visitable (visitor uninit)).acceptField fieldId v d').1 with changed
      have round : decodeFromIntoBody (T.visitable (visitor uninit)) (v, d) is =
          (true, (v', d'), is.advance bs.length) := by
        have stays : ((T.visitable (visitor uninit)).acceptField fieldId v d').2 = d' :=
          acceptField_snd uninit T.fields fieldId v d'
        simp only [decodeFromIntoBody, readRecord_eq, nextRead_append h hg hr]
        exact congrArg (fun s => (true, s, is.advance bs.length)) (Prod.ext changed.symm stays)
      have flag' : d'.callToDecodeFromWithDirectVisit = true := (store_flag d _).trans flag
      have later := ih T v' flag' (good_advance_of hg bs.length) (rest_advance_append hr)
      rw [forall_reaches_iff hg round, later, respectsWireType_round uninit T v flag h hg hr]
      have shift (respects : Harmless T.fields d [] (fieldId, payload) v)
          (before : List (BitVec 32 × ProtoAny)) (r : BitVec 32 × ProtoAny) :
          Harmless T.fields d' before r v' ↔
            Harmless T.fields d ((fieldId, payload) :: before) r v := by
        have first := (respectsWireType_round uninit T v flag h hg hr).mpr respects
        obtain ⟨g, updated⟩ :=
          acceptField_of_respects (r := (fieldId, payload)) uninit T v flag h hg hr first
        rw [changed, updated]
        exact harmless_cons T.fields d (fieldId, payload) r before v g
      constructor
      · rintro ⟨here, others⟩ before r after split
        cases before with
        | nil =>
            obtain ⟨rfl, rfl⟩ := List.cons_eq_cons.mp split
            exact here
        | cons r₀ before =>
            obtain ⟨rfl, rest⟩ := List.cons_eq_cons.mp split
            exact (shift here before r).mp (others before r after rest)
      · intro every
        have here := every [] _ rs rfl
        refine ⟨here, fun before r after split => (shift here before r).mpr ?_⟩
        exact every _ r after (by rw [split, List.cons_append])

/-- **A record of another wire type leaves its field unchanged, and strings are built from the
bytes of their own records, in all rounds of a direct injection if and only if**, wherever a
record does not fit its field, what the earlier records and streams have left for the field is
what the field holds, or, for a string or a nested message, is nothing. -/
theorem respectsWireType_iff {T : MessageType} {rs : List (BitVec 32 × ProtoAny)} {bytes : Bytes}
    (stream : RecordStream rs bytes) (v : T.Values) (d : FromProtoVisitor) :
    (∀ s is, Reaches (decodeFromIntoBody (T.visitable (visitor uninit))) (v, d.directly)
        (ofBytes bytes) s is → is.good → RespectsWireType uninit T s is) ↔
      ∀ before r after, rs = before ++ r :: after → Harmless T.fields d before r v :=
  forall_respects_iff uninit stream T v rfl rfl rfl

/-- Four bytes for a command that is the last varint already. -/
theorem respectsWireType_iff_command :
    let bytes : Bytes := [0x08, 0x07, 0x0D, 0x00, 0x00, 0x00, 0x00]
    RecordStream [(1, .uint64 7), (1, .float 0)] bytes ∧
      ∀ s is, Reaches (decodeFromIntoBody (RecorderCommand.visitable (visitor fun _ => 0)))
        (RecorderCommand.of 2, init.directly) (ofBytes bytes) s is → is.good →
          RespectsWireType (fun _ => 0) RecorderCommand s is := by
  have group : ∀ b : Byte, b &&& 0x80#8 = 0 → IsProtoVarInt [b] := fun b hb => ⟨.last hb, by simp⟩
  have floatKey : IsKey [0x0D] 1 .fourBytes := ⟨group _ (by decide), by decide, by decide⟩
  have varintKey : IsKey [0x08] 1 .varint := ⟨group _ (by decide), by decide, by decide⟩
  have zeros : ([0x00, 0x00, 0x00, 0x00] : Bytes).length = 4 := rfl
  have stream : RecordStream [(1, .uint64 7), (1, .float 0)]
      [0x08, 0x07, 0x0D, 0x00, 0x00, 0x00, 0x00] :=
    .cons (.varint varintKey (group 0x07 (by decide))) (.cons (.fourBytes floatKey zeros) .nil)
  refine ⟨stream, (respectsWireType_iff (fun _ => 0) (T := RecorderCommand) stream
    (RecorderCommand.of 2) init).mpr fun before r after split => ?_⟩
  rcases before with _ | ⟨r₀, _ | ⟨r₁, before⟩⟩
  · obtain ⟨rfl, -⟩ := List.cons_eq_cons.mp split
    exact fun differs => absurd rfl differs
  · obtain ⟨rfl, rest⟩ := List.cons_eq_cons.mp split
    obtain ⟨rfl, -⟩ := List.cons_eq_cons.mp rest
    exact fun _ => ⟨fun string => (nomatch string), rfl⟩
  · obtain ⟨-, split⟩ := List.cons_eq_cons.mp split
    obtain ⟨-, none⟩ := List.cons_eq_cons.mp split
    exact absurd none (by simp)

/-- **Records of another wire type change fields**: four bytes for a command make it the last
varint, here the zero that a decoder begins with, and a varint behind a text makes it as many bytes
of the text as its value says. The two-stage path leaves both as they are. -/
theorem respectsWireType_ne :
    let text : MessageType := ⟨⟨1, asciiBytes "Text", asciiBytes "Text"⟩,
      .scalar (.declared "std::string" "text" 1) .string .nil⟩
    let float : Bytes := [0x0D, 0x00, 0x00, 0x00, 0x00]
    let varint : Bytes := [0x0A, 0x02, 0x62, 0x63, 0x08, 0x01]
    (RecordStream [(1, .float 0)] float ∧
      ¬ RespectsWireType (fun _ => 0) RecorderCommand (RecorderCommand.of 7, init.directly)
        (ofBytes float) ∧
      decodeDirect (fun _ => 0) RecorderCommand init float (RecorderCommand.of 7) =
        RecorderCommand.of 0 ∧
      decodeTwoStage (fun _ => 0) RecorderCommand init float (RecorderCommand.of 7) =
        RecorderCommand.of 7) ∧
    (RecordStream [(1, .string [0x62, 0x63]), (1, .uint64 1)] varint ∧
      decodeDirect (fun _ => 0) text init varint ([0x61], ()) = ([0x62], ()) ∧
      decodeTwoStage (fun _ => 0) text init varint ([0x61], ()) = ([0x62, 0x63], ())) := by
  have group : ∀ b : Byte, b &&& 0x80#8 = 0 → IsProtoVarInt [b] := fun b hb => ⟨.last hb, by simp⟩
  have floatKey : IsKey [0x0D] 1 .fourBytes := ⟨group _ (by decide), by decide, by decide⟩
  have stringKey : IsKey [0x0A] 1 .lengthDelimited := ⟨group _ (by decide), by decide, by decide⟩
  have varintKey : IsKey [0x08] 1 .varint := ⟨group _ (by decide), by decide, by decide⟩
  have zeros : ([0x00, 0x00, 0x00, 0x00] : Bytes).length = 4 := rfl
  have floatRecord := IsRecord.fourBytes floatKey zeros
  have stringRecord : IsRecord [0x0A, 0x02, 0x62, 0x63] 1 (.string [0x62, 0x63]) :=
    .lengthDelimited stringKey (group 0x02 (by decide)) rfl
  have varintRecord := IsRecord.varint varintKey (group 0x01 (by decide))
  refine ⟨⟨.cons floatRecord .nil, fun respects => ?_, rfl, rfl⟩,
    .cons stringRecord (.cons varintRecord .nil), rfl, rfl⟩
  have unchanged := (respects .fourBytes 1 _ _ rfl).1 .varint rfl (by decide)
  have same : (0 : Byte) = 7 := congrArg Prod.fst unchanged
  exact absurd same (by decide)

end FromProtoVisitor

end Cluon
