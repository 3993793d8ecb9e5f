import Cluon.Proto.RoundTrip
import Cluon.Proto.Truncated
import Cluon.Proto.WireTypes
import Mathlib.Data.List.Induction

/-!
# What a decoder has from earlier streams

A decoder that is used again still holds what earlier streams have left in its members. What a
stream itself has provided is `Known`: it is the same for every decoder (`Agrees.store`). If
all fields take only what is known, two decoders with different histories give the same message
(`decodeDirect_eq_of_settled`); a scalar field that takes anything else differs for two of them
(`exists_differ`).
-/

set_option autoImplicit false

namespace Cluon

open Library InputStream

/-! ## What is known -/

/-- The members of a decoder as far as a stream has provided them. The buffer is that of a
decoder without earlier streams. -/
structure Known where
  word : Option (BitVec 64)
  double : Option (BitVec 64)
  float : Option (BitVec 32)
  buffer : StringBuffer

namespace Known

/-- Nothing has been read. -/
def nothing : Known := ⟨none, none, none, ⟨0, []⟩⟩

/-- What is known after a read: a number that has been read in part keeps its other bytes. -/
def store (k : Known) : Read → Known
  | .varint v => { k with word := some v }
  | .eightBytes bytes =>
      { k with
        double :=
          if 8 ≤ bytes.length then some (BitVec.ofNat 64 (ofLeBytes bytes))
          else k.double.map fun word => overwriteBuffer 8 word bytes }
  | .fourBytes bytes =>
      { k with
        float :=
          if 4 ≤ bytes.length then some (BitVec.ofNat 32 (ofLeBytes bytes))
          else k.float.map fun word => overwriteBuffer 4 word bytes }
  | .lengthDelimited n bytes =>
      { k with word := some n, buffer := (k.buffer.reserve n.toNat).write bytes }

/-- The members of a new decoder, as that of a nested message is. -/
def fresh : Known := ⟨some 0, some 0, some 0, ⟨0, []⟩⟩

/-- What is known after several more reads. -/
def storeAll (k : Known) (rs : List (BitVec 32 × Read)) : Known :=
  rs.foldl (fun k r => k.store r.2) k

/-- What is known after several reads. -/
def after (rs : List (BitVec 32 × Read)) : Known := nothing.storeAll rs

/-- The member of a wire type, if all of it is known. -/
def member (k : Known) : ProtoConstants → Option ProtoAny
  | .varint => k.word.map .uint64
  | .eightBytes => k.double.map .double
  | .fourBytes => k.float.map .float
  | .lengthDelimited => k.word.bind fun n =>
      if n.toNat ≤ k.buffer.written.length then some (.string (k.buffer.written.take n.toNat))
      else none

theorem after_append (rs : List (BitVec 32 × Read)) (r : BitVec 32 × Read) :
    after (rs ++ [r]) = (after rs).store r.2 := by
  rw [after, storeAll, List.foldl_append]
  rfl

theorem protoType_member {k : Known} {protoType : ProtoConstants} {payload : ProtoAny}
    (known : k.member protoType = some payload) : payload.protoType = protoType := by
  cases protoType with
  | varint | eightBytes | fourBytes =>
      obtain ⟨w, _, rfl⟩ := Option.map_eq_some_iff.mp known
      rfl
  | lengthDelimited =>
      obtain ⟨n, _, string⟩ := Option.bind_eq_some_iff.mp known
      split at string
      · obtain rfl := Option.some.inj string
        rfl
      · cases string

/-- A decoder holds what is known. -/
structure Agrees (k : Known) (d : FromProtoVisitor) : Prop where
  word : ∀ w, k.word = some w → d.value = w
  double : ∀ w, k.double = some w → d.doubleValue = w
  float : ∀ w, k.float = some w → d.floatValue = w
  buffer : k.buffer.written <+: d.stringValue.written
  capacity : k.buffer.capacity ≤ d.stringValue.capacity

theorem agrees_nothing (d : FromProtoVisitor) : Agrees nothing d where
  word _ h := nomatch h
  double _ h := nomatch h
  float _ h := nomatch h
  buffer := List.nil_prefix
  capacity := Nat.zero_le _

theorem agrees_fresh : Agrees fresh FromProtoVisitor.init.directly where
  word _ h := Option.some.inj h
  double _ h := Option.some.inj h
  float _ h := Option.some.inj h
  buffer := List.nil_prefix
  capacity := Nat.zero_le _

/-- A number whose bytes have all been read does not depend on what was there before. -/
theorem overwriteBuffer_of_le {w n : Nat} (word : BitVec w) {bytes : Bytes}
    (h : n ≤ bytes.length) :
    overwriteBuffer n word bytes = BitVec.ofNat w (ofLeBytes bytes) := by
  have none : (leBytes n word.toNat).drop bytes.length = [] :=
    List.drop_of_length_le (by rw [leBytes_length]; exact h)
  rw [overwriteBuffer, none, List.append_nil]

/-- Writing into memory that is known in part. -/
theorem written_prefix {a b : StringBuffer} (known : a.written <+: b.written)
    (capacity : a.capacity ≤ b.capacity) (n : Nat) (bytes : Bytes) :
    ((a.reserve n).write bytes).written <+: ((b.reserve n).write bytes).written ∧
      ((a.reserve n).write bytes).capacity ≤ ((b.reserve n).write bytes).capacity := by
  simp only [StringBuffer.write, StringBuffer.reserve]
  obtain ⟨t, ht⟩ := known
  by_cases grows : a.capacity < n
  · rw [if_pos grows]
    constructor
    · simp
    · split
      · exact le_rfl
      · rename_i enough
        exact Nat.not_lt.mp enough
  · have enough : ¬ b.capacity < n := fun h => grows (capacity.trans_lt h)
    rw [if_neg grows, if_neg enough]
    refine ⟨?_, capacity⟩
    rw [← ht, List.drop_append, ← List.append_assoc]
    exact List.prefix_append _ _

/-- **A decoder holds what is known after every read.** -/
theorem Agrees.store {k : Known} {d : FromProtoVisitor} (agrees : Agrees k d) (r : Read) :
    Agrees (k.store r) (d.store r) := by
  cases r with
  | varint v => exact ⟨fun w h => Option.some.inj h, agrees.double, agrees.float, agrees.buffer,
      agrees.capacity⟩
  | eightBytes bytes =>
      refine ⟨agrees.word, fun w h => ?_, agrees.float, agrees.buffer, agrees.capacity⟩
      simp only [Known.store] at h
      simp only [FromProtoVisitor.store]
      split at h
      · rename_i all
        rw [overwriteBuffer_of_le _ all]
        exact Option.some.inj h
      · obtain ⟨word, known, rfl⟩ := Option.map_eq_some_iff.mp h
        rw [agrees.double word known]
  | fourBytes bytes =>
      refine ⟨agrees.word, agrees.double, fun w h => ?_, agrees.buffer, agrees.capacity⟩
      simp only [Known.store] at h
      simp only [FromProtoVisitor.store]
      split at h
      · rename_i all
        rw [overwriteBuffer_of_le _ all]
        exact Option.some.inj h
      · obtain ⟨word, known, rfl⟩ := Option.map_eq_some_iff.mp h
        rw [agrees.float word known]
  | lengthDelimited n bytes =>
      obtain ⟨written, capacity⟩ :=
        written_prefix agrees.buffer agrees.capacity n.toNat bytes
      exact ⟨fun w h => Option.some.inj h, agrees.double, agrees.float, written, capacity⟩

/-- Every decoder holds what is known after several reads. -/
theorem agrees_after (rs : List (BitVec 32 × Read)) :
    ∀ {k : Known} {d : FromProtoVisitor}, Agrees k d →
      Agrees (k.storeAll rs) (rs.foldl (fun d r => d.store r.2) d) := by
  induction rs with
  | nil => intro _ _ agrees; exact agrees
  | cons r rs ih => intro _ _ agrees; exact ih (agrees.store r.2)

/-- **A member that is known is the same for all decoders.** -/
theorem Agrees.member {k : Known} {d : FromProtoVisitor} (agrees : Agrees k d)
    (uninit : Nat → Byte) {protoType : ProtoConstants} {payload : ProtoAny}
    (known : k.member protoType = some payload) : d.member uninit protoType = payload := by
  cases protoType with
  | varint =>
      obtain ⟨w, word, rfl⟩ := Option.map_eq_some_iff.mp known
      exact congrArg ProtoAny.uint64 (agrees.word w word)
  | eightBytes =>
      obtain ⟨w, word, rfl⟩ := Option.map_eq_some_iff.mp known
      exact congrArg ProtoAny.double (agrees.double w word)
  | fourBytes =>
      obtain ⟨w, word, rfl⟩ := Option.map_eq_some_iff.mp known
      exact congrArg ProtoAny.float (agrees.float w word)
  | lengthDelimited =>
      obtain ⟨n, word, string⟩ := Option.bind_eq_some_iff.mp known
      split at string
      · rename_i enough
        obtain rfl := Option.some.inj string
        obtain ⟨t, ht⟩ := agrees.buffer
        have all : n.toNat ≤ d.stringValue.written.length := by
          rw [← ht, List.length_append]
          exact enough.trans (Nat.le_add_right _ _)
        rw [FromProtoVisitor.member, agrees.word n word, StringBuffer.str_of_le uninit all, ← ht,
          List.take_append_of_le_length enough]
      · cases string

end Known

/-! ## Fields that take what is known -/

namespace Fields

/-- The first field of the identifier takes only what is known after a read: a scalar field unless
the identifier is read `again`, and a nested message in any case. Its own fields take only what is
known to the new decoder that reads its bytes. -/
def SettledAt : (fs : Fields) → (fieldId : BitVec 32) → (again : Prop) → Known → Prop
  | .nil, _, _, _ => True
  | .scalar field t rest, fieldId, again, k =>
      if field.fieldIdentifier = fieldId then ¬ again → (k.member t.protoType).isSome
      else rest.SettledAt fieldId again k
  | .nested field _ fields rest, fieldId, again, k =>
      if field.fieldIdentifier = fieldId then
        ∃ s, k.member .lengthDelimited = some (.string s) ∧
          ∀ before r after, FromProtoVisitor.reads (ofBytes s) = before ++ r :: after →
            fields.SettledAt r.1 (r.1 ∈ after.map Prod.fst)
              (Known.fresh.storeAll (before ++ [r]))
      else rest.SettledAt fieldId again k

/-- Every field takes only what is known: a scalar field from the last read of its identifier,
a nested message from all of them. -/
def Settled (fs : Fields) (k : Known) (rs : List (BitVec 32 × Read)) : Prop :=
  ∀ before r after, rs = before ++ r :: after →
    fs.SettledAt r.1 (r.1 ∈ after.map Prod.fst) (k.storeAll (before ++ [r]))

/-- Two messages have the same fields, except for scalars of identifiers that are still to be
read. -/
def Alike : (later : BitVec 32 → Prop) → (fs : Fields) → fs.Values → fs.Values → Prop
  | _, .nil, _, _ => True
  | later, .scalar field _ rest, a, b =>
      (a.1 = b.1 ∨ later field.fieldIdentifier) ∧
        rest.Alike (fun id => later id ∧ id ≠ field.fieldIdentifier) a.2 b.2
  | later, .nested field _ _ rest, a, b =>
      a.1 = b.1 ∧ rest.Alike (fun id => later id ∧ id ≠ field.fieldIdentifier) a.2 b.2

theorem Alike.refl (fs : Fields) : ∀ (later : BitVec 32 → Prop) (a : fs.Values),
    fs.Alike later a a := by
  induction fs with
  | nil => intro _ _; trivial
  | scalar field t rest ih => intro _ a; exact ⟨.inl rfl, ih _ a.2⟩
  | nested field info fields rest _ ih => intro _ a; exact ⟨rfl, ih _ a.2⟩

theorem Alike.mono (fs : Fields) : ∀ {later later' : BitVec 32 → Prop} {a b : fs.Values},
    (∀ id, later id → later' id) → fs.Alike later a b → fs.Alike later' a b := by
  induction fs with
  | nil => intro _ _ _ _ _ _; trivial
  | scalar field t rest ih =>
      intro _ _ a b more alike
      exact ⟨alike.1.imp_right (more _), ih (fun id h => ⟨more id h.1, h.2⟩) alike.2⟩
  | nested field info fields rest _ ih =>
      intro _ _ a b more alike
      exact ⟨alike.1, ih (fun id h => ⟨more id h.1, h.2⟩) alike.2⟩

/-- If nothing is still to be read, the messages are the same. -/
theorem Alike.eq (fs : Fields) : ∀ {later : BitVec 32 → Prop} {a b : fs.Values},
    (∀ id, ¬ later id) → fs.Alike later a b → a = b := by
  induction fs with
  | nil => intro _ _ _ _ _; rfl
  | scalar field t rest ih =>
      intro _ a b none alike
      exact Prod.ext (alike.1.resolve_right (none _)) (ih (fun id h => none id h.1) alike.2)
  | nested field info fields rest _ ih =>
      intro _ a b none alike
      exact Prod.ext alike.1 (ih (fun id h => none id h.1) alike.2)

/-- **One more read** makes the fields of its identifier the same, or they are read again. -/
theorem Alike.update {id : BitVec 32} {f f' : (t : ScalarType) → t.Value → t.Value}
    {g g' : (fields : Fields) → fields.Values → fields.Values} (fs : Fields) :
    ∀ {later : BitVec 32 → Prop} {a b : fs.Values},
      fs.Alike (fun other => other = id ∨ later other) a b →
      fs.AtField id (fun t _ => later id ∨ ∀ w w', f t w = f' t w')
        (fun fields _ => ∀ w, g fields w = g' fields w) a →
      fs.Alike later (fs.update id f g a) (fs.update id f' g' b) := by
  induction fs with
  | nil => intro _ _ _ _ _; trivial
  | scalar field t rest ih =>
      intro later a b alike same
      rw [AtField] at same
      rw [Fields.update, Fields.update]
      by_cases here : field.fieldIdentifier = id
      · simp only [if_pos here] at same ⊢
        refine ⟨?_, alike.2.mono rest fun other h => ⟨h.1.resolve_left ?_, h.2⟩⟩
        · rcases same with again | same
          · exact .inr (here ▸ again)
          · exact .inl (same _ _)
        · exact fun equal => h.2 (equal.trans here.symm)
      · simp only [if_neg here] at same ⊢
        refine ⟨alike.1.imp_right fun h => h.resolve_left here, ih (alike.2.mono rest ?_) ?_⟩
        · rintro other ⟨rfl | h, apart⟩
          · exact .inl rfl
          · exact .inr ⟨h, apart⟩
        · exact atField_mono (fun t _ h => h.imp_left fun again => ⟨again, Ne.symm here⟩)
            (fun _ _ h => h) rest a.2 same
  | nested field info fields rest _ ih =>
      intro later a b alike same
      rw [AtField] at same
      rw [Fields.update, Fields.update]
      by_cases here : field.fieldIdentifier = id
      · simp only [if_pos here] at same ⊢
        refine ⟨by rw [same, alike.1], alike.2.mono rest fun other h => ⟨h.1.resolve_left ?_, h.2⟩⟩
        exact fun equal => h.2 (equal.trans here.symm)
      · simp only [if_neg here] at same ⊢
        refine ⟨alike.1, ih (alike.2.mono rest ?_) ?_⟩
        · rintro other ⟨rfl | h, apart⟩
          · exact .inl rfl
          · exact .inr ⟨h, apart⟩
        · exact atField_mono (fun t _ h => h.imp_left fun again => ⟨again, Ne.symm here⟩)
            (fun _ _ h => h) rest a.2 same

end Fields

namespace FromProtoVisitor

section Settled

variable (u₁ u₂ : Nat → Byte)

/-- The first field of the identifier gets the same after a read from all decoders that hold what is
known, with either memory. -/
def SameAt {fs : Fields} (fieldId : BitVec 32) (again : Prop) (k : Known) (v : fs.Values) : Prop :=
  fs.AtField fieldId (fun t _ => ¬ again → (k.member t.protoType).isSome)
    (fun fields _ => ∃ s, k.member .lengthDelimited = some (.string s) ∧
      ∀ w, decodeNested u₁ s fields w = decodeNested u₂ s fields w) v

/-- Two decoders put the same into a field that gets the same. -/
theorem foldl_injectRead_alike (T : MessageType) (rs : List (BitVec 32 × Read)) :
    ∀ {k : Known} {a b : T.Values} {d₁ d₂ : FromProtoVisitor},
      (∀ before r after, rs = before ++ r :: after →
        SameAt u₁ u₂ r.1 (r.1 ∈ after.map Prod.fst) (k.storeAll (before ++ [r])) a) →
      Known.Agrees k d₁ → Known.Agrees k d₂ →
      d₁.callToDecodeFromWithDirectVisit = true → d₂.callToDecodeFromWithDirectVisit = true →
      T.fields.Alike (· ∈ rs.map Prod.fst) a b →
      (rs.foldl (injectRead (T.visitable (visitor u₁))) (a, d₁)).1 =
        (rs.foldl (injectRead (T.visitable (visitor u₂))) (b, d₂)).1 := by
  induction rs with
  | nil =>
      intro _ a b _ _ _ _ _ _ _ alike
      exact alike.eq T.fields fun _ => List.not_mem_nil
  | cons r rest ih =>
      intro k a b d₁ d₂ same agrees₁ agrees₂ flag₁ flag₂ alike
      have here := same [] r rest rfl
      have next₁ := agrees₁.store r.2
      have next₂ := agrees₂.store r.2
      have flag₁' := (store_flag d₁ r.2).trans flag₁
      have flag₂' := (store_flag d₂ r.2).trans flag₂
      rw [List.foldl_cons, List.foldl_cons, injectRead_eq u₁ a flag₁, injectRead_eq u₂ b flag₂]
      refine ih (fun before r' after split => ?_) next₁ next₂ flag₁' flag₂' ?_
      · have later := same (r :: before) r' after (by rw [split, List.cons_append])
        rw [SameAt, Fields.atField_update]
        exact later
      · refine Fields.Alike.update T.fields (alike.mono T.fields fun other h => ?_) ?_
        · exact List.mem_cons.mp h
        · refine Fields.atField_mono (fun t _ value => ?_) (fun fields _ value w => ?_) T.fields a
            here
          · by_cases again : r.1 ∈ rest.map Prod.fst
            · exact .inl again
            · obtain ⟨payload, some⟩ := Option.isSome_iff_exists.mp (value again)
              have cast := (ProtoAny.castTo_isSome t payload).mpr (Known.protoType_member some)
              obtain ⟨x, cast⟩ := Option.isSome_iff_exists.mp cast
              refine .inr fun w w' => ?_
              rw [next₁.member u₁ some, next₂.member u₂ some, cast, Option.getD_some,
                Option.getD_some]
          · obtain ⟨s, known, nested⟩ := value
            have bytes₁ := ProtoAny.string.inj (next₁.member u₁ known)
            have bytes₂ := ProtoAny.string.inj (next₂.member u₂ known)
            rw [bytes₁, bytes₂]
            exact nested w

/-- **What is settled is the same**, by induction on the fields: the decoders of a nested message are
new, and its fields are settled. -/
theorem sameAt_of_settledAt (fs : Fields) :
    ∀ {fieldId : BitVec 32} {again : Prop} {k : Known}, fs.SettledAt fieldId again k →
      ∀ v : fs.Values, SameAt u₁ u₂ fieldId again k v := by
  induction fs with
  | nil => intro _ _ _ _ _; trivial
  | scalar field t rest ih =>
      intro fieldId again k settled v
      rw [Fields.SettledAt] at settled
      rw [SameAt, Fields.AtField]
      by_cases here : field.fieldIdentifier = fieldId
      · rw [if_pos here] at settled ⊢
        exact settled
      · rw [if_neg here] at settled ⊢
        exact ih settled v.2
  | nested field info fields rest ihFields ih =>
      intro fieldId again k settled v
      rw [Fields.SettledAt] at settled
      rw [SameAt, Fields.AtField]
      by_cases here : field.fieldIdentifier = fieldId
      · rw [if_pos here] at settled ⊢
        obtain ⟨s, known, inner⟩ := settled
        refine ⟨s, known, fun w => ?_⟩
        rw [decodeNested_eq_foldl, decodeNested_eq_foldl]
        exact foldl_injectRead_alike u₁ u₂ ⟨info, fields⟩ _
          (fun before r after split => ihFields (inner before r after split) w)
          Known.agrees_fresh Known.agrees_fresh rfl rfl (Fields.Alike.refl fields _ w)
      · rw [if_neg here] at settled ⊢
        exact ih settled v.2

end Settled

/-! ## Histories -/

/-- The decoders that any streams have left. -/
inductive History : FromProtoVisitor → Prop
  | init : History init
  | staged (uninit : Nat → Byte) {d : FromProtoVisitor} (bytes : Bytes) :
      History d → History (decodeFrom uninit d (ofBytes bytes)).1
  | direct (uninit : Nat → Byte) {d : FromProtoVisitor} (T : MessageType) (bytes : Bytes)
      (v : T.Values) :
      History d → History (decodeFromInto (T.visitable (visitor uninit)) d (ofBytes bytes) v).1.2

/-- Decoders with different histories and memories give the same message if all fields take only
what is known. -/
theorem decodeDirect_eq_of_settled (u₁ u₂ : Nat → Byte) {T : MessageType} {bytes : Bytes}
    (settled : T.fields.Settled .nothing (reads (ofBytes bytes))) (d₁ d₂ : FromProtoVisitor)
    (v : T.Values) : decodeDirect u₁ T d₁ bytes v = decodeDirect u₂ T d₂ bytes v := by
  rw [decodeDirect_eq_foldl, decodeDirect_eq_foldl]
  exact foldl_injectRead_alike u₁ u₂ T _ (fun before r after split =>
      sameAt_of_settledAt u₁ u₂ T.fields (settled before r after split) v)
    (Known.agrees_nothing _) (Known.agrees_nothing _) rfl rfl (Fields.Alike.refl T.fields _ v)

/-! ## What is not known -/

/-- The decoder after several reads. -/
def storeAll (d : FromProtoVisitor) (rs : List (BitVec 32 × Read)) : FromProtoVisitor :=
  rs.foldl (fun d r => d.store r.2) d

theorem storeAll_append (d : FromProtoVisitor) (rs : List (BitVec 32 × Read))
    (r : BitVec 32 × Read) : d.storeAll (rs ++ [r]) = (d.storeAll rs).store r.2 := by
  rw [storeAll, List.foldl_append]
  rfl

section Unknown

variable (d : FromProtoVisitor)

/-- Without a varint and without a length the word is the one from before. -/
theorem value_storeAll (rs : List (BitVec 32 × Read)) :
    (Known.after rs).word = none → (d.storeAll rs).value = d.value := by
  induction rs using List.reverseRecOn with
  | nil => intro _; rfl
  | append_singleton rs r ih =>
      obtain ⟨id, r⟩ := r
      rw [Known.after_append, storeAll_append]
      cases r with
      | varint v => intro h; cases h
      | lengthDelimited n bytes => intro h; cases h
      | eightBytes bytes => exact ih
      | fourBytes bytes => exact ih

/-- A number that is read in part keeps its last byte. -/
theorem last_overwriteBuffer {w n : Nat} (hw : 2 ^ w = 256 ^ n) (word : BitVec w) {bytes : Bytes}
    (part : bytes.length < n) :
    (leBytes n (overwriteBuffer n word bytes).toNat)[n - 1]? = (leBytes n word.toNat)[n - 1]? := by
  set all := bytes ++ (leBytes n word.toNat).drop bytes.length with written
  have length : all.length = n := by
    rw [written, List.length_append, List.length_drop, leBytes_length]
    omega
  have back := @leBytes_word w all (by rw [length, hw])
  rw [length] at back
  rw [overwriteBuffer, back, written, List.getElem?_append_right (by omega), List.getElem?_drop]
  congr 1
  omega

theorem double_storeAll (rs : List (BitVec 32 × Read)) :
    (Known.after rs).double = none →
      (leBytes 8 (d.storeAll rs).doubleValue.toNat)[7]? = (leBytes 8 d.doubleValue.toNat)[7]? := by
  induction rs using List.reverseRecOn with
  | nil => intro _; rfl
  | append_singleton rs r ih =>
      obtain ⟨id, r⟩ := r
      rw [Known.after_append, storeAll_append]
      cases r with
      | varint | lengthDelimited | fourBytes => exact ih
      | eightBytes bytes =>
          intro h
          simp only [Known.store] at h
          split at h
          · cases h
          · rename_i part
            have last := last_overwriteBuffer (n := 8) (by norm_num)
              (d.storeAll rs).doubleValue (Nat.not_le.mp part)
            exact last.trans (ih (Option.map_eq_none_iff.mp h))

theorem float_storeAll (rs : List (BitVec 32 × Read)) :
    (Known.after rs).float = none →
      (leBytes 4 (d.storeAll rs).floatValue.toNat)[3]? = (leBytes 4 d.floatValue.toNat)[3]? := by
  induction rs using List.reverseRecOn with
  | nil => intro _; rfl
  | append_singleton rs r ih =>
      obtain ⟨id, r⟩ := r
      rw [Known.after_append, storeAll_append]
      cases r with
      | varint | lengthDelimited | eightBytes => exact ih
      | fourBytes bytes =>
          intro h
          simp only [Known.store] at h
          split at h
          · cases h
          · rename_i part
            have last := last_overwriteBuffer (n := 4) (by norm_num)
              (d.storeAll rs).floatValue (Nat.not_le.mp part)
            exact last.trans (ih (Option.map_eq_none_iff.mp h))

/-- The buffer of a decoder without earlier streams is the known one. -/
theorem buffer_storeAll (rs : List (BitVec 32 × Read)) :
    (init.directly.storeAll rs).stringValue = (Known.after rs).buffer := by
  induction rs using List.reverseRecOn with
  | nil => rfl
  | append_singleton rs r ih =>
      obtain ⟨id, r⟩ := r
      rw [Known.after_append, storeAll_append]
      cases r with
      | varint | eightBytes | fourBytes => exact ih
      | lengthDelimited n bytes => rw [store, Known.store, ih]

/-- Memory behind what is written stays. -/
theorem getElem?_write {b : StringBuffer} {m i : Nat} (enough : ¬ b.capacity < m)
    {bytes : Bytes} (behind : bytes.length ≤ i) :
    ((b.reserve m).write bytes).written[i]? = b.written[i]? := by
  rw [StringBuffer.write, StringBuffer.reserve, if_neg enough,
    List.getElem?_append_right behind, List.getElem?_drop]
  congr 1
  omega

/-- Reads of strings overwrite the beginning of a large buffer only, as far as they are known. -/
theorem large_storeAll {n : Nat} {b : Byte} (large : n ≤ d.stringValue.capacity)
    (filled : ∀ i < n, d.stringValue.written[i]? = some b) (rs : List (BitVec 32 × Read)) :
    (∀ r ∈ rs, r.2.Complete) →
      (Known.after rs).buffer.written.length = (Known.after rs).buffer.capacity ∧
        n ≤ (d.storeAll rs).stringValue.capacity ∧
        ∀ i < n, (Known.after rs).buffer.capacity ≤ i →
          (d.storeAll rs).stringValue.written[i]? = some b := by
  induction rs using List.reverseRecOn with
  | nil => intro _; exact ⟨rfl, large, fun i h _ => filled i h⟩
  | append_singleton rs r ih =>
      intro complete
      obtain ⟨whole, enough, kept⟩ := ih fun r hr => complete r (List.mem_append_left _ hr)
      have last := complete r (List.mem_append_right _ (List.mem_singleton_self r))
      obtain ⟨id, r⟩ := r
      rw [Known.after_append, storeAll_append]
      cases r with
      | varint | eightBytes | fourBytes => exact ⟨whole, enough, kept⟩
      | lengthDelimited m bytes =>
          have length : bytes.length = m.toNat := last
          simp only [Known.store, store]
          set k := (Known.after rs).buffer
          set d' := d.storeAll rs
          refine ⟨?_, ?_, fun i small behind => ?_⟩
          · simp only [StringBuffer.write, StringBuffer.reserve]
            split
            · simp [length]
            · rename_i fits
              simp only [List.length_append, List.length_drop, whole, length]
              omega
          · simp only [StringBuffer.write, StringBuffer.reserve]
            split
            · rename_i grows
              exact enough.trans grows.le
            · exact enough
          · have above : m.toNat ≤ i ∧ k.capacity ≤ i := by
              simp only [StringBuffer.write, StringBuffer.reserve] at behind
              split at behind
              · rename_i grows
                exact ⟨behind, grows.le.trans behind⟩
              · rename_i fits
                exact ⟨(Nat.not_lt.mp fits).trans behind, behind⟩
            have fits : ¬ d'.stringValue.capacity < m.toNat := by omega
            rw [getElem?_write fits (length ▸ above.1)]
            exact kept i small above.2

/-- A byte that is not known is the one that a large buffer has had before. -/
theorem large_storeAll_of_regular {n : BitVec 64} {b : Byte}
    (large : n.toNat ≤ d.stringValue.capacity)
    (filled : ∀ i < n.toNat, d.stringValue.written[i]? = some b) {rs : List (BitVec 32 × Read)}
    (regular : ∀ before r after, rs = before ++ r :: after →
      r.2.Bounded ∧ (after ≠ [] → r.2.Complete))
    (word : (Known.after rs).word = some n)
    (short : (Known.after rs).buffer.written.length < n.toNat) :
    (d.storeAll rs).stringValue.written[n.toNat - 1]? = some b := by
  cases rs using List.reverseRecOn with
  | nil => cases word
  | append_singleton rs r =>
      have complete : ∀ r' ∈ rs, r'.2.Complete := by
        intro r' hr'
        obtain ⟨before, after, rfl⟩ := List.append_of_mem hr'
        refine (regular before r' (after ++ [r]) ?_).2 (by simp)
        rw [List.append_assoc, List.cons_append]
      have bounded := (regular rs r [] rfl).1
      by_cases all : r.2.Complete
      · have every : ∀ r' ∈ rs ++ [r], r'.2.Complete := by
          intro r' hr'
          rcases List.mem_append.mp hr' with inside | last
          · exact complete r' inside
          · exact List.mem_singleton.mp last ▸ all
        obtain ⟨whole, _, kept⟩ := large_storeAll d large filled (rs ++ [r]) every
        exact kept _ (by omega) (by omega)
      · -- The last read is a string that is cut, whose length is the word.
        obtain ⟨whole, enough, kept⟩ := large_storeAll d large filled rs complete
        obtain ⟨id, r⟩ := r
        cases r with
        | varint | eightBytes | fourBytes => exact absurd trivial all
        | lengthDelimited m bytes =>
            rw [Known.after_append] at word short
            obtain rfl : m = n := Option.some.inj word
            have few : bytes.length < m.toNat := lt_of_le_of_ne bounded all
            rw [storeAll_append]
            simp only [Known.store, StringBuffer.write, StringBuffer.reserve] at short
            have grows : (Known.after rs).buffer.capacity < m.toNat := by
              by_contra fits
              rw [if_neg fits, List.length_append, List.length_drop] at short
              omega
            rw [store, getElem?_write (Nat.not_lt.mpr enough) (by omega)]
            exact kept _ (by omega) (by omega)

end Unknown

/-- A byte of a string that has been written. -/
theorem getElem?_str_written (uninit : Nat → Byte) {b : StringBuffer} {i n : Nat} {x : Byte}
    (written : b.written[i]? = some x) (small : i < n) : (b.str uninit n)[i]? = some x := by
  obtain ⟨within, _⟩ := List.getElem?_eq_some_iff.mp written
  rw [StringBuffer.str, List.getElem?_append_left (by rw [List.length_take]; omega),
    List.getElem?_take_of_lt small, written]

/-- A byte of a string that has not been written. -/
theorem getElem?_str_uninit (uninit : Nat → Byte) {b : StringBuffer} {i n : Nat}
    (behind : b.written.length ≤ i) (small : i < n) :
    (b.str uninit n)[i]? = some (uninit i) := by
  have take : b.written.take n = b.written := List.take_of_length_le (by omega)
  rw [StringBuffer.str, take, List.getElem?_append_right behind, List.getElem?_map,
    List.getElem?_range (by omega), Option.map_some, Nat.add_sub_cancel' behind]

/-- A decoder that has read one record. -/
theorem history_record {bs : Bytes} {id : BitVec 32} {payload : ProtoAny}
    (h : IsRecord bs id payload) : ∃ d, History d ∧
      d.value = (init.store (.ofPayload payload)).value ∧
      d.doubleValue = (init.store (.ofPayload payload)).doubleValue ∧
      d.floatValue = (init.store (.ofPayload payload)).floatValue ∧
      d.stringValue = (init.store (.ofPayload payload)).stringValue := by
  have start : (ofBytes bs).rest = bs ++ [] := (List.append_nil bs).symm
  have none : reads ((ofBytes bs).advance bs.length) = [] :=
    reads_nil rfl (rest_advance_append start)
  have one : reads (ofBytes bs) = [(id, .ofPayload payload)] := by
    rw [reads_append h rfl start, none]
  refine ⟨_, .staged (fun _ => 0) bs .init, ?_⟩
  rw [decodeFrom_eq_foldl, one]
  exact ⟨rfl, rfl, rfl, rfl⟩

/-- A word that no record brings is that of the decoder before: zero in a new one, and one in
another. -/
theorem exists_word {rs : List (BitVec 32 × Read)} (unknown : (Known.after rs).word = none) :
    (init.directly.storeAll rs).value = 0 ∧
      ∃ d, History d ∧ (d.directly.storeAll rs).value = 1 := by
  have record : IsRecord [0x08, 0x01] 1 (.uint64 1) :=
    .varint ⟨⟨.last (by decide), by decide⟩, by decide, by decide⟩ ⟨.last (by decide), by decide⟩
  obtain ⟨d, history, value, _⟩ := history_record record
  exact ⟨value_storeAll _ rs unknown, d, history, (value_storeAll _ rs unknown).trans value⟩

/-- A decoder with a large buffer. -/
theorem exists_buffer (n : BitVec 64) (some : n ≠ 0) : ∃ d, History d ∧
    n.toNat ≤ d.stringValue.capacity ∧ ∀ i < n.toNat, d.stringValue.written[i]? = .some 1 := by
  have length : (List.replicate n.toNat (1 : Byte)).length = n.toNat := List.length_replicate
  have record := @isRecord_string 1 (by decide) (List.replicate n.toNat 1)
    (by rw [length]; exact n.isLt)
  obtain ⟨d, history, _, _, _, string⟩ := history_record record
  have positive : 0 < n.toNat := Nat.pos_of_ne_zero fun zero => some (BitVec.eq_of_toNat_eq zero)
  have stored : d.stringValue = ⟨n.toNat, List.replicate n.toNat 1⟩ := by
    rw [string, Read.ofPayload, store, length, BitVec.ofNat_toNat, BitVec.setWidth_eq,
      StringBuffer.write, StringBuffer.reserve]
    have grows : init.stringValue.capacity < n.toNat := positive
    rw [if_pos grows, List.drop_nil, List.append_nil]
  refine ⟨d, history, ?_, fun i small => ?_⟩
  · rw [stored]
  · rw [stored]
    exact List.getElem?_replicate_of_lt small

/-- The last byte of a double that no record brings is that of the decoder before. -/
theorem exists_double {rs : List (BitVec 32 × Read)} (unknown : (Known.after rs).double = none) :
    ∃ d, History d ∧
      (init.directly.storeAll rs).doubleValue ≠ (d.directly.storeAll rs).doubleValue := by
  have record : IsRecord [0x09, 0xFF, 0xFF, 0xFF, 0xFF, 0xFF, 0xFF, 0xFF, 0xFF] 1
      (.double (BitVec.allOnes 64)) :=
    @IsRecord.eightBytes [0x09] [0xFF, 0xFF, 0xFF, 0xFF, 0xFF, 0xFF, 0xFF, 0xFF] 1
      ⟨⟨.last (by decide), by decide⟩, by decide, by decide⟩ rfl
  obtain ⟨d, history, _, ones, _⟩ := history_record record
  refine ⟨d, history, fun equal => ?_⟩
  have zero := double_storeAll init.directly rs unknown
  have one := double_storeAll d.directly rs unknown
  have stored : d.directly.doubleValue = BitVec.allOnes 64 := ones.trans (by decide)
  rw [equal, one, stored] at zero
  exact absurd zero (by decide)

/-- The last byte of a float that no record brings is that of the decoder before. -/
theorem exists_float {rs : List (BitVec 32 × Read)} (unknown : (Known.after rs).float = none) :
    ∃ d, History d ∧
      (init.directly.storeAll rs).floatValue ≠ (d.directly.storeAll rs).floatValue := by
  have record : IsRecord [0x0D, 0xFF, 0xFF, 0xFF, 0xFF] 1 (.float (BitVec.allOnes 32)) :=
    @IsRecord.fourBytes [0x0D] [0xFF, 0xFF, 0xFF, 0xFF] 1
      ⟨⟨.last (by decide), by decide⟩, by decide, by decide⟩ rfl
  obtain ⟨d, history, _, _, ones, _⟩ := history_record record
  refine ⟨d, history, fun equal => ?_⟩
  have zero := float_storeAll init.directly rs unknown
  have one := float_storeAll d.directly rs unknown
  have stored : d.directly.floatValue = BitVec.allOnes 32 := ones.trans (by decide)
  rw [equal, one, stored] at zero
  exact absurd zero (by decide)

/-- A string whose length is not known, or whose last byte no record brings, is another one for
another decoder. -/
theorem exists_string {rs : List (BitVec 32 × Read)}
    (regular : ∀ before r after, rs = before ++ r :: after →
      r.2.Bounded ∧ (after ≠ [] → r.2.Complete))
    (unknown : (Known.after rs).member .lengthDelimited = none) :
    ∃ d, History d ∧
      (init.directly.storeAll rs).stringValue.str (fun _ => 0)
          (init.directly.storeAll rs).value.toNat ≠
        (d.directly.storeAll rs).stringValue.str (fun _ => 0)
          (d.directly.storeAll rs).value.toNat := by
  cases word : (Known.after rs).word with
  | none =>
      obtain ⟨zero, d, history, one⟩ := exists_word word
      refine ⟨d, history, fun same => ?_⟩
      have lengths := congrArg List.length same
      rw [StringBuffer.length_str, StringBuffer.length_str, zero, one] at lengths
      exact absurd lengths (by decide)
  | some n =>
      have short : (Known.after rs).buffer.written.length < n.toNat := by
        by_contra enough
        rw [Known.member, word, Option.bind_some, if_pos (Nat.not_lt.mp enough)] at unknown
        cases unknown
      have some : n ≠ 0 := by
        rintro rfl
        exact absurd short (Nat.not_lt_zero _)
      obtain ⟨d, history, large, filled⟩ := exists_buffer n some
      refine ⟨d, history, fun same => ?_⟩
      have value (d : FromProtoVisitor) : (d.directly.storeAll rs).value = n :=
        (Known.agrees_after rs (Known.agrees_nothing d.directly)).word n word
      rw [value, value] at same
      have first : (init.directly.storeAll rs).stringValue.written.length ≤ n.toNat - 1 := by
        rw [buffer_storeAll]
        omega
      -- The last byte is not written by the new decoder, and a one in the other.
      have last : n.toNat - 1 < n.toNat := by omega
      have filledLast := large_storeAll_of_regular d.directly large filled regular word short
      have zero := getElem?_str_uninit (fun _ => 0) first last
      have one := getElem?_str_written (fun _ => 0) filledLast last
      rw [same, one] at zero
      exact absurd (Option.some.inj zero) (by decide)

/-- Different strings stay different in a field of strings. -/
theorem castTo_string_ne {t : ScalarType} (string : t.protoType = .lengthDelimited) {a b : Bytes}
    (differs : a ≠ b) : ProtoAny.castTo t (.string a) ≠ ProtoAny.castTo t (.string b) := by
  cases t with
  | bytes | string => exact fun same => differs (Option.some.inj same)
  | bool | char | int8 | uint8 | int16 | uint16 | int32 | uint32 | int64 | uint64 | float
  | double => cases string

/-- **What is not known differs for two decoders.** -/
theorem exists_differ (t : ScalarType) {rs : List (BitVec 32 × Read)}
    (regular : ∀ before r after, rs = before ++ r :: after →
      r.2.Bounded ∧ (after ≠ [] → r.2.Complete))
    (unknown : (Known.after rs).member t.protoType = none) :
    ∃ uninit d₁ d₂, History d₁ ∧ History d₂ ∧
      ProtoAny.castTo t ((d₁.directly.storeAll rs).member uninit t.protoType) ≠
        ProtoAny.castTo t ((d₂.directly.storeAll rs).member uninit t.protoType) := by
  cases type : t.protoType with
  | varint =>
      rw [type] at unknown
      obtain ⟨zero, d, history, one⟩ := exists_word (Option.map_eq_none_iff.mp unknown)
      refine ⟨fun _ => 0, init, d, .init, history, ?_⟩
      rw [member, member, zero, one]
      cases t with
      | bool | char | int8 | uint8 | int16 | uint16 | int32 | uint32 | int64 | uint64 => decide
      | float | double | bytes | string => cases type
  | eightBytes =>
      rw [type] at unknown
      obtain ⟨d, history, differs⟩ := exists_double (Option.map_eq_none_iff.mp unknown)
      refine ⟨fun _ => 0, init, d, .init, history, ?_⟩
      cases t with
      | double => exact fun same => differs (Option.some.inj same)
      | bool | char | int8 | uint8 | int16 | uint16 | int32 | uint32 | int64 | uint64 | float
      | bytes | string => cases type
  | fourBytes =>
      rw [type] at unknown
      obtain ⟨d, history, differs⟩ := exists_float (Option.map_eq_none_iff.mp unknown)
      refine ⟨fun _ => 0, init, d, .init, history, ?_⟩
      cases t with
      | float => exact fun same => differs (Option.some.inj same)
      | bool | char | int8 | uint8 | int16 | uint16 | int32 | uint32 | int64 | uint64 | double
      | bytes | string => cases type
  | lengthDelimited =>
      rw [type] at unknown
      obtain ⟨d, history, differs⟩ := exists_string regular unknown
      exact ⟨fun _ => 0, init, d, .init, history, castTo_string_ne type differs⟩

end FromProtoVisitor

/-! ## The history does not matter -/

namespace Fields

/-- No field is a nested message. -/
def Flat : Fields → Prop
  | .nil => True
  | .scalar _ _ rest => rest.Flat
  | .nested _ _ _ _ => False

theorem Flat.atField_mono {id : BitVec 32} {P P' : (t : ScalarType) → t.Value → Prop}
    {Q Q' : (fields : Fields) → fields.Values → Prop} (scalar : ∀ t w, P t w → P' t w)
    (fs : Fields) : fs.Flat → ∀ v : fs.Values, fs.AtField id P Q v → fs.AtField id P' Q' v := by
  induction fs with
  | nil => intro _ _ h; exact h
  | scalar field t rest ih =>
      intro flat v
      rw [AtField, AtField]
      split
      · exact scalar t v.1
      · exact ih flat v.2
  | nested field info fields rest _ _ => intro flat; exact absurd flat not_false

theorem Flat.settledAt {id : BitVec 32} {again : Prop} {k : Known}
    {P : (t : ScalarType) → t.Value → Prop} {Q : (fields : Fields) → fields.Values → Prop}
    (scalar : ∀ t w, P t w → ¬ again → (k.member t.protoType).isSome) (fs : Fields) :
    fs.Flat → ∀ v : fs.Values, fs.AtField id P Q v → fs.SettledAt id again k := by
  induction fs with
  | nil => intro _ _ _; trivial
  | scalar field t rest ih =>
      intro flat v
      rw [AtField, SettledAt]
      split
      · exact scalar t v.1
      · exact ih flat v.2
  | nested field info fields rest _ _ => intro flat; exact absurd flat not_false

/-- A condition for all `x` on a field is a condition on the field for all `x`. -/
theorem atField_forall {ι : Type} {id : BitVec 32} {P : ι → (t : ScalarType) → t.Value → Prop}
    {Q : ι → (fields : Fields) → fields.Values → Prop} (fs : Fields) (v : fs.Values)
    (each : ∀ x, fs.AtField id (P x) (Q x) v) :
    fs.AtField id (fun t w => ∀ x, P x t w) (fun fields w => ∀ x, Q x fields w) v := by
  induction fs with
  | nil => trivial
  | scalar field t rest ih =>
      simp only [AtField] at each ⊢
      split
      · rename_i here
        exact fun x => by simpa only [if_pos here] using each x
      · rename_i other
        exact ih v.2 fun x => by simpa only [if_neg other] using each x
  | nested field info fields rest _ ih =>
      simp only [AtField] at each ⊢
      split
      · rename_i here
        exact fun x => by simpa only [if_pos here] using each x
      · rename_i other
        exact ih v.2 fun x => by simpa only [if_neg other] using each x

/-- A condition that does not look at the value. -/
theorem atField_const {id : BitVec 32} {P : ScalarType → Prop} {Q : Fields → Prop} (fs : Fields)
    (a b : fs.Values) (h : fs.AtField id (fun t _ => P t) (fun fields _ => Q fields) a) :
    fs.AtField id (fun t _ => P t) (fun fields _ => Q fields) b := by
  induction fs with
  | nil => trivial
  | scalar field t rest ih =>
      rw [AtField] at h ⊢
      split
      · rename_i here
        rwa [if_pos here] at h
      · rename_i other
        rw [if_neg other] at h
        exact ih a.2 b.2 h
  | nested field info fields rest _ ih =>
      rw [AtField] at h ⊢
      split
      · rename_i here
        rwa [if_pos here] at h
      · rename_i other
        rw [if_neg other] at h
        exact ih a.2 b.2 h

/-- A condition that all values meet. -/
theorem atField_of_forall {id : BitVec 32} {P : (t : ScalarType) → t.Value → Prop}
    {Q : (fields : Fields) → fields.Values → Prop} (scalar : ∀ t w, P t w)
    (message : ∀ fields w, Q fields w) (fs : Fields) (v : fs.Values) :
    fs.AtField id P Q v := by
  induction fs with
  | nil => trivial
  | scalar field t rest ih =>
      rw [AtField]
      split
      · exact scalar t v.1
      · exact ih v.2
  | nested field info fields rest _ ih =>
      rw [AtField]
      split
      · exact message fields v.1
      · exact ih v.2

end Fields

namespace FromProtoVisitor

variable (uninit : Nat → Byte)

/-- Other reads do not change a field. -/
theorem atField_foldl_injectRead {T : MessageType} {id : BitVec 32}
    {P : (t : ScalarType) → t.Value → Prop} {Q : (fields : Fields) → fields.Values → Prop}
    (rs : List (BitVec 32 × Read)) (others : id ∉ rs.map Prod.fst) :
    ∀ {v : T.Values} {d : FromProtoVisitor}, d.callToDecodeFromWithDirectVisit = true →
      T.fields.AtField id P Q v → T.fields.AtField id P Q
        (rs.foldl (injectRead (T.visitable (visitor uninit))) (v, d)).1 := by
  induction rs with
  | nil => intro _ _ _ h; exact h
  | cons r rs ih =>
      intro v d flag h
      rw [List.map_cons, List.mem_cons, not_or] at others
      rw [List.foldl_cons, injectRead_eq uninit v flag]
      apply ih others.2 ((store_flag d r.2).trans flag)
      rw [Fields.atField_update]
      simpa only [if_neg (Ne.symm others.1)] using h

/-- **The field of the last read of an identifier** has the value of the member of its type. -/
theorem atField_last {T : MessageType} (before : List (BitVec 32 × Read))
    (r : BitVec 32 × Read) (after : List (BitVec 32 × Read)) (last : r.1 ∉ after.map Prod.fst)
    (v : T.Values) {d : FromProtoVisitor} (flag : d.callToDecodeFromWithDirectVisit = true) :
    T.fields.AtField r.1
      (fun t w => ProtoAny.castTo t
        ((d.storeAll (before ++ [r])).member uninit t.protoType) = some w) (fun _ _ => True)
      ((before ++ r :: after).foldl (injectRead (T.visitable (visitor uninit))) (v, d)).1 := by
  rw [List.foldl_append, List.foldl_cons]
  set s := before.foldl (injectRead (T.visitable (visitor uninit))) (v, d) with reached
  have stored : s.2 = d.storeAll before := foldl_injectRead_snd uninit T before (v, d)
  have kept (rs : List (BitVec 32 × Read)) :
      (d.storeAll rs).callToDecodeFromWithDirectVisit = true := by
    induction rs using List.reverseRecOn with
    | nil => exact flag
    | append_singleton rs r ih => rw [storeAll_append, store_flag, ih]
  have flag' : s.2.callToDecodeFromWithDirectVisit = true := by rw [stored, kept]
  rw [← Prod.eta s, injectRead_eq uninit s.1 flag']
  apply atField_foldl_injectRead uninit after last ((store_flag s.2 r.2).trans flag')
  rw [Fields.atField_update, storeAll_append, ← stored]
  refine Fields.atField_of_forall (fun t w => ?_) (fun _ _ => trivial) T.fields s.1
  have cast := (ProtoAny.castTo_isSome t ((s.2.store r.2).member uninit t.protoType)).mpr
    (by cases t.protoType <;> rfl)
  obtain ⟨x, cast⟩ := Option.isSome_iff_exists.mp cast
  rw [if_pos rfl, cast, Option.getD_some]

/-- Of the reads up to one of them only the last can be cut. -/
theorem regular_of_reads {bytes : Bytes} {before after : List (BitVec 32 × Read)}
    {r : BitVec 32 × Read} (split : reads (ofBytes bytes) = before ++ r :: after) :
    ∀ before' r' after', before ++ [r] = before' ++ r' :: after' →
      r'.2.Bounded ∧ (after' ≠ [] → r'.2.Complete) := by
  intro before' r' after' split'
  have whole : reads (ofBytes bytes) = before' ++ r' :: (after' ++ after) := by
    rw [split, ← List.singleton_append, ← List.append_assoc, split', List.append_assoc,
      List.cons_append]
  obtain ⟨bounded, complete⟩ := complete_of_reads _ le_rfl rfl whole
  exact ⟨bounded, fun some => complete fun none => some (List.append_eq_nil_iff.mp none).1⟩

/-- **The history of a decoder does not matter**, nor does what the memory contains, if every field
takes only what the stream has provided, and so do the fields of nested messages. Conversely, if
the history never matters, then every field of a message without nested messages does. -/
theorem decodeDirect_history {T : MessageType} (bytes : Bytes) (v : T.Values) :
    (T.fields.Settled .nothing (reads (ofBytes bytes)) →
      ∀ u₁ u₂ d₁ d₂, History d₁ → History d₂ →
        decodeDirect u₁ T d₁ bytes v = decodeDirect u₂ T d₂ bytes v) ∧
    (T.fields.Flat →
      (∀ uninit d₁ d₂, History d₁ → History d₂ →
        decodeDirect uninit T d₁ bytes v = decodeDirect uninit T d₂ bytes v) →
      T.fields.Settled .nothing (reads (ofBytes bytes))) := by
  refine ⟨fun settled u₁ u₂ d₁ d₂ _ _ => decodeDirect_eq_of_settled u₁ u₂ settled d₁ d₂ v, ?_⟩
  intro flat same before r after split
  by_cases again : r.1 ∈ after.map Prod.fst
  · refine Fields.Flat.settledAt (P := fun _ _ => True) (Q := fun _ _ => True)
      (fun _ _ _ last => absurd again last) T.fields flat v ?_
    exact Fields.atField_of_forall (fun _ _ => trivial) (fun _ _ => trivial) T.fields v
  · have regular := regular_of_reads split
    -- All pairs of decoders give the same value, so the member is known.
    have values : T.fields.AtField r.1
        (fun t _ => ∀ x : (Nat → Byte) × FromProtoVisitor × FromProtoVisitor,
          History x.2.1 → History x.2.2 →
          ProtoAny.castTo t ((x.2.1.directly.storeAll (before ++ [r])).member x.1 t.protoType) =
            ProtoAny.castTo t ((x.2.2.directly.storeAll (before ++ [r])).member x.1 t.protoType))
        (fun _ _ => (Nat → Byte) × FromProtoVisitor × FromProtoVisitor → True) v := by
      refine Fields.atField_forall (Q := fun _ _ _ => True) T.fields v
        fun ⟨uninit, d₁, d₂⟩ => ?_
      by_cases histories : History d₁ ∧ History d₂
      · have equal := same uninit d₁ d₂ histories.1 histories.2
        have last₁ := atField_last uninit before r after again v (d := d₁.directly) rfl
        have last₂ := atField_last uninit before r after again v (d := d₂.directly) rfl
        rw [decodeDirect_eq_foldl, decodeDirect_eq_foldl, split] at equal
        rw [← equal] at last₂
        have both := (Fields.atField_and T.fields _).mp ⟨last₁, last₂⟩
        refine Fields.atField_const T.fields _ v
          (Fields.atField_mono (fun t w values _ _ => ?_) (fun _ _ _ => trivial) T.fields _ both)
        exact values.1.trans values.2.symm
      · refine Fields.atField_of_forall (fun _ _ h₁ h₂ => ?_) (fun _ _ => trivial) T.fields v
        exact absurd ⟨h₁, h₂⟩ histories
    exact Fields.Flat.settledAt (fun t _ equal _ => by
      by_contra unknown
      rw [Bool.not_eq_true, Option.isSome_eq_false_iff, Option.isNone_iff_eq_none] at unknown
      obtain ⟨uninit, d₁, d₂, h₁, h₂, differs⟩ := exists_differ t regular unknown
      exact differs (equal (uninit, d₁, d₂) h₁ h₂)) T.fields flat v values

/-- An envelope with a time stamp, and a data type that is cut off behind its key. -/
theorem decodeDirect_history_envelope :
    ∀ u₁ u₂ d₁ d₂, History d₁ → History d₂ →
      decodeDirect u₁ Envelope d₁ [0x1A, 0x04, 0x08, 0x06, 0x10, 0x0A, 0x08] Envelope.initial =
        decodeDirect u₂ Envelope d₂ [0x1A, 0x04, 0x08, 0x06, 0x10, 0x0A, 0x08]
          Envelope.initial := by
  have group : ∀ b : Byte, b &&& 0x80#8 = 0 → IsProtoVarInt [b] := fun b hb => ⟨.last hb, by simp⟩
  have inner : reads (ofBytes [0x08, 0x06, 0x10, 0x0A]) = [(1, .varint 6), (2, .varint 10)] := by
    have seconds : IsRecord [0x08, 0x06] 1 (.uint64 6) :=
      .varint ⟨group _ (by decide), by decide, by decide⟩ (group _ (by decide))
    have microseconds : IsRecord [0x10, 0x0A] 2 (.uint64 10) :=
      .varint ⟨group _ (by decide), by decide, by decide⟩ (group _ (by decide))
    rw [reads_append (t := [0x10, 0x0A]) seconds rfl rfl,
      reads_append (t := []) microseconds rfl rfl, reads_nil rfl rfl]
    rfl
  have outer : reads (ofBytes [0x1A, 0x04, 0x08, 0x06, 0x10, 0x0A, 0x08]) =
      [(3, .lengthDelimited 4 [0x08, 0x06, 0x10, 0x0A]), (1, .varint 0x7f)] := by
    have sent : IsRecord [0x1A, 0x04, 0x08, 0x06, 0x10, 0x0A] 3
        (.string [0x08, 0x06, 0x10, 0x0A]) :=
      .lengthDelimited ⟨group _ (by decide), by decide, by decide⟩ (group _ (by decide)) rfl
    rw [reads_append (t := [0x08]) sent rfl rfl]
    rfl
  refine (decodeDirect_history (T := Envelope) _ Envelope.initial).1 ?_
  intro before r after split
  rw [outer] at split
  rcases before with _ | ⟨r₀, _ | ⟨r₁, before⟩⟩
  · obtain ⟨rfl, rfl⟩ := List.cons_eq_cons.mp split
    refine ⟨[0x08, 0x06, 0x10, 0x0A], rfl, fun before r after split => ?_⟩
    rw [inner] at split
    rcases before with _ | ⟨r₀, _ | ⟨r₁, before⟩⟩
    · obtain ⟨rfl, rfl⟩ := List.cons_eq_cons.mp split
      exact fun _ => rfl
    · obtain ⟨-, rest⟩ := List.cons_eq_cons.mp split
      obtain ⟨rfl, rfl⟩ := List.cons_eq_cons.mp rest
      exact fun _ => rfl
    · obtain ⟨-, rest⟩ := List.cons_eq_cons.mp split
      obtain ⟨-, none⟩ := List.cons_eq_cons.mp rest
      exact absurd none (by simp)
  · obtain ⟨rfl, rest⟩ := List.cons_eq_cons.mp split
    obtain ⟨rfl, rfl⟩ := List.cons_eq_cons.mp rest
    exact fun _ => rfl
  · obtain ⟨-, rest⟩ := List.cons_eq_cons.mp split
    obtain ⟨-, none⟩ := List.cons_eq_cons.mp rest
    exact absurd none (by simp)

/-- **The history of a decoder leaks**: a text of which only the length is there becomes the text
that the decoder has read from an earlier stream, and four bytes for a command make it the last
varint of an earlier stream. -/
theorem decodeDirect_history_ne :
    let text : MessageType := ⟨⟨1, asciiBytes "Text", asciiBytes "Text"⟩,
      .scalar (.declared "std::string" "text" 1) .string .nil⟩
    let after (earlier : Bytes) : FromProtoVisitor :=
      (decodeFrom (fun _ => 0) init (ofBytes earlier)).1
    (∀ earlier, History (after earlier)) ∧
    (decodeDirect (fun _ => 0) text (after []) [0x0A, 0x03] ([], ()) = ([0, 0, 0], ()) ∧
      decodeDirect (fun _ => 0) text (after [0x0A, 0x03, 0x61, 0x62, 0x63]) [0x0A, 0x03] ([], ()) =
        ([0x61, 0x62, 0x63], ())) ∧
    decodeDirect (fun _ => 0) RecorderCommand (after []) [0x0D, 0x00, 0x00, 0x00, 0x00]
        (RecorderCommand.of 7) = RecorderCommand.of 0 ∧
      decodeDirect (fun _ => 0) RecorderCommand (after [0x08, 0x05]) [0x0D, 0x00, 0x00, 0x00, 0x00]
        (RecorderCommand.of 7) = RecorderCommand.of 5 :=
  ⟨fun earlier => .staged _ earlier .init, ⟨rfl, rfl⟩, rfl, rfl⟩

end FromProtoVisitor

end Cluon
