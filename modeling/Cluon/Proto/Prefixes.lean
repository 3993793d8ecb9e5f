import Cluon.Message.Genuine
import Cluon.Proto.History
import Cluon.Proto.Lengths

/-!
# Beginnings of encoded messages

A decoder does not notice that its input ends within a record: what it reads for that record is
put into the message like any other value. Whether this gives a field a value that is neither
the one from before nor the one of the encoded message depends on whether the value of the
encoded message is recovered from what has been read (`Fields.Recovers`). If it is for all
records, the cut one included, then all fields are genuine, in nested messages as well, and for
messages without nested messages there is no other way (`decode_prefix_genuine`).
-/

set_option autoImplicit false

namespace Cluon

open Library InputStream

namespace Fields

/-! ## Genuine values -/

/-- A change that gives a field the value of the encoded message or leaves it. -/
theorem Genuine.update {id : BitVec 32} {f : (t : ScalarType) → t.Value → t.Value}
    {g : (fields : Fields) → fields.Values → fields.Values} (fs : Fields) {m v w : fs.Values}
    (genuine : fs.Genuine m v w)
    (change : fs.AtField id (fun t x => ∀ y, f t y = x ∨ f t y = y)
      (fun fields x => ∀ u y, fields.Genuine x u y → fields.Genuine x u (g fields y)) m) :
    fs.Genuine m v (fs.update id f g w) := by
  induction fs with
  | nil => trivial
  | scalar field t rest ih =>
      rw [AtField] at change
      rw [Fields.update]
      split
      · rename_i here
        rw [if_pos here] at change
        refine ⟨?_, genuine.2⟩
        rcases change w.1 with encoded | same
        · exact .inr encoded
        · exact genuine.1.imp same.trans same.trans
      · rename_i other
        rw [if_neg other] at change
        exact ⟨genuine.1, ih genuine.2 change⟩
  | nested field info fields rest _ ih =>
      rw [AtField] at change
      rw [Fields.update]
      split
      · rename_i here
        rw [if_pos here] at change
        exact ⟨change v.1 w.1 genuine.1, genuine.2⟩
      · rename_i other
        rw [if_neg other] at change
        exact ⟨genuine.1, ih genuine.2 change⟩

/-! ## Nested messages -/

/-- A condition on the nested messages of a message, but not on those within them. -/
def EachNested (Q : Fields → Prop) : Fields → Prop
  | .nil => True
  | .scalar _ _ rest => rest.EachNested Q
  | .nested _ _ fields rest => Q fields ∧ rest.EachNested Q

/-- What holds of a message if it holds of its nested messages holds of all messages. -/
theorem forall_of_eachNested {Q : Fields → Prop} (step : ∀ fs : Fields, fs.EachNested Q → Q fs)
    (fs : Fields) : Q fs := by
  have each : ∀ fs : Fields, fs.EachNested Q := by
    intro fs
    induction fs with
    | nil => trivial
    | scalar field t rest ih => exact ih
    | nested field info fields rest ihFields ih => exact ⟨step fields ihFields, ih⟩
  exact step fs (each fs)

theorem eachNested_of_forall {Q : Fields → Prop} (all : ∀ fs, Q fs) (fs : Fields) :
    fs.EachNested Q := by
  induction fs with
  | nil => trivial
  | scalar field t rest ih => exact ih
  | nested field info fields rest _ ih => exact ⟨all fields, ih⟩

theorem EachNested.atField {Q : Fields → Prop} {id : BitVec 32}
    {P : (t : ScalarType) → t.Value → Prop} {R R' : (fields : Fields) → fields.Values → Prop}
    (message : ∀ fields w, Q fields → R fields w → R' fields w) (fs : Fields) (v : fs.Values)
    (each : fs.EachNested Q) (h : fs.AtField id P R v) : fs.AtField id P R' v := by
  induction fs with
  | nil => trivial
  | scalar field t rest ih =>
      rw [AtField] at h ⊢
      split
      · rename_i here
        rwa [if_pos here] at h
      · rename_i other
        rw [if_neg other] at h
        exact ih v.2 each h
  | nested field info fields rest _ ih =>
      rw [AtField] at h ⊢
      split
      · rename_i here
        rw [if_pos here] at h
        exact message fields v.1 each.1 h
      · rename_i other
        rw [if_neg other] at h
        exact ih v.2 each.2 h

/-- There is no field of an identifier that is not a key. -/
theorem atField_of_notMem {id : BitVec 32} {P : (t : ScalarType) → t.Value → Prop}
    {Q : (fields : Fields) → fields.Values → Prop} (fs : Fields) (v : fs.Values)
    (absent : id ∉ fs.keys FieldInfo.fieldIdentifier) : fs.AtField id P Q v := by
  induction fs with
  | nil => trivial
  | scalar field t rest ih =>
      rw [keys, List.mem_cons, not_or] at absent
      rw [AtField, if_neg (Ne.symm absent.1)]
      exact ih v.2 absent.2
  | nested field info fields rest _ ih =>
      rw [keys, List.mem_cons, not_or] at absent
      rw [AtField, if_neg (Ne.symm absent.1)]
      exact ih v.2 absent.2

/-! ## What is recovered -/

/-- The reads of a scalar field tell its value: the last of them has left the member of its
wire type known, and the value is that of the member. -/
def RecoversScalar (t : ScalarType) (x : t.Value) (known : Known) : Prop :=
  ∃ payload, known.member t.protoType = some payload ∧ payload.castTo t = some x

/-- Every read gives its field the value of the encoded message, from what the reads themselves
have provided; the bytes that are read for a nested message give it to all fields of it. -/
def Recovers : (fs : Fields) → fs.Values → List (BitVec 32 × Read) → Prop
  | .nil, _, _ => True
  | .scalar field t rest, m, rs =>
      (∀ before r after, rs = before ++ (field.fieldIdentifier, r) :: after →
        RecoversScalar t m.1 (Known.after (before ++ [(field.fieldIdentifier, r)]))) ∧
      rest.Recovers m.2 rs
  | .nested field _ fields rest, m, rs =>
      (∀ before r after, rs = before ++ (field.fieldIdentifier, r) :: after →
        ∃ s, (Known.after (before ++ [(field.fieldIdentifier, r)])).member .lengthDelimited =
          some (.string s) ∧ fields.Recovers m.1 (FromProtoVisitor.reads (ofBytes s))) ∧
      rest.Recovers m.2 rs

/-- What is known of a nested message tells the values of its fields. -/
def RecoversMessage (fields : Fields) (x : fields.Values) (known : Known) : Prop :=
  ∃ s, known.member .lengthDelimited = some (.string s) ∧
    fields.Recovers x (FromProtoVisitor.reads (ofBytes s))

theorem Recovers.atField (fs : Fields) {m : fs.Values} {rs before after : List (BitVec 32 × Read)}
    {r : BitVec 32 × Read} (recovers : fs.Recovers m rs) (split : rs = before ++ r :: after) :
    fs.AtField r.1 (fun t x => RecoversScalar t x (Known.after (before ++ [r])))
      (fun fields x => fields.RecoversMessage x (Known.after (before ++ [r]))) m := by
  induction fs with
  | nil => trivial
  | scalar field t rest ih =>
      rw [AtField]
      by_cases here : field.fieldIdentifier = r.1
      · obtain ⟨id, r⟩ := r
        subst here
        rw [if_pos rfl]
        exact recovers.1 before r after split
      · rw [if_neg here]
        exact ih recovers.2
  | nested field info fields rest _ ih =>
      rw [AtField]
      by_cases here : field.fieldIdentifier = r.1
      · obtain ⟨id, r⟩ := r
        subst here
        rw [if_pos rfl]
        exact recovers.1 before r after split
      · rw [if_neg here]
        exact ih recovers.2

/-- Conversely, if the fields have different identifiers. -/
theorem recovers_of_atField (fs : Fields) (distinct : fs.DistinctIdentifiers) {m : fs.Values}
    {rs : List (BitVec 32 × Read)}
    (each : ∀ before r after, rs = before ++ r :: after →
      fs.AtField r.1 (fun t x => RecoversScalar t x (Known.after (before ++ [r])))
        (fun fields x => fields.RecoversMessage x (Known.after (before ++ [r]))) m) :
    fs.Recovers m rs := by
  induction fs with
  | nil => trivial
  | scalar field t rest ih =>
      constructor
      · intro before r after split
        have here := each before _ after split
        rwa [AtField, if_pos rfl] at here
      · apply ih distinct.2
        intro before r after split
        have there := each before r after split
        rw [AtField] at there
        by_cases here : field.fieldIdentifier = r.1
        · exact atField_of_notMem rest m.2 (here ▸ distinct.1)
        · rwa [if_neg here] at there
  | nested field info fields rest _ ih =>
      constructor
      · intro before r after split
        have here := each before _ after split
        rwa [AtField, if_pos rfl] at here
      · apply ih distinct.2.2
        intro before r after split
        have there := each before r after split
        rw [AtField] at there
        by_cases here : field.fieldIdentifier = r.1
        · exact atField_of_notMem rest m.2 (here ▸ distinct.1)
        · rwa [if_neg here] at there

end Fields

/-! ## Decoding what is recovered -/

namespace FromProtoVisitor

variable (uninit : Nat → Byte)

/-- Decoding the bytes of a nested message leaves its fields genuine if they are recovered. -/
def InjectsGenuine (fs : Fields) : Prop :=
  ∀ (m : fs.Values) (s : Bytes), fs.Recovers m (reads (ofBytes s)) →
    ∀ v w, fs.Genuine m v w → fs.Genuine m v (decodeNested uninit s fs w)

/-- **All reads of a direct injection** leave the fields genuine. -/
theorem genuine_foldl_injectRead (T : MessageType)
    (nested : T.fields.EachNested (InjectsGenuine uninit)) {m v : T.Values}
    (rest : List (BitVec 32 × Read)) :
    ∀ {before : List (BitVec 32 × Read)} {w : T.Values} {d : FromProtoVisitor},
      T.fields.Recovers m (before ++ rest) → Known.Agrees (Known.after before) d →
      d.callToDecodeFromWithDirectVisit = true → T.fields.Genuine m v w →
      T.fields.Genuine m v (rest.foldl (injectRead (T.visitable (visitor uninit))) (w, d)).1 := by
  induction rest with
  | nil => intro _ _ _ _ _ _ genuine; exact genuine
  | cons r rest ih =>
      intro before w d recovers agrees flag genuine
      have next := agrees.store r.2
      rw [← Known.after_append] at next
      rw [List.foldl_cons, injectRead_eq uninit w flag]
      refine @ih (before ++ [r]) _ _ ?_ next ((store_flag d r.2).trans flag) ?_
      · rw [List.append_assoc]
        exact recovers
      · apply genuine.update T.fields
        have here := recovers.atField T.fields rfl
        refine nested.atField (fun fields x good message u y => ?_) T.fields m
          (Fields.atField_mono (fun t x scalar y => ?_) (fun _ _ message => message) T.fields m here)
        · obtain ⟨s, known, recovers⟩ := message
          have string := next.member uninit known
          rw [ProtoAny.string.inj string]
          exact good x s recovers u y
        · obtain ⟨payload, known, cast⟩ := scalar
          rw [next.member uninit known, cast]
          exact .inl rfl

theorem injectsGenuine (fs : Fields) : InjectsGenuine uninit fs := by
  refine Fields.forall_of_eachNested (fun fs nested m s recovers v w genuine => ?_) fs
  rw [decodeNested_eq_foldl]
  exact @genuine_foldl_injectRead uninit ⟨⟨0, [], []⟩, fs⟩ nested m v _ [] w _ recovers
    (Known.agrees_nothing _) rfl genuine

/-- **The direct injection** leaves the fields genuine if they are recovered. -/
theorem genuine_decodeDirect {T : MessageType} {m : T.Values} {bytes : Bytes}
    (recovers : T.fields.Recovers m (reads (ofBytes bytes))) (d : FromProtoVisitor)
    (v : T.Values) : T.fields.Genuine m v (decodeDirect uninit T d bytes v) := by
  rw [decodeDirect_eq_foldl]
  exact @genuine_foldl_injectRead uninit T
    (Fields.eachNested_of_forall (injectsGenuine uninit) T.fields) m v _ [] v _ recovers
    (Known.agrees_nothing _) rfl (Fields.Genuine.refl _ _ _)

/-! ## The two stages -/

/-- What a decoder finds for an identifier is the payload of a read of that identifier, as it is
known if it is known at all. -/
def Collects (rs : List (BitVec 32 × Read)) (d : FromProtoVisitor) : Prop :=
  ∀ id payload, d.mapOfKeyValues.find id = some payload →
    ∃ before r after, rs = before ++ (id, r) :: after ∧ payload.protoType = r.protoType ∧
      ∀ known, (Known.after (before ++ [(id, r)])).member r.protoType = some known →
        payload = known

theorem protoType_member (d : FromProtoVisitor) (protoType : ProtoConstants) :
    (d.member uninit protoType).protoType = protoType := by
  cases protoType <;> rfl

/-- The first stage collects what it reads, whatever the decoder has read before. -/
theorem collects_foldl (rest : List (BitVec 32 × Read)) :
    ∀ {before : List (BitVec 32 × Read)} {d : FromProtoVisitor},
      Known.Agrees (Known.after before) d → Collects before d →
      Collects (before ++ rest) (rest.foldl (collectRead uninit) d) ∧
        (rest.foldl (collectRead uninit) d).callToDecodeFromWithDirectVisit =
          d.callToDecodeFromWithDirectVisit := by
  induction rest with
  | nil =>
      intro before d _ collects
      rw [List.append_nil]
      exact ⟨collects, rfl⟩
  | cons r rest ih =>
      intro before d agrees collects
      have next := agrees.store r.2
      rw [← Known.after_append] at next
      have agrees' : Known.Agrees (Known.after (before ++ [r])) (collectRead uninit d r) :=
        ⟨next.word, next.double, next.float, next.buffer, next.capacity⟩
      have collects' : Collects (before ++ [r]) (collectRead uninit d r) := by
        intro id payload found
        have same : (d.store r.2).mapOfKeyValues = d.mapOfKeyValues := by
          cases r.2 <;> rfl
        rw [collectRead, same, KeyValueMap.find_emplace] at found
        have earlier : ∀ payload, d.mapOfKeyValues.find id = some payload →
            ∃ front r' after, before ++ [r] = front ++ (id, r') :: after ∧
              payload.protoType = r'.protoType ∧
              ∀ known, (Known.after (front ++ [(id, r')])).member r'.protoType = some known →
                payload = known := by
          intro payload found
          obtain ⟨front, r', after, split, type, known⟩ := collects id payload found
          exact ⟨front, r', after ++ [r], by rw [split, List.append_assoc, List.cons_append], type,
            known⟩
        split at found
        · rename_i here
          subst here
          cases old : d.mapOfKeyValues.find r.1 with
          | some payload' =>
              rw [old, Option.getD_some] at found
              exact earlier payload (old.trans found)
          | none =>
              rw [old, Option.getD_none] at found
              obtain rfl := Option.some.inj found
              refine ⟨before, r.2, [], rfl, protoType_member uninit _ _, fun known h => ?_⟩
              exact next.member uninit h
        · exact earlier payload found
      obtain ⟨collected, flag⟩ := ih agrees' collects'
      rw [List.append_assoc] at collected
      exact ⟨collected, flag.trans (store_flag d r.2)⟩

/-- Letting a nested message accept the decoder that has read its bytes leaves its fields genuine
if they are recovered. -/
def AcceptsGenuine (fs : Fields) : Prop :=
  ∀ (m : fs.Values) (rs : List (BitVec 32 × Read)), fs.Recovers m rs →
    ∀ d, Collects rs d → d.callToDecodeFromWithDirectVisit = false →
    ∀ v w, fs.Genuine m v w →
      fs.Genuine m v ((fs.visitable (visitor uninit)).accept w d).1

/-- The first stage of a decoder that is not within a direct injection. -/
theorem collects_decodeFrom (d : FromProtoVisitor) (bytes : Bytes) :
    Collects (reads (ofBytes bytes)) (decodeFrom uninit d (ofBytes bytes)).1 ∧
      (decodeFrom uninit d (ofBytes bytes)).1.callToDecodeFromWithDirectVisit =
        d.callToDecodeFromWithDirectVisit := by
  rw [decodeFrom_eq_foldl]
  exact @collects_foldl uninit (reads (ofBytes bytes)) [] _ (Known.agrees_nothing _)
    fun _ _ found => nomatch found

/-- **A message that accepts a decoder** stays genuine if its nested messages do. -/
theorem acceptsGenuine_step (fs : Fields) (nested : fs.EachNested (AcceptsGenuine uninit)) :
    AcceptsGenuine uninit fs := by
  induction fs with
  | nil => intro _ _ _ _ _ _ _ _ _; trivial
  | scalar field t rest ih =>
      intro m rs recovers d collects flag v w genuine
      rw [Fields.accept_scalar]
      refine ⟨?_, ih nested m.2 rs recovers.2 d collects flag v.2 w.2 genuine.2⟩
      rw [visit_eq, visit, if_neg (by rw [flag]; exact Bool.false_ne_true)]
      cases found : d.mapOfKeyValues.find field.fieldIdentifier with
      | none => exact genuine.1
      | some payload =>
          obtain ⟨before, r, after, split, type, same⟩ := collects _ payload found
          by_cases fits : r.protoType = t.protoType
          · obtain ⟨known, member, cast⟩ := recovers.1 before r after split
            rw [same known (fits ▸ member)]
            refine .inr ?_
            simp only [cast, Option.getD_some]
          · -- The cast of a payload of another wire type fails.
            have fails : payload.castTo t = none := by
              rw [← Option.not_isSome_iff_eq_none, ProtoAny.castTo_isSome, type]
              exact fits
            simp only [fails, Option.getD_none]
            exact genuine.1
  | nested field info fields rest _ ih =>
      intro m rs recovers d collects flag v w genuine
      rw [Fields.accept_nested]
      refine ⟨?_, ih nested.2 m.2 rs recovers.2 d collects flag v.2 w.2 genuine.2⟩
      rw [visitMessage_eq, visitMessage, if_neg (by rw [flag]; exact Bool.false_ne_true)]
      cases found : d.mapOfKeyValues.find field.fieldIdentifier with
      | none => exact genuine.1
      | some payload =>
          cases payload with
          | uint64 _ | double _ | float _ => exact genuine.1
          | string s =>
              obtain ⟨before, r, after, split, type, same⟩ := collects _ _ found
              obtain ⟨s', member, inner⟩ := recovers.1 before r after split
              have fits : r.protoType = .lengthDelimited := type.symm
              rw [← fits] at member
              obtain rfl : s = s' := ProtoAny.string.inj (same _ member)
              obtain ⟨innerCollects, innerFlag⟩ := collects_decodeFrom uninit init s
              exact nested.1 m.1 _ inner _ innerCollects innerFlag v.1 w.1 genuine.1

/-- **The two stages** leave the fields genuine if they are recovered. -/
theorem genuine_decodeTwoStage {T : MessageType} {m : T.Values} {bytes : Bytes}
    (recovers : T.fields.Recovers m (reads (ofBytes bytes))) {d : FromProtoVisitor}
    (flag : d.callToDecodeFromWithDirectVisit = false) (v : T.Values) :
    T.fields.Genuine m v (decodeTwoStage uninit T d bytes v) := by
  obtain ⟨collects, sameFlag⟩ := collects_decodeFrom uninit d bytes
  exact Fields.forall_of_eachNested (acceptsGenuine_step uninit) T.fields m _ recovers _ collects
    (sameFlag.trans flag) v v (Fields.Genuine.refl _ _ _)

/-! ## What beginnings of an encoded message recover -/

theorem callToDecodeFromWithDirectVisit_of_history {d : FromProtoVisitor} (history : History d) :
    d.callToDecodeFromWithDirectVisit = false := by
  induction history with
  | init => rfl
  | staged uninit bytes _ ih => exact (collects_decodeFrom uninit _ bytes).2.trans ih
  | direct uninit T bytes v _ _ => rfl

/-- **A proper beginning of a record** is read in one round, if at all. -/
theorem reads_of_cut {bs : Bytes} {id : BitVec 32} {payload : ProtoAny}
    (record : IsRecord bs id payload) {is : InputStream} (hg : is.good) (cut : is.rest <+: bs)
    (proper : is.rest ≠ bs) : reads is = (nextRead is).1.toList := by
  have spoiled : (nextRead is).2.good = false := by
    by_contra good
    rw [Bool.not_eq_false] at good
    obtain ⟨item, t, split, isItem, _⟩ := isItem_of_nextRead hg good
    obtain ⟨missing, rfl⟩ := cut
    -- The item would be read from the record as well.
    have whole : (ofBytes (is.rest ++ missing)).rest = item ++ (t ++ missing) := by
      rw [rest_ofBytes, split, List.append_assoc]
    have asItem := nextRead_of_item isItem rfl whole
    have asRecord := nextRead_append record rfl
      (show (ofBytes (is.rest ++ missing)).rest = _ ++ [] from (List.append_nil _).symm)
    rw [asItem] at asRecord
    have lengths := congrArg (fun next => next.2.pos) asRecord
    simp only [pos_advance, List.length_append, Nat.add_left_cancel_iff] at lengths
    have longer := congrArg List.length split
    rw [List.length_append] at longer
    have none : missing = [] := List.eq_nil_of_length_eq_zero (by omega)
    exact proper (by rw [none, List.append_nil])
  rw [reads_of_good hg, reads_spoiled spoiled, List.append_nil]

end FromProtoVisitor

namespace Fields

/-- What is read for each field of an encoded message. -/
def protoReads : (fs : Fields) → fs.Values → List (BitVec 32 × Read)
  | .nil, _ => []
  | .scalar field t rest, m =>
      (field.fieldIdentifier, .ofPayload (.ofValue t m.1)) :: rest.protoReads m.2
  | .nested field _ fields rest, m =>
      (field.fieldIdentifier, .ofPayload (.string (fields.protoBytes m.1))) :: rest.protoReads m.2

/-- The fields of an encoded message, each with the record that is written for it. -/
theorem atField_protoReads (fs : Fields) (distinct : fs.DistinctIdentifiers) {m : fs.Values}
    {r : BitVec 32 × Read} (sent : r ∈ fs.protoReads m) :
    fs.AtField r.1 (fun t x => r.2 = .ofPayload (.ofValue t x))
      (fun fields x => r.2 = .ofPayload (.string (fields.protoBytes x))) m := by
  have key : ∀ (fs : Fields) (m : fs.Values), r ∈ fs.protoReads m →
      r.1 ∈ fs.keys FieldInfo.fieldIdentifier := by
    intro fs m sent
    induction fs with
    | nil => cases sent
    | scalar field t rest ih =>
        rcases List.mem_cons.mp sent with rfl | later
        · exact List.mem_cons_self
        · exact List.mem_cons_of_mem _ (ih m.2 later)
    | nested field info fields rest _ ih =>
        rcases List.mem_cons.mp sent with rfl | later
        · exact List.mem_cons_self
        · exact List.mem_cons_of_mem _ (ih m.2 later)
  induction fs with
  | nil => trivial
  | scalar field t rest ih =>
      rw [AtField]
      rcases List.mem_cons.mp sent with rfl | later
      · rw [if_pos rfl]
      · have other : field.fieldIdentifier ≠ r.1 := by
          intro same
          apply distinct.1
          rw [same]
          exact key rest m.2 later
        rw [if_neg other]
        exact ih distinct.2 later
  | nested field info fields rest _ ih =>
      rw [AtField]
      rcases List.mem_cons.mp sent with rfl | later
      · rw [if_pos rfl]
      · have other : field.fieldIdentifier ≠ r.1 := by
          intro same
          apply distinct.1
          rw [same]
          exact key rest m.2 later
        rw [if_neg other]
        exact ih distinct.2.2 later

/-- **In front of the last read** of a beginning of an encoded message there are only complete
records of it. -/
theorem mem_protoReads (fs : Fields) (ids : fs.ProtoIdentifiers) :
    ∀ {m : fs.Values}, (fs.protoBytes m).length < 2 ^ 64 → ∀ {is : InputStream}, is.good →
      is.rest <+: fs.protoBytes m → ∀ {before after : List (BitVec 32 × Read)}
        {r : BitVec 32 × Read}, FromProtoVisitor.reads is = before ++ r :: after → after ≠ [] →
        r ∈ fs.protoReads m := by
  -- A record that is written for a field, and the beginning behind it.
  have step : ∀ {bs more : Bytes} {id : BitVec 32} {payload : ProtoAny}
      {sent : List (BitVec 32 × Read)}, IsRecord bs id payload →
      (∀ {is : InputStream}, is.good → is.rest <+: more →
        ∀ {before after : List (BitVec 32 × Read)} {r : BitVec 32 × Read},
          FromProtoVisitor.reads is = before ++ r :: after → after ≠ [] → r ∈ sent) →
      ∀ {is : InputStream}, is.good → is.rest <+: bs ++ more →
        ∀ {before after : List (BitVec 32 × Read)} {r : BitVec 32 × Read},
          FromProtoVisitor.reads is = before ++ r :: after → after ≠ [] →
          r ∈ (id, .ofPayload payload) :: sent := by
    intro bs more id payload sent record ih is hg isPrefix before after r split some
    by_cases whole : bs <+: is.rest
    · obtain ⟨t, rest⟩ := whole
      rw [FromProtoVisitor.reads_append record hg rest.symm] at split
      cases before with
      | nil =>
          obtain ⟨rfl, _⟩ := List.cons_eq_cons.mp split
          exact List.mem_cons_self
      | cons r₀ before =>
          obtain ⟨_, later⟩ := List.cons_eq_cons.mp split
          rw [← rest] at isPrefix
          have behind := (List.prefix_append_right_inj bs).mp isPrefix
          refine List.mem_cons_of_mem _ (ih (good_advance_of hg bs.length) ?_ later some)
          rw [rest_advance_append rest.symm]
          exact behind
    · -- The record is cut, and nothing is read behind it.
      have cut : is.rest <+: bs := by
        rcases List.prefix_or_prefix_of_prefix isPrefix (List.prefix_append bs more) with cut | all
        · exact cut
        · exact absurd all whole
      have one := FromProtoVisitor.reads_of_cut record hg cut fun same =>
        whole (same ▸ List.prefix_refl _)
      rw [one] at split
      have lengths := congrArg List.length split
      have atMost : (FromProtoVisitor.nextRead is).1.toList.length ≤ 1 := by
        cases (FromProtoVisitor.nextRead is).1 <;> simp
      have positive := List.length_pos_of_ne_nil some
      rw [List.length_append, List.length_cons] at lengths
      omega
  induction fs with
  | nil =>
      intro m _ is hg isPrefix before after r split _
      rw [FromProtoVisitor.reads_nil hg (List.prefix_nil.mp isPrefix)] at split
      exact absurd split (by simp)
  | scalar field t rest ih =>
      intro m short
      simp only [protoBytes, List.length_append] at short
      rw [protoBytes, protoReads]
      exact step (isRecord_encode ids.1 t m.1 (by omega)) (ih ids.2 (by omega))
  | nested field info fields rest _ ih =>
      intro m short
      simp only [protoBytes, ToProtoVisitor.encodeString, List.length_append] at short
      rw [protoBytes, protoReads]
      exact step (isRecord_string ids.1 (by omega)) (ih ids.2.2 (by omega))

end Fields

/-- A complete payload is known after it has been read. -/
theorem Known.member_ofPayload (k : Known) {payload : ProtoAny}
    (complete : (Read.ofPayload payload).Complete) :
    (k.store (.ofPayload payload)).member payload.protoType = some payload := by
  cases payload with
  | uint64 v => rfl
  | double v =>
      have word := word_leBytes (w := 64) 8 (by norm_num) v
      simp only [Read.ofPayload, store, leBytes_length, le_refl, if_true, word, member,
        ProtoAny.protoType, Option.map_some]
  | float v =>
      have word := word_leBytes (w := 32) 4 (by norm_num) v
      simp only [Read.ofPayload, store, leBytes_length, le_refl, if_true, word, member,
        ProtoAny.protoType, Option.map_some]
  | string s =>
      have length : s.length = (BitVec.ofNat 64 s.length).toNat := complete
      have written : ∀ b : StringBuffer, (b.write s).written.take s.length = s ∧
          s.length ≤ (b.write s).written.length := by
        intro b
        rw [StringBuffer.write]
        exact ⟨List.take_left, by simp⟩
      simp only [Read.ofPayload, store, member, ProtoAny.protoType, Option.bind_some, ← length]
      rw [if_pos (written _).2, (written _).1]

namespace Fields

/-- The bytes of a message are read as its records. -/
theorem reads_protoBytes (fs : Fields) (ids : fs.ProtoIdentifiers) :
    ∀ {m : fs.Values}, (fs.protoBytes m).length < 2 ^ 64 → ∀ {is : InputStream}, is.good →
      is.rest = fs.protoBytes m → FromProtoVisitor.reads is = fs.protoReads m := by
  induction fs with
  | nil => intro m _ is hg hr; exact FromProtoVisitor.reads_nil hg hr
  | scalar field t rest ih =>
      intro m short is hg hr
      simp only [protoBytes, List.length_append] at short
      rw [protoBytes] at hr
      have record := isRecord_encode ids.1 t m.1 (by omega)
      rw [FromProtoVisitor.reads_append record hg hr,
        ih ids.2 (by omega) (good_advance_of hg _) (rest_advance_append hr), protoReads]
  | nested field info fields rest _ ih =>
      intro m short is hg hr
      simp only [protoBytes, ToProtoVisitor.encodeString, List.length_append] at short
      rw [protoBytes] at hr
      have record := @isRecord_string field.fieldIdentifier ids.1 (fields.protoBytes m.1) (by omega)
      rw [FromProtoVisitor.reads_append record hg hr,
        ih ids.2.2 (by omega) (good_advance_of hg _) (rest_advance_append hr), protoReads]

/-- The records of a message are complete. -/
theorem complete_protoReads (fs : Fields) (ids : fs.ProtoIdentifiers) {m : fs.Values}
    (short : (fs.protoBytes m).length < 2 ^ 64) {r : BitVec 32 × Read}
    (sent : r ∈ fs.protoReads m) : r.2.Complete := by
  have string : ∀ s : Bytes, s.length < 2 ^ 64 → (Read.ofPayload (.string s)).Complete := by
    intro s few
    rw [Read.ofPayload, Read.Complete, BitVec.toNat_ofNat, Nat.mod_eq_of_lt few]
  induction fs with
  | nil => cases sent
  | scalar field t rest ih =>
      simp only [protoBytes, List.length_append] at short
      rcases List.mem_cons.mp sent with rfl | later
      · cases t with
        | bytes | string =>
            simp only [ToProtoVisitor.encode, ToProtoVisitor.encodeString, List.length_append]
              at short
            exact string _ (by omega)
        | _ => trivial
      · exact ih ids.2 (by omega) later
  | nested field info fields rest _ ih =>
      simp only [protoBytes, ToProtoVisitor.encodeString, List.length_append] at short
      rcases List.mem_cons.mp sent with rfl | later
      · exact string _ (by omega)
      · exact ih ids.2.2 (by omega) later

/-- What is asked of a message holds of the nested message in a field. -/
theorem atField_wellFormed (fs : Fields) (id : BitVec 32) (distinct : fs.DistinctIdentifiers)
    (ids : fs.ProtoIdentifiers) {m : fs.Values} (short : (fs.protoBytes m).length < 2 ^ 64) :
    fs.AtField id (fun _ _ => True) (fun fields x => fields.DistinctIdentifiers ∧
      fields.ProtoIdentifiers ∧ (fields.protoBytes x).length < 2 ^ 64) m := by
  induction fs with
  | nil => trivial
  | scalar field t rest ih =>
      simp only [protoBytes, List.length_append] at short
      rw [AtField]
      split
      · trivial
      · exact ih distinct.2 ids.2 (by omega)
  | nested field info fields rest _ ih =>
      simp only [protoBytes, ToProtoVisitor.encodeString, List.length_append] at short
      rw [AtField]
      split
      · exact ⟨distinct.2.1, ids.2.1, by omega⟩
      · exact ih distinct.2.2 ids.2.2 (by omega)

/-- Complete records of a message recover its values. -/
def RecoversSent (fs : Fields) : Prop :=
  fs.DistinctIdentifiers → fs.ProtoIdentifiers → ∀ m : fs.Values,
    (fs.protoBytes m).length < 2 ^ 64 → ∀ rs : List (BitVec 32 × Read),
    (∀ r ∈ rs, r ∈ fs.protoReads m) → fs.Recovers m rs

/-- **Complete records of a message recover its values**, those of nested messages included. -/
theorem recovers_of_sent (fs : Fields) : RecoversSent fs := by
  refine forall_of_eachNested (Q := RecoversSent) (fun fs nested => ?_) fs
  intro distinct ids m short rs sent
  apply recovers_of_atField fs distinct
  intro before r after split
  have sentHere := sent r (by rw [split]; exact List.mem_append_right _ List.mem_cons_self)
  have complete := complete_protoReads fs ids short sentHere
  have both := (atField_and fs m).mp
    ⟨atField_protoReads fs distinct sentHere, atField_wellFormed fs r.1 distinct ids short⟩
  refine nested.atField (fun fields x ih here => ?_) fs m
    (atField_mono (fun t x here => ?_) (fun _ _ here => here) fs m both)
  · obtain ⟨same, distinct', ids', short'⟩ := here
    rw [same] at complete
    refine ⟨fields.protoBytes x, ?_, ?_⟩
    · rw [Known.after_append, same]
      exact (Known.after before).member_ofPayload complete
    · rw [reads_protoBytes fields ids' short' rfl (rest_ofBytes _)]
      exact ih distinct' ids' x short' _ fun _ h => h
  · obtain ⟨same, _⟩ := here
    rw [same] at complete
    refine ⟨.ofValue t x, ?_, ProtoAny.castTo_ofValue t x⟩
    have known := (Known.after before).member_ofPayload complete
    rw [ProtoAny.protoType_ofValue] at known
    rw [Known.after_append, same, known]

end Fields

namespace FromProtoVisitor

/-- **A beginning of an encoded message leaves every field genuine**, whatever target and decoder
held before, if the values of the encoded message are recovered from it: by the records that it
has in full, and by the last one, if that is cut. Conversely, if all targets and decoders get
genuine values, then the values of a message without nested messages are recovered. -/
theorem decode_prefix_genuine {T : MessageType} {m : T.Values} {p : Bytes} :
    (T.fields.Recovers m (reads (ofBytes p)) → ∀ uninit d v, History d →
      T.fields.Genuine m v (decodeDirect uninit T d p v) ∧
        T.fields.Genuine m v (decodeTwoStage uninit T d p v)) ∧
    (T.fields.Flat → T.fields.DistinctIdentifiers → T.fields.ProtoIdentifiers →
      (ToProtoVisitor.encodedData T m).length < 2 ^ 64 →
      p <+: ToProtoVisitor.encodedData T m → (∀ uninit d v, History d →
      T.fields.Genuine m v (decodeDirect uninit T d p v) ∧
        T.fields.Genuine m v (decodeTwoStage uninit T d p v)) →
      T.fields.Recovers m (reads (ofBytes p))) := by
  refine ⟨fun recovers uninit d v history => ⟨genuine_decodeDirect uninit recovers d v,
    genuine_decodeTwoStage uninit recovers (callToDecodeFromWithDirectVisit_of_history history) v⟩,
    fun flat distinct ids short isPrefix genuine => ?_⟩
  rw [ToProtoVisitor.encodedData_eq] at short isPrefix
  apply Fields.recovers_of_atField T.fields distinct
  intro before r after split
  by_cases last : after = []
  · subst last
    -- All decoders give the field the value of the encoded message, so the member is known.
    have values : T.fields.AtField r.1
        (fun t x => ∀ y : (Nat → Byte) × FromProtoVisitor, History y.2 →
          ProtoAny.castTo t ((y.2.directly.storeAll (before ++ [r])).member y.1 t.protoType) =
            some x)
        (fun _ _ => (Nat → Byte) × FromProtoVisitor → True) m := by
      refine Fields.atField_forall (Q := fun _ _ _ => True) T.fields m fun ⟨uninit, d⟩ => ?_
      by_cases history : History d
      · have equal := Fields.Genuine.eq T.fields (genuine uninit d m history).1
        have reached := atField_last uninit before r [] List.not_mem_nil m (d := d.directly) rfl
        rw [decodeDirect_eq_foldl, split] at equal
        rw [equal] at reached
        exact Fields.atField_mono (fun _ _ value _ => value) (fun _ _ _ => trivial) T.fields m
          reached
      · exact Fields.atField_of_forall (fun _ _ h => absurd h history) (fun _ _ => trivial)
          T.fields m
    refine Fields.Flat.atField_mono (fun t x equal => ?_) T.fields flat m values
    cases known : (Known.after (before ++ [r])).member t.protoType with
    | none =>
        obtain ⟨uninit, d₁, d₂, h₁, h₂, differs⟩ :=
          exists_differ t (regular_of_reads split) known
        apply absurd ((equal (uninit, d₁) h₁).trans (equal (uninit, d₂) h₂).symm)
        exact differs
    | some payload =>
        have agrees := Known.agrees_after (before ++ [r]) (Known.agrees_nothing init.directly)
        have same := equal (fun _ => 0, init) .init
        have member := agrees.member (fun _ => 0) known
        refine ⟨payload, known, ?_⟩
        rw [← member]
        exact same
  · have sent := @Fields.mem_protoReads T.fields ids m short (ofBytes p) rfl isPrefix _ _ _ split
      last
    have complete := (complete_of_reads _ le_rfl rfl split).2 last
    refine Fields.Flat.atField_mono (fun t x same => ?_) T.fields flat m
      (Fields.atField_protoReads T.fields distinct sent)
    rw [same] at complete
    refine ⟨.ofValue t x, ?_, ProtoAny.castTo_ofValue t x⟩
    have known := (Known.after before).member_ofPayload complete
    rw [ProtoAny.protoType_ofValue] at known
    rw [Known.after_append, same, known]

theorem decode_prefix_timeStamp :
    TimeStamp.fields.Genuine (TimeStamp.of 1 2) (TimeStamp.of 0 0)
        (decodeDirect (fun _ => 0) TimeStamp init [0x08, 0x02] (TimeStamp.of 0 0)) ∧
      TimeStamp.fields.Genuine (TimeStamp.of 1 2) (TimeStamp.of 0 0)
        (decodeTwoStage (fun _ => 0) TimeStamp init [0x08, 0x02] (TimeStamp.of 0 0)) := by
  have distinct : TimeStamp.fields.DistinctIdentifiers := by
    simp [TimeStamp, Fields.Distinct, Fields.keys, FieldInfo.declared]
  have ids : TimeStamp.fields.ProtoIdentifiers := by
    simp [TimeStamp, Fields.All, FieldInfo.declared]
  have bytes : ToProtoVisitor.encodedData TimeStamp (TimeStamp.of 1 2) =
      [0x08, 0x02, 0x10, 0x04] := by
    rw [ToProtoVisitor.encodedData_eq]
    simp only [TimeStamp, TimeStamp.of, FieldInfo.declared, Fields.protoBytes,
      ToProtoVisitor.encode, ScalarType.protoType]
    rw [toVarInt_of_lt (by decide), toVarInt_of_lt (by decide), toVarInt_of_lt (by decide),
      toVarInt_of_lt (by decide)]
    rfl
  have short : (ToProtoVisitor.encodedData TimeStamp (TimeStamp.of 1 2)).length < 2 ^ 64 := by
    rw [bytes]
    decide
  have record : IsRecord [0x08, 0x02] 1 (.uint64 2) :=
    .varint ⟨⟨.last (by decide), by decide⟩, by decide, by decide⟩ ⟨.last (by decide), by decide⟩
  have one : reads (ofBytes [0x08, 0x02]) = [(1, .varint 2)] := by
    rw [reads_append record rfl rfl, reads_nil rfl rfl]
    rfl
  refine decode_prefix_genuine.1 ?_ (fun _ => 0) init (TimeStamp.of 0 0) .init
  rw [ToProtoVisitor.encodedData_eq] at short
  apply Fields.recovers_of_sent TimeStamp.fields distinct ids _ short _
  intro r here
  rw [one] at here
  obtain rfl := List.mem_singleton.mp here
  exact List.mem_cons_self

/-- **A truncated message fabricates a value**: of a time stamp of one second only the first byte
is there, and the end of the stream makes it -64 seconds, in both ways to decode. -/
theorem decode_prefix_ne :
    ([0x08] <+: ToProtoVisitor.encodedData TimeStamp (TimeStamp.of 1 2) ∧
      [0x08] ≠ ToProtoVisitor.encodedData TimeStamp (TimeStamp.of 1 2)) ∧
    (decodeDirect (fun _ => 0) TimeStamp init [0x08] (TimeStamp.of 0 0) = TimeStamp.of (-64) 0 ∧
      decodeTwoStage (fun _ => 0) TimeStamp init [0x08] (TimeStamp.of 0 0) =
        TimeStamp.of (-64) 0) ∧
    ¬ TimeStamp.fields.Genuine (TimeStamp.of 1 2) (TimeStamp.of 0 0) (TimeStamp.of (-64) 0) := by
  have key : toVarInt (encodeKey 1#32 .varint) = [0x08] := toVarInt_of_lt (by decide)
  have split : ToProtoVisitor.encodedData TimeStamp (TimeStamp.of 1 2) =
      [0x08] ++ (ToProtoVisitor.encode .int32 1#32 ++
        (toVarInt (encodeKey 2#32 .varint) ++ ToProtoVisitor.encode .int32 2#32)) := by
    rw [ToProtoVisitor.encodedData_eq]
    simp only [TimeStamp, TimeStamp.of, FieldInfo.declared, Fields.protoBytes,
      ScalarType.protoType, List.append_nil, List.append_assoc]
    rw [key]
    rfl
  refine ⟨⟨⟨_, split.symm⟩, fun same => ?_⟩, ⟨rfl, rfl⟩, fun genuine => ?_⟩
  · have positive := (isVarInt_toVarInt (encodeKey 2#32 .varint)).length_pos
    have lengths := congrArg List.length (same.trans split)
    simp only [List.length_append, List.length_singleton] at lengths
    omega
  · exact absurd genuine.1 (by decide)

end FromProtoVisitor

end Cluon
