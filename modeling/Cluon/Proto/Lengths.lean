import Cluon.Proto.Truncated
import Cluon.Proto.WireTypes

/-!
# The lengths that strings declare

A record of a string declares how many bytes follow. The decoder reserves that much memory
before it reads them, and builds a string of that many bytes afterwards, whether or not the
stream has them. What a round asks for (`requests`) is bounded by what remains in the stream,
in all rounds of both decoding loops, if and only if the stream does not end with a record that
declares more bytes than follow (`requests_bounded_iff`).
-/

set_option autoImplicit false

namespace Cluon

open Library InputStream

/-! ## Complete records in front -/

/-- Some bytes are complete records, and keys of wire types without a case. -/
inductive Items : List (BitVec 32 × Read) → Bytes → Prop where
  | nil : Items [] []
  | cons {r : Option (BitVec 32 × Read)} {rs : List (BitVec 32 × Read)} {bs more : Bytes} :
      FromProtoVisitor.IsItem bs r → Items rs more → Items (r.toList ++ rs) (bs ++ more)

/-- The bytes of a string that declares more bytes than there are: some of the bytes behind the
length are missing, or the length itself is cut. -/
inductive IsOverlong : Bytes → BitVec 32 → BitVec 64 → Prop where
  | bytes {key n s : Bytes} :
      IsVarInt key →
        ProtoConstants.ofCode (keyProtoType (varIntValue key)) = some .lengthDelimited →
        IsVarInt n → s.length < (varIntValue n).toNat →
        IsOverlong (key ++ (n ++ s)) (keyFieldId (varIntValue key)) (varIntValue n)
  | length {key n : Bytes} :
      IsVarInt key →
        ProtoConstants.ofCode (keyProtoType (varIntValue key)) = some .lengthDelimited →
        IsCut n → cutVarInt n ≠ 0 →
        IsOverlong (key ++ n) (keyFieldId (varIntValue key)) (cutVarInt n)

namespace FromProtoVisitor

/-- A varint that leaves the stream good is complete. -/
theorem isVarInt_of_fromVarInt {is : InputStream} (hg : is.good)
    (h : (fromVarInt is).2.2.good) : ∃ bs t, is.rest = bs ++ t ∧ IsVarInt bs := by
  rcases isVarInt_or_isCut is.rest with ⟨bs, t, split, complete⟩ | cut
  · exact ⟨bs, t, split, complete⟩
  · rw [fromVarInt_cut hg cut] at h
    exact absurd h Bool.false_ne_true

/-- A read of bytes that leaves the stream good has got all of them. -/
theorem split_of_readBytesFromStream {is : InputStream} {n : Nat} (hg : is.good)
    (h : (readBytesFromStream is n).2.good) : ∃ bs t, is.rest = bs ++ t ∧ bs.length = n := by
  by_cases enough : n ≤ is.rest.length
  · exact ⟨is.rest.take n, is.rest.drop n, (List.take_append_drop n is.rest).symm,
      (List.length_take ..).trans (min_eq_left enough)⟩
  · rw [readBytesFromStream_short hg (Nat.not_le.mp enough)] at h
    exact absurd h Bool.false_ne_true

/-- **A round that leaves the stream good** has read an item. -/
theorem isItem_of_nextRead {is : InputStream} (hg : is.good) (h : (nextRead is).2.good) :
    ∃ bs t, is.rest = bs ++ t ∧ IsItem bs (nextRead is).1 ∧
      (nextRead is).2 = is.advance bs.length := by
  rcases isVarInt_or_isCut is.rest with ⟨key, t, split, hk⟩ | cut
  · have readKey := fromVarInt_append hk hg split
    have rest₁ := rest_advance_append split
    have good₁ := good_advance_of hg key.length
    have item : ∀ {bs : Bytes} {r : Option (BitVec 32 × Read)} (more : Bytes), IsItem bs r →
        is.rest = bs ++ more → ∃ bs t, is.rest = bs ++ t ∧ IsItem bs (nextRead is).1 ∧
          (nextRead is).2 = is.advance bs.length := by
      intro bs r more found split'
      have next := nextRead_of_item found hg split'
      exact ⟨bs, more, split', by rw [next]; exact found, by rw [next]⟩
    cases type : ProtoConstants.ofCode (keyProtoType (varIntValue key)) with
    | none => exact item t (.unknown hk type) split
    | some protoType =>
        simp only [nextRead, readKey, if_pos hk.length_pos, type] at h
        cases protoType with
        | varint =>
            obtain ⟨v, more, behind, hv⟩ := isVarInt_of_fromVarInt good₁ h
            rw [rest₁] at behind
            exact item more (.varint hk type hv) (by rw [split, behind, List.append_assoc])
        | eightBytes =>
            rw [readPayload] at h
            obtain ⟨bytes, more, behind, length⟩ := split_of_readBytesFromStream good₁ h
            rw [rest₁] at behind
            exact item more (.eightBytes hk type length)
              (by rw [split, behind, List.append_assoc])
        | fourBytes =>
            rw [readPayload] at h
            obtain ⟨bytes, more, behind, length⟩ := split_of_readBytesFromStream good₁ h
            rw [rest₁] at behind
            exact item more (.fourBytes hk type length)
              (by rw [split, behind, List.append_assoc])
        | lengthDelimited =>
            have readLength := (notLonger_readBytesFromStream _ _ h).1
            obtain ⟨n, more, behind, hn⟩ := isVarInt_of_fromVarInt good₁ readLength
            have good₂ := good_advance_of good₁ n.length
            simp only [readPayload, fromVarInt_append hn good₁ behind] at h
            obtain ⟨bytes, more', behind', length⟩ := split_of_readBytesFromStream good₂ h
            rw [rest_advance_append behind] at behind'
            rw [rest₁] at behind
            refine item more' (.lengthDelimited hk type hn length) ?_
            rw [split, behind, behind', List.append_assoc, List.append_assoc]
  · have spoiled : is.exhausted.good = true → False := fun good => Bool.false_ne_true good
    simp only [nextRead, fromVarInt_cut hg cut] at h
    split at h
    · split at h
      · rw [readPayload_spoiled _ (good_exhausted _)] at h
        exact (spoiled h).elim
      · exact (spoiled h).elim
    · exact (spoiled h).elim

/-! ## What a round asks for -/

/-- The field identifier and the length that a round reads for a string, and the stream behind
the length. -/
def declaredLength (is : InputStream) : Option (BitVec 32 × BitVec 64 × InputStream) :=
  let (key, size, is₁) := fromVarInt is
  if 0 < size ∧ ProtoConstants.ofCode (keyProtoType key) = some .lengthDelimited then
    let (n, _, is₂) := fromVarInt is₁
    some (keyFieldId key, n, is₂)
  else none

/-- The numbers of bytes that a string of a declared length takes: a reservation if the memory is
too small for it, and the string, if one is built. -/
def requests (d : FromProtoVisitor) (builds : Bool) (n : BitVec 64) : List Nat :=
  (if d.stringValue.capacity < n.toNat then [n.toNat] else []) ++
    (if builds then [n.toNat] else [])

/-- A round asks for no more bytes than remain in the stream. A string is built for the given
identifiers. -/
def FitsStream (builds : BitVec 32 → Bool) (d : FromProtoVisitor) (is : InputStream) : Prop :=
  ∀ id n is', declaredLength is = some (id, n, is') →
    ∀ m ∈ d.requests (builds id) n, m ≤ is'.rest.length

/-- Which requests are made. -/
theorem forall_requests_le (d : FromProtoVisitor) (builds : Bool) (n : BitVec 64) (k : Nat) :
    (∀ m ∈ d.requests builds n, m ≤ k) ↔
      (k < n.toNat → n.toNat ≤ d.stringValue.capacity ∧ builds = false) := by
  have every : (∀ m ∈ d.requests builds n, m ≤ k) ↔
      (d.stringValue.capacity < n.toNat ∨ builds = true → n.toNat ≤ k) := by
    rw [requests]
    constructor
    · rintro each (small | some)
      · apply each
        rw [if_pos small]
        exact List.mem_append_left _ (List.mem_singleton_self _)
      · apply each
        rw [if_pos some]
        exact List.mem_append_right _ (List.mem_singleton_self _)
    · intro bounded m asked
      rcases List.mem_append.mp asked with reserved | built
      · split at reserved
        · rename_i small
          rw [List.mem_singleton.mp reserved]
          exact bounded (.inl small)
        · cases reserved
      · split at built
        · rename_i some
          rw [List.mem_singleton.mp built]
          exact bounded (.inr some)
        · cases built
  rw [every]
  constructor
  · intro bounded short
    have none : ¬ (d.stringValue.capacity < n.toNat ∨ builds = true) :=
      fun some => absurd short (Nat.not_lt.mpr (bounded some))
    exact ⟨Nat.not_lt.mp fun small => none (.inl small),
      Bool.eq_false_iff.mpr fun some => none (.inr some)⟩
  · intro condition some
    by_contra short
    obtain ⟨large, nothing⟩ := condition (Nat.not_le.mp short)
    rcases some with small | built
    · exact absurd small (Nat.not_lt.mpr large)
    · rw [nothing] at built
      cases built

/-- Nothing remains of an exhausted stream. -/
theorem rest_exhausted (is : InputStream) : is.exhausted.rest = [] := by
  rw [exhausted, InputStream.rest, List.drop_eq_nil_iff, InputStream.rest, List.length_drop]
  simp only
  omega

/-- **An overlong string** declares more bytes than remain. -/
theorem declaredLength_of_isOverlong {is : InputStream} {id : BitVec 32} {n : BitVec 64}
    (hg : is.good) (overlong : IsOverlong is.rest id n) :
    ∃ is', declaredLength is = some (id, n, is') ∧ is'.rest.length < n.toNat := by
  generalize rest : is.rest = tail at overlong
  cases overlong with
  | @bytes key n s hk type hn short =>
      have readKey := fromVarInt_append hk hg rest
      have rest₁ := rest_advance_append rest
      have readLength := fromVarInt_append hn (good_advance_of hg _) rest₁
      refine ⟨(is.advance key.length).advance n.length, ?_, ?_⟩
      · simp only [declaredLength, readKey, readLength, if_pos (And.intro hk.length_pos type)]
      · rw [rest_advance_append rest₁]
        exact short
  | @length key n hk type cut some =>
      have readKey := fromVarInt_append hk hg rest
      have rest₁ := rest_advance_append rest
      have readLength := fromVarInt_cut (good_advance_of hg key.length) (rest₁ ▸ cut)
      rw [rest₁] at readLength
      refine ⟨(is.advance key.length).exhausted, ?_, ?_⟩
      · simp only [declaredLength, readKey, readLength, if_pos (And.intro hk.length_pos type)]
      · rw [rest_exhausted]
        exact Nat.pos_of_ne_zero fun zero => some (BitVec.eq_of_toNat_eq zero)

theorem isOverlong_of_declaredLength {is is' : InputStream} {id : BitVec 32} {n : BitVec 64}
    (hg : is.good) (found : declaredLength is = some (id, n, is'))
    (short : is'.rest.length < n.toNat) : IsOverlong is.rest id n := by
  rcases isVarInt_or_isCut is.rest with ⟨key, t, split, hk⟩ | cut
  · have readKey := fromVarInt_append hk hg split
    have rest₁ := rest_advance_append split
    simp only [declaredLength, readKey, Option.ite_none_right_eq_some, Option.some.injEq,
      Prod.mk.injEq] at found
    obtain ⟨⟨_, type⟩, rfl, rfl, rfl⟩ := found
    rw [split]
    rcases isVarInt_or_isCut t with ⟨m, more, rfl, hm⟩ | cut
    · rw [fromVarInt_append hm (good_advance_of hg _) rest₁] at short ⊢
      rw [rest_advance_append rest₁] at short
      exact .bytes hk type hm short
    · rw [fromVarInt_cut (good_advance_of hg _) (rest₁ ▸ cut), rest₁] at short ⊢
      refine .length hk type cut fun zero => ?_
      rw [zero] at short
      exact absurd short (Nat.not_lt_zero _)
  · -- Behind a key that is cut the length is zero.
    simp only [declaredLength, fromVarInt_cut hg cut, fromVarInt_spoiled (good_exhausted is),
      Option.ite_none_right_eq_some, Option.some.injEq, Prod.mk.injEq] at found
    obtain ⟨_, _, rfl, _⟩ := found
    exact absurd short (Nat.not_lt_zero _)

/-! ## All rounds -/

/-- A loop body reads a record in every round, into the memory of a decoder. -/
structure ReadsRecords {σ : Type} (body : Body σ) (decoder : σ → FromProtoVisitor) : Prop where
  again : ∀ s is, (body s is).1 = true
  stream : ∀ s is, (body s is).2.2 = (nextRead is).2
  capacity : ∀ s is, (decoder (body s is).2.1).stringValue.capacity =
    ((nextRead is).1.toList.map fun r => r.2.declared).foldl max
      (decoder s).stringValue.capacity

/-- A read of a string makes the memory as large as it declares. -/
theorem capacity_store (d : FromProtoVisitor) (r : Read) :
    (d.store r).stringValue.capacity = max d.stringValue.capacity r.declared := by
  cases r with
  | varint | eightBytes | fourBytes => exact (max_eq_left (Nat.zero_le _)).symm
  | lengthDelimited n bytes =>
      simp only [store, StringBuffer.write, StringBuffer.reserve, Read.declared]
      split
      · rename_i small
        exact (max_eq_right small.le).symm
      · rename_i enough
        exact (max_eq_left (Nat.not_lt.mp enough)).symm

section Rounds

variable {σ : Type} {body : Body σ} {decoder : σ → FromProtoVisitor}

/-- The capacity after some reads. -/
def capacityAfter (capacity : Nat) (rs : List (BitVec 32 × Read)) : Nat :=
  (rs.map fun r => r.2.declared).foldl max capacity

theorem capacityAfter_append (capacity : Nat) (rs rs' : List (BitVec 32 × Read)) :
    capacityAfter capacity (rs ++ rs') = capacityAfter (capacityAfter capacity rs) rs' := by
  rw [capacityAfter, List.map_append, List.foldl_append]
  rfl

/-- A loop reaches the round behind some items. -/
theorem ReadsRecords.reaches (reads : ReadsRecords body decoder)
    {rs : List (BitVec 32 × Read)} {bytes : Bytes} (items : Items rs bytes) :
    ∀ {s : σ} {is : InputStream} {tail : Bytes}, is.good → is.rest = bytes ++ tail →
      ∃ s', Reaches body s is s' (is.advance bytes.length) ∧
        (decoder s').stringValue.capacity =
          capacityAfter (decoder s).stringValue.capacity rs := by
  induction items with
  | nil => intro s is _ _ _; exact ⟨s, .start, rfl⟩
  | @cons r rs bs more item _ ih =>
      intro s is tail hg hr
      rw [List.append_assoc] at hr
      have next := nextRead_of_item item hg hr
      have stream := reads.stream s is
      rw [next] at stream
      obtain ⟨s', later, capacity⟩ := @ih (body s is).2.1 (is.advance bs.length) tail
        (good_advance_of hg _) (rest_advance_append hr)
      refine ⟨s', ?_, ?_⟩
      · rw [List.length_append, ← advance_advance]
        apply Reaches.head hg (reads.again s is)
        rw [stream]
        exact later
      · rw [capacity, reads.capacity s is, next, capacityAfter_append]
        rfl

/-- What a round that is reached has behind it are items. -/
theorem ReadsRecords.items (reads : ReadsRecords body decoder) {s s' : σ}
    {is is' : InputStream} (reaches : Reaches body s is s' is') : is'.good →
      ∃ rs bytes, Items rs bytes ∧ is.rest = bytes ++ is'.rest ∧
        (decoder s').stringValue.capacity =
          capacityAfter (decoder s).stringValue.capacity rs := by
  induction reaches with
  | start => intro _; exact ⟨[], [], .nil, rfl, rfl⟩
  | @round s' is' _ good _ ih =>
      intro good'
      obtain ⟨rs, bytes, items, split, capacity⟩ := ih good
      rw [reads.stream] at good' ⊢
      obtain ⟨bs, t, rest, item, next⟩ := isItem_of_nextRead good good'
      refine ⟨rs ++ (nextRead is').1.toList, bytes ++ bs, ?_, ?_, ?_⟩
      · clear split capacity
        induction items with
        | nil => simpa using Items.cons item .nil
        | cons first _ ih => rw [List.append_assoc, List.append_assoc]; exact .cons first ih
      · rw [next, rest_advance_append rest, split, rest, List.append_assoc]
      · rw [reads.capacity s' is', capacityAfter_append, ← capacity]
        rfl

/-- **The requests of all rounds** of a loop are bounded if and only if the stream does not end
with an overlong string that asks for something. -/
theorem ReadsRecords.fitsStream_iff (reads : ReadsRecords body decoder)
    (builds : BitVec 32 → Bool) (s : σ) {is : InputStream} (hg : is.good) :
    (∀ s' is', Reaches body s is s' is' → is'.good → FitsStream builds (decoder s') is') ↔
      ∀ rs bytes tail id n, is.rest = bytes ++ tail → Items rs bytes → IsOverlong tail id n →
        n.toNat ≤ capacityAfter (decoder s).stringValue.capacity rs ∧ builds id = false := by
  constructor
  · intro every rs bytes tail id n split items overlong
    obtain ⟨s', reaches, capacity⟩ := reads.reaches items hg split
    have rest : (is.advance bytes.length).rest = tail := rest_advance_append split
    have good := good_advance_of hg bytes.length
    obtain ⟨is', found, short⟩ := declaredLength_of_isOverlong good (rest.symm ▸ overlong)
    have bounded := (forall_requests_le _ _ n _).mp (every s' _ reaches good id n is' found) short
    rw [capacity] at bounded
    exact bounded
  · intro condition s' is' reaches good id n js found
    obtain ⟨rs, bytes, items, split, capacity⟩ := reads.items reaches good
    apply (forall_requests_le _ _ n _).mpr
    intro short
    have overlong := isOverlong_of_declaredLength good found short
    rw [capacity]
    exact condition rs bytes _ id n split items overlong

end Rounds

section Decode

variable (uninit : Nat → Byte)

theorem readsRecords_decodeFromBody :
    ReadsRecords (decodeFromBody uninit) id where
  again d is := by
    rw [decodeFromBody, readRecord_eq]
    rcases nextRead is with ⟨_ | _, _⟩ <;> rfl
  stream d is := by
    rw [decodeFromBody, readRecord_eq]
    rcases nextRead is with ⟨_ | _, _⟩ <;> rfl
  capacity d is := by
    rw [decodeFromBody, readRecord_eq]
    rcases nextRead is with ⟨_ | r, _⟩
    · rfl
    · exact capacity_store d r.2

theorem readsRecords_decodeFromIntoBody (T : MessageType) :
    ReadsRecords (decodeFromIntoBody (T.visitable (visitor uninit))) Prod.snd where
  again s is := by
    rw [decodeFromIntoBody, readRecord_eq]
    rcases nextRead is with ⟨_ | _, _⟩ <;> rfl
  stream s is := by
    rw [decodeFromIntoBody, readRecord_eq]
    rcases nextRead is with ⟨_ | _, _⟩ <;> rfl
  capacity s is := by
    rw [decodeFromIntoBody, readRecord_eq]
    rcases nextRead is with ⟨_ | r, _⟩
    · rfl
    · have kept := acceptField_snd uninit T.fields r.1 s.1 (s.2.store r.2)
      exact (congrArg (·.stringValue.capacity) kept).trans (capacity_store s.2 r.2)

/-- **What strings ask for is bounded by what remains in the stream**, in all rounds of
`decodeFrom(in)` if and only if no string of the stream is overlong, and in all rounds of
`decodeFrom(in, v)` if and only if an overlong string finds the memory large enough from earlier
and does not belong to a string or to a nested message. -/
theorem requests_bounded_iff (T : MessageType) (bytes : Bytes) (v : T.Values)
    (d : FromProtoVisitor) :
    ((∀ d' is, Reaches (decodeFromBody uninit) { d with mapOfKeyValues := [] } (ofBytes bytes)
        d' is → is.good → FitsStream (fun _ => true) d' is) ↔
      ∀ rs items tail id n, bytes = items ++ tail → Items rs items → ¬ IsOverlong tail id n) ∧
    ((∀ s is, Reaches (decodeFromIntoBody (T.visitable (visitor uninit))) (v, d.directly)
        (ofBytes bytes) s is → is.good →
        FitsStream (fun id => T.fields.declaredType id == some .lengthDelimited) s.2 is) ↔
      ∀ rs items tail id n, bytes = items ++ tail → Items rs items → IsOverlong tail id n →
        n.toNat ≤ capacityAfter d.stringValue.capacity rs ∧
          T.fields.declaredType id ≠ some .lengthDelimited) := by
  constructor
  · refine ((readsRecords_decodeFromBody uninit).fitsStream_iff (fun _ => true) _ rfl).trans ?_
    constructor
    · intro condition rs items tail id n split complete overlong
      have bounded := condition rs items tail id n split complete overlong
      exact absurd bounded.2 Bool.true_eq_false_eq_False
    · intro condition rs items tail id n split complete overlong
      exact absurd overlong (condition rs items tail id n split complete)
  · refine ((readsRecords_decodeFromIntoBody uninit T).fitsStream_iff
      (fun id => T.fields.declaredType id == some .lengthDelimited) (v, d.directly) rfl).trans ?_
    simp only [beq_eq_false_iff_ne]
    exact Iff.rfl

/-- **Eleven bytes ask for all memory**: a string whose length is a varint of ten bytes makes both
loops ask for 2⁶⁴ - 1 bytes where none remain, for the reservation and for the string. -/
theorem requests_bounded_ne :
    let bytes : Bytes :=
      [0x12, 0xFF, 0xFF, 0xFF, 0xFF, 0xFF, 0xFF, 0xFF, 0xFF, 0xFF, 0x01]
    (∃ d is id n is', Reaches (decodeFromBody fun _ => 0) { init with mapOfKeyValues := [] }
        (ofBytes bytes) d is ∧ declaredLength is = some (id, n, is') ∧ is'.rest = [] ∧
        d.requests true n = [2 ^ 64 - 1, 2 ^ 64 - 1]) ∧
      ∃ s is id n is', Reaches (decodeFromIntoBody (Envelope.visitable (visitor fun _ => 0)))
        (Envelope.initial, init.directly) (ofBytes bytes) s is ∧
        declaredLength is = some (id, n, is') ∧ is'.rest = [] ∧
        s.2.requests (Envelope.fields.declaredType id == some .lengthDelimited) n =
          [2 ^ 64 - 1, 2 ^ 64 - 1] :=
  ⟨⟨_, _, _, _, _, .start, rfl, rfl, rfl⟩, _, _, _, _, _, .start, rfl, rfl, rfl⟩

end Decode

end FromProtoVisitor

end Cluon
