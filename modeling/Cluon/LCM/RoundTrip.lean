import Cluon.LCM.FromLCMVisitor
import Cluon.Message.DataStructures

/-!
# The LCM round trip

Encoder and decoder visit the same fields in the same order. From a buffer that goes on with
the bytes of a message, a visiting decoder reads exactly these bytes and puts the message in
place of whatever was there before (`readValue_encode` for a scalar, `accept_lcmBytes` for
the fields of a message). Hence a decoder that was given the bytes of a message yields it
(`acceptEach_encodedData`), and if the hash in front of them is not zero, it does so again
and again.
-/

set_option autoImplicit false

namespace Cluon

open Library InputStream

namespace FromLCMVisitor

variable (uninit : Nat → Byte)

/-! ## Scalars -/

theorem readByte_cons {is : InputStream} {b : Byte} {t : Bytes} (v : Byte) (hg : is.good)
    (hr : is.rest = [b] ++ t) : readByte v is = (b, is.advance 1) := by
  have read := read_append hg hr
  rw [List.length_singleton] at read
  rw [readByte, read]
  rfl

theorem length_encodeString (s : Bytes) :
    (ToLCMVisitor.encodeString s).length = 4 + (s.length + 1) := by
  simp [ToLCMVisitor.encodeString]

/-- Reading a string. -/
theorem readString_encodeString {s : Bytes} (short : s.length < 2 ^ 31 - 1) {is : InputStream}
    {t : Bytes} (hg : is.good) (hr : is.rest = ToLCMVisitor.encodeString s ++ t) :
    readString uninit is = (s, is.advance (ToLCMVisitor.encodeString s).length) := by
  rw [ToLCMVisitor.encodeString, List.append_assoc, List.append_assoc] at hr
  obtain ⟨moved, length⟩ := readBigEndian_beBytes (w := 32) 4 (by norm_num) _ hg hr
  have fits : (BitVec.ofNat 32 (s.length + 1)).toNat = s.length + 1 := by
    rw [BitVec.toNat_ofNat]
    omega
  have positive : 0 < (BitVec.ofNat 32 (s.length + 1)).toInt := by
    rw [BitVec.toInt_eq_toNat_of_lt (by omega), fits]
    omega
  have content : (is.advance 4).rest = (s ++ [0]) ++ t := by
    rw [rest_advance, hr, List.drop_left' (beBytes_length 4 _), List.append_assoc]
  have read := read_append (good_advance_of hg 4) content
  rw [List.length_append, List.length_singleton] at read
  simp only [readString, moved, length, if_pos positive, fits, read, advance_advance,
    length_encodeString, Prod.mk.injEq, and_true]
  rw [StringBuffer.str_of_le uninit (by simp), Nat.add_sub_cancel]
  exact List.take_left

theorem encode_ne_nil (t : ScalarType) (v : t.Value) : ToLCMVisitor.encode t v ≠ [] := by
  have string (s : Bytes) : ToLCMVisitor.encodeString s ≠ [] := by
    simp [ToLCMVisitor.encodeString]
  have word (n v : Nat) : beBytes (n + 1) v ≠ [] := by
    rw [← List.length_pos_iff, beBytes_length]
    exact Nat.succ_pos n
  cases t with
  | bool | char | int8 | uint8 => exact List.cons_ne_nil _ _
  | bytes | string => exact string v
  | _ => exact word _ _

/-- **A scalar is read back**, whatever the field held before. -/
theorem readValue_encode (t : ScalarType) (v before : t.Value)
    (short : t.ShorterThan (2 ^ 31 - 1) v) {is : InputStream} {rest : Bytes} (hg : is.good)
    (hr : is.rest = ToLCMVisitor.encode t v ++ rest) :
    readValue uninit is t before = (v, is.advance (ToLCMVisitor.encode t v).length) := by
  have word {w : Nat} (n : Nat) (hw : 2 ^ w = 256 ^ n) (v : BitVec w)
      (hr : is.rest = beBytes n v.toNat ++ rest) :
      (BitVec.ofNat w (readBigEndian n is).1, (readBigEndian n is).2) =
        (v, is.advance (beBytes n v.toNat).length) := by
    obtain ⟨moved, value⟩ := readBigEndian_beBytes n hw v hg hr
    rw [moved, value, beBytes_length]
  cases t with
  | bool =>
      rw [readValue, readByte_cons _ hg hr]
      cases v <;> rfl
  | char | int8 | uint8 => exact readByte_cons _ hg hr
  | int16 | uint16 => exact word 2 (by norm_num) v hr
  | int32 | uint32 | float => exact word 4 (by norm_num) v hr
  | int64 | uint64 | double => exact word 8 (by norm_num) v hr
  | bytes | string => exact readString_encodeString uninit short hg hr

/-! ## Messages -/

/-- A decoder has read `n` bytes of its buffer. -/
structure HasRead (d : FromLCMVisitor) (n : Nat) (d' : FromLCMVisitor) : Prop where
  buffer_eq : d'.buffer = d.buffer.advance n
  expectedHash_eq : d'.expectedHash = d.expectedHash

theorem HasRead.trans {d d' d'' : FromLCMVisitor} {m n : Nat} (first : d.HasRead m d')
    (second : d'.HasRead n d'') : d.HasRead (m + n) d'' where
  buffer_eq := by rw [second.buffer_eq, first.buffer_eq, advance_advance]
  expectedHash_eq := second.expectedHash_eq.trans first.expectedHash_eq

theorem visit_encode (field : FieldInfo) (t : ScalarType) (v before : t.Value)
    (short : t.ShorterThan (2 ^ 31 - 1) v) {d : FromLCMVisitor} {rest : Bytes}
    (hg : d.buffer.good) (hr : d.buffer.rest = ToLCMVisitor.encode t v ++ rest) :
    ∃ d', (visitor uninit).visit field t before d = (v, d') ∧
      d.HasRead (ToLCMVisitor.encode t v).length d' := by
  rw [visit_eq, readValue_encode uninit t v before short hg hr]
  exact ⟨_, rfl, rfl, rfl⟩

/-- A decoder that expects no hash is not changed when a message begins or ends. -/
theorem acceptAll_of_expectedHash_eq_zero {α : Type} (info : MessageInfo)
    (visitFields : α → FromLCMVisitor → α × FromLCMVisitor) (v : α) {d : FromLCMVisitor}
    (h : d.expectedHash = 0) (kept : (visitFields v d).2.expectedHash = 0) :
    acceptAll (visitor uninit) info visitFields v d = visitFields v d := by
  have began : d.preVisit = d := if_neg (not_not.mpr h)
  have ended : (visitFields v d).2.postVisit = (visitFields v d).2 :=
    if_neg fun both => both.1 kept
  simp only [acceptAll, visitor, began, ended]

/-- **The fields of a message are read back**, and their bytes are consumed. A message without
scalars reads nothing, so that its buffer may have failed. -/
theorem accept_lcmBytes (fs : Fields) :
    ∀ (m v : fs.Values), fs.AllValues (ScalarType.ShorterThan (2 ^ 31 - 1)) m →
      ∀ {d : FromLCMVisitor} {rest : Bytes}, (fs.lcmBytes m ≠ [] → d.buffer.good) →
        d.buffer.rest = fs.lcmBytes m ++ rest →
        ∃ d', (fs.visitable (visitor uninit)).accept v d = (m, d') ∧
          d.HasRead (fs.lcmBytes m).length d' := by
  induction fs with
  | nil => intro _ _ _ d _ _ _; exact ⟨d, rfl, rfl, rfl⟩
  | scalar field t others ih =>
      intro m v short d rest hg hr
      rw [Fields.lcmBytes] at hg hr ⊢
      rw [List.append_assoc] at hr
      have good := hg (List.append_ne_nil_of_left_ne_nil (encode_ne_nil t m.1) _)
      obtain ⟨d₁, visited, first⟩ := visit_encode uninit field t m.1 v.1 short.1 good hr
      have remaining := rest_advance_append hr
      rw [← first.buffer_eq] at remaining
      have stillGood : d₁.buffer.good := by
        rw [first.buffer_eq]
        exact good
      obtain ⟨d₂, accepted, second⟩ := ih m.2 v.2 short.2 (fun _ => stillGood) remaining
      refine ⟨d₂, ?_, ?_⟩
      · rw [Fields.accept_scalar, visited]
        simp only [accepted]
      · rw [List.length_append]
        exact first.trans second
  | nested field info fields others ihFields ih =>
      intro m v short d rest hg hr
      rw [Fields.lcmBytes] at hg hr ⊢
      rw [List.append_assoc] at hr
      obtain ⟨d₀, inner, innerRead⟩ := ihFields m.1 v.1 short.1 (d := sharing d.buffer)
        (fun some => hg (List.append_ne_nil_of_left_ne_nil some _)) hr
      have unhashed : ((fields.visitable (visitor uninit)).accept v.1
          (sharing d.buffer)).2.expectedHash = 0 := by
        rw [inner]
        exact innerRead.expectedHash_eq
      obtain ⟨d₁, visited, first⟩ : ∃ d₁, (visitor uninit).visitMessage field
          ((MessageType.mk info fields).visitable (visitor uninit)) v.1 d = (m.1, d₁) ∧
          d.HasRead (fields.lcmBytes m.1).length d₁ := by
        rw [visitMessage_eq, MessageType.accept_eq,
          acceptAll_of_expectedHash_eq_zero uninit info _ v.1 rfl unhashed, inner]
        exact ⟨_, rfl, innerRead.buffer_eq, rfl⟩
      have remaining := rest_advance_append hr
      rw [← first.buffer_eq] at remaining
      have stillGood : others.lcmBytes m.2 ≠ [] → d₁.buffer.good := by
        intro some
        rw [first.buffer_eq]
        exact hg (List.append_ne_nil_of_right_ne_nil _ some)
      obtain ⟨d₂, accepted, second⟩ := ih m.2 v.2 short.2 stillGood remaining
      refine ⟨d₂, ?_, ?_⟩
      · rw [Fields.accept_nested, visited]
        simp only [accepted]
      · rw [List.length_append]
        exact first.trans second

/-! ## Accepting a decoder -/

/-- A decoder holds the bytes of the fields of a message behind the given hash. -/
structure Holds (d : FromLCMVisitor) (T : MessageType) (m : T.Values) (hash : BitVec 64) :
    Prop where
  expectedHash_eq : d.expectedHash = hash
  data_eq : d.buffer.data = T.fields.lcmBytes m

theorem holds_postVisit {d : FromLCMVisitor} {T : MessageType} {m : T.Values} {hash : BitVec 64}
    (holds : d.Holds T m hash) : d.postVisit.Holds T m hash := by
  rw [postVisit]
  split
  · exact ⟨holds.expectedHash_eq, holds.data_eq⟩
  · exact holds

/-- A message accepts a decoder that is at the beginning of its buffer once a message begins. -/
theorem accept_of_start {T : MessageType} {m : T.Values} {hash : BitVec 64}
    (short : T.fields.AllValues (ScalarType.ShorterThan (2 ^ 31 - 1)) m) (v : T.Values)
    {d : FromLCMVisitor} (holds : d.preVisit.Holds T m hash) (start : d.preVisit.buffer.pos = 0)
    (good : T.fields.lcmBytes m ≠ [] → d.preVisit.buffer.good) :
    ∃ d', (T.visitable (visitor uninit)).accept v d = (m, d') ∧ d'.Holds T m hash := by
  have whole : d.preVisit.buffer.rest = T.fields.lcmBytes m ++ [] := by
    rw [rest, start, List.drop_zero, holds.data_eq, List.append_nil]
  obtain ⟨d', accepted, read⟩ := accept_lcmBytes uninit T.fields m v short good whole
  refine ⟨d'.postVisit, ?_, holds_postVisit ⟨?_, ?_⟩⟩
  · rw [MessageType.accept_eq, acceptAll]
    simp only [visitor] at accepted ⊢
    rw [accepted]
  · rw [read.expectedHash_eq, holds.expectedHash_eq]
  · rw [read.buffer_eq, data_advance, holds.data_eq]

/-- A decoder that expects no hash is left where it is. -/
theorem accept_of_unhashed {T : MessageType} {m : T.Values}
    (short : T.fields.AllValues (ScalarType.ShorterThan (2 ^ 31 - 1)) m) (v : T.Values)
    {d : FromLCMVisitor} (holds : d.Holds T m 0) (start : d.buffer.pos = 0)
    (good : T.fields.lcmBytes m ≠ [] → d.buffer.good) :
    ∃ d', (T.visitable (visitor uninit)).accept v d = (m, d') ∧ d'.Holds T m 0 := by
  have began : d.preVisit = d := if_neg (not_not.mpr holds.expectedHash_eq)
  refine accept_of_start uninit short v ?_ ?_ ?_
  all_goals rw [began]
  · exact holds
  · exact start
  · exact good

/-- A decoder that expects a hash is put back to the beginning of its buffer. -/
theorem accept_of_holds {T : MessageType} {m : T.Values} {hash : BitVec 64} (some : hash ≠ 0)
    (short : T.fields.AllValues (ScalarType.ShorterThan (2 ^ 31 - 1)) m) (v : T.Values)
    {d : FromLCMVisitor} (holds : d.Holds T m hash) :
    ∃ d', (T.visitable (visitor uninit)).accept v d = (m, d') ∧ d'.Holds T m hash := by
  have began : d.preVisit = { d with
      calculatedHash := LCM.initialHash
      buffer := d.buffer.clear.seekg 0
      hashes := [] } := if_pos (holds.expectedHash_eq ▸ some)
  refine accept_of_start uninit short v ?_ ?_ ?_
  · rw [began]
    exact ⟨holds.expectedHash_eq, holds.data_eq⟩
  · rw [began]
    rfl
  · intro _
    rw [began]
    rfl

/-- **A decoder that expects a hash yields its message again and again.** -/
theorem acceptEach_of_holds {T : MessageType} {m : T.Values} {hash : BitVec 64} (some : hash ≠ 0)
    (short : T.fields.AllValues (ScalarType.ShorterThan (2 ^ 31 - 1)) m) (vs : List T.Values) :
    ∀ {d : FromLCMVisitor}, d.Holds T m hash →
      acceptEach uninit T d vs = List.replicate vs.length m := by
  induction vs with
  | nil => intro _ _; rfl
  | cons v vs ih =>
      intro d holds
      obtain ⟨d', accepted, holds'⟩ := accept_of_holds uninit some short v holds
      rw [acceptEach, accepted, List.length_cons, List.replicate_succ]
      exact congrArg (m :: ·) (ih holds')

/-- What `decodeFrom` takes from the bytes of a message. -/
theorem decodeFrom_encodedData {T : MessageType} (m : T.Values) (d : FromLCMVisitor)
    {is : InputStream} (hg : is.good)
    (hr : is.rest = (ToLCMVisitor.encoded T m).encodedData true) :
    (d.decodeFrom is).1 = { d with
      expectedHash := ToLCMVisitor.transmittedHash T m
      buffer := ⟨T.fields.lcmBytes m, 0, false, (T.fields.lcmBytes m).isEmpty⟩ } := by
  rw [ToLCMVisitor.encodedData_encoded] at hr
  have read := read_append hg hr
  have content := rest_advance_append hr
  rw [beBytes_length] at read content
  simp only [decodeFrom, read, content, beBytes_length]
  rw [List.drop_of_length_le (leBytes_length 8 _).le, List.append_nil,
    word_beBytes (w := 64) 8 (by norm_num)]

/-- **LCM round trip.** A decoder, whatever it was used for before, that is given the bytes an
encoder wrote for a message, puts it in place of any message that accepts the decoder; and so
it does with every further one, unless the hash in front of the bytes is zero. -/
theorem acceptEach_encodedData {T : MessageType} {m : T.Values}
    (short : T.fields.AllValues (ScalarType.ShorterThan (2 ^ 31 - 1)) m) (d : FromLCMVisitor)
    {is : InputStream} (hg : is.good)
    (hr : is.rest = (ToLCMVisitor.encoded T m).encodedData true) :
    (∀ v, acceptEach uninit T (d.decodeFrom is).1 [v] = [m]) ∧
    (ToLCMVisitor.transmittedHash T m ≠ 0 →
      ∀ vs, acceptEach uninit T (d.decodeFrom is).1 vs = List.replicate vs.length m) := by
  rw [decodeFrom_encodedData m d hg hr]
  constructor
  · intro v
    by_cases unhashed : ToLCMVisitor.transmittedHash T m = 0
    · -- Nothing is put back, but the buffer is new and at its beginning.
      rw [unhashed]
      obtain ⟨d', accepted, _⟩ := accept_of_unhashed uninit short v (d := { d with
          expectedHash := 0
          buffer := ⟨T.fields.lcmBytes m, 0, false, (T.fields.lcmBytes m).isEmpty⟩ })
        ⟨rfl, rfl⟩ rfl (by intro some; simp [good, some])
      rw [acceptEach, accepted]
      rfl
    · exact acceptEach_of_holds uninit unhashed short [v] ⟨rfl, rfl⟩
  · intro some vs
    exact acceptEach_of_holds uninit some short vs ⟨rfl, rfl⟩

theorem acceptEach_encodedData_timeStamp :
    let m := TimeStamp.of 1 2
    let is := ofBytes ((ToLCMVisitor.encoded TimeStamp m).encodedData true)
    let d : FromLCMVisitor := ⟨7, 9, ofBytes [0, 1], [3], 0⟩
    (∀ v, acceptEach (fun _ => 0) TimeStamp (d.decodeFrom is).1 [v] = [m]) ∧
    (ToLCMVisitor.transmittedHash TimeStamp m ≠ 0 →
      ∀ vs, acceptEach (fun _ => 0) TimeStamp (d.decodeFrom is).1 vs =
        List.replicate vs.length m) :=
  acceptEach_encodedData (fun _ => 0)
    (by simp [TimeStamp, Fields.AllValues, ScalarType.ShorterThan]) _ rfl rfl

end FromLCMVisitor

end Cluon
