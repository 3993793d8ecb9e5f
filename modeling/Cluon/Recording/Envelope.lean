import Cluon.Proto.RoundTrip

/-!
# Envelopes in a stream

`serializeEnvelope` puts the bytes of an envelope behind a header of five bytes: two magic
bytes, and the length in three bytes, lowest first. `extractEnvelope` reads one such frame
from a stream. It consumes exactly the frame (`extractEnvelope_frame`), and fails on an
incomplete one (`extractEnvelope_incomplete`). Hence calling it again and again on a
sequence of frames with an incomplete tail extracts the envelopes in order and then fails
(`extractEnvelope_frames`). The header has room for lengths below 2^24 only
(`framesExactly_iff`).
-/

set_option autoImplicit false

namespace Cluon

open Library InputStream

/-! ## Frames -/

/-- `serializeEnvelope(envelope)`. -/
def serializeEnvelope (e : Envelope.Values) : Bytes :=
  let tmp := ToProtoVisitor.encodedData Envelope e
  let length : BitVec 32 := BitVec.ofNat 32 tmp.length <<< 8
  -- The four bytes of the length follow the first magic byte; the second one then overwrites
  -- the lowest of them, which is zero.
  let header := 0x0D#8 :: (leBytes 4 length.toNat).set 0 0xA4#8
  header ++ tmp

/-- `extractEnvelope(in)`. -/
def extractEnvelope (uninit : Nat → Byte) (is : InputStream) :
    (Bool × Envelope.Values) × InputStream :=
  if is.good then
    let (header, is₁) := is.read 5
    if header.length = 5 then
      if header[0]? = some 0x0D#8 ∧ header[1]? = some 0xA4#8 then
        let length : BitVec 32 := BitVec.ofNat 32 (ofLeBytes (header.drop 1)) >>> 8
        let (payload, is₂) := is₁.read length.toNat
        if payload.length = length.toNat then
          ((true, FromProtoVisitor.decodeDirect uninit Envelope FromProtoVisitor.init payload
            Envelope.initial), is₂)
        else ((false, Envelope.initial), is₂)
      else ((false, Envelope.initial), is₁)
    else ((false, Envelope.initial), is₁)
  else ((false, Envelope.initial), is)

/-- The length of an envelope fits into the header of a frame. -/
def FitsFrame (e : Envelope.Values) : Prop :=
  (ToProtoVisitor.encodedData Envelope e).length < 2 ^ 24

/-- The header of a frame with a payload of the given length. -/
def frameHeader (length : Nat) : Bytes := 0x0D#8 :: 0xA4#8 :: leBytes 3 length

@[simp] theorem length_frameHeader (length : Nat) : (frameHeader length).length = 5 := rfl

/-- A shift by eight bits moves the bytes of a number by one. -/
theorem leBytes_shifted (n v : Nat) : leBytes (n + 1) (256 * v) = 0 :: leBytes n v := by
  rw [leBytes, Nat.mul_div_cancel_left v (by omega)]
  congr 1
  apply BitVec.eq_of_toNat_eq
  simp

/-- The header has room for the length modulo 2^24. -/
theorem serializeEnvelope_eq_mod (e : Envelope.Values) :
    serializeEnvelope e =
      frameHeader ((ToProtoVisitor.encodedData Envelope e).length % 2 ^ 24) ++
        ToProtoVisitor.encodedData Envelope e := by
  have shifted : (BitVec.ofNat 32 (ToProtoVisitor.encodedData Envelope e).length <<< 8).toNat =
      256 * ((ToProtoVisitor.encodedData Envelope e).length % 2 ^ 24) := by
    rw [BitVec.toNat_shiftLeft, BitVec.toNat_ofNat, Nat.shiftLeft_eq]
    omega
  simp only [serializeEnvelope, shifted, leBytes_shifted 3, List.set_cons_zero]
  rfl

/-- **A frame is its header and the bytes of the envelope.** -/
theorem serializeEnvelope_eq {e : Envelope.Values} (fits : FitsFrame e) :
    serializeEnvelope e =
      frameHeader (ToProtoVisitor.encodedData Envelope e).length ++
        ToProtoVisitor.encodedData Envelope e := by
  rw [serializeEnvelope_eq_mod, Nat.mod_eq_of_lt fits]

theorem length_serializeEnvelope {e : Envelope.Values} (fits : FitsFrame e) :
    (serializeEnvelope e).length = 5 + (ToProtoVisitor.encodedData Envelope e).length := by
  rw [serializeEnvelope_eq fits, List.length_append, length_frameHeader]

/-- The length read back from a header. -/
theorem length_of_frameHeader {n : Nat} (h : n < 2 ^ 24) :
    (BitVec.ofNat 32 (ofLeBytes ((frameHeader n).drop 1)) >>> 8).toNat = n := by
  have bytes : ofLeBytes ((frameHeader n).drop 1) = 0xA4 + 256 * n := by
    rw [frameHeader, List.drop_succ_cons, List.drop_zero, ofLeBytes, ofLeBytes_leBytes,
      Nat.mod_eq_of_lt (by norm_num; omega)]
    rfl
  rw [bytes, BitVec.toNat_ushiftRight, BitVec.toNat_ofNat, Nat.shiftRight_eq_div_pow]
  omega

/-! ## Extraction -/

theorem distinctIdentifiers_envelope : Envelope.fields.DistinctIdentifiers := by
  simp [Envelope, TimeStamp, Fields.Distinct, Fields.keys, FieldInfo.declared]

theorem protoIdentifiers_envelope : Envelope.fields.ProtoIdentifiers := by
  simp [Envelope, TimeStamp, Fields.All, FieldInfo.declared]

variable (uninit : Nat → Byte)

/-- The payload of a frame decodes to the envelope. -/
theorem decode_payload {e : Envelope.Values} (fits : FitsFrame e) :
    FromProtoVisitor.decodeDirect uninit Envelope FromProtoVisitor.init
      (ToProtoVisitor.encodedData Envelope e) Envelope.initial = e :=
  FromProtoVisitor.decodeDirect_encodedData uninit distinctIdentifiers_envelope
    protoIdentifiers_envelope e (fits.trans (by norm_num)) _ _

/-- What remains to be done once the header of a frame has been read. -/
theorem extractEnvelope_header {n : Nat} (h : n < 2 ^ 24) {is : InputStream} {t : Bytes}
    (hg : is.good) (hr : is.rest = frameHeader n ++ t) :
    extractEnvelope uninit is =
      let (payload, is') := (is.advance 5).read n
      if payload.length = n then
        ((true, FromProtoVisitor.decodeDirect uninit Envelope FromProtoVisitor.init payload
          Envelope.initial), is')
      else ((false, Envelope.initial), is') := by
  have header := read_append hg hr
  rw [length_frameHeader] at header
  simp only [extractEnvelope, if_pos hg, header, length_frameHeader, if_true,
    length_of_frameHeader h]
  rw [if_pos ⟨rfl, rfl⟩]

/-- **A frame is extracted and consumed.** -/
theorem extractEnvelope_frame {e : Envelope.Values} (fits : FitsFrame e) {is : InputStream}
    {t : Bytes} (hg : is.good) (hr : is.rest = serializeEnvelope e ++ t) :
    extractEnvelope uninit is = ((true, e), is.advance (serializeEnvelope e).length) := by
  rw [length_serializeEnvelope fits]
  rw [serializeEnvelope_eq fits, List.append_assoc] at hr
  have payload := read_append (good_advance_of hg 5) (rest_advance_append hr)
  rw [extractEnvelope_header uninit fits hg hr]
  simp only [payload, if_true, decode_payload uninit fits, advance_advance]

/-- A proper prefix of a frame, also an empty one. -/
def IncompleteFrame (tail : Bytes) : Prop :=
  ∃ e, FitsFrame e ∧ tail <+: serializeEnvelope e ∧ tail ≠ serializeEnvelope e

/-- **An incomplete frame is not extracted**, and the stream is at its end. -/
theorem extractEnvelope_incomplete {tail : Bytes} (incomplete : IncompleteFrame tail)
    {is : InputStream} (hg : is.good) (hr : is.rest = tail) :
    (extractEnvelope uninit is).1.1 = false ∧ (extractEnvelope uninit is).2 = is.exhausted := by
  obtain ⟨e, fits, isPrefix, ne⟩ := incomplete
  have shorter : tail.length < 5 + (ToProtoVisitor.encodedData Envelope e).length := by
    rw [← length_serializeEnvelope fits]
    exact lt_of_le_of_ne isPrefix.length_le fun same => ne (isPrefix.eq_of_length same)
  rw [serializeEnvelope_eq fits] at isPrefix
  by_cases noHeader : tail.length < 5
  · have short := read_short (n := 5) hg (by rwa [hr])
    have notFive : ¬ tail.length = 5 := by omega
    simp only [extractEnvelope, if_pos hg, short, hr, if_neg notFive, and_self]
  · obtain ⟨t, rfl⟩ : ∃ t, tail = frameHeader (ToProtoVisitor.encodedData Envelope e).length ++ t :=
      (List.prefix_of_prefix_length_le (List.prefix_append _ _) isPrefix
        (by rw [length_frameHeader]; omega)).imp fun t h => h.symm
    rw [List.length_append, length_frameHeader] at shorter
    have rest : (is.advance 5).rest = t := rest_advance_append hr
    have short := read_short (n := (ToProtoVisitor.encodedData Envelope e).length)
      (good_advance_of hg 5) (by rw [rest]; omega)
    have missing : ¬ t.length = (ToProtoVisitor.encodedData Envelope e).length := by omega
    rw [extractEnvelope_header uninit fits hg hr]
    simp only [short, rest, if_neg missing, true_and]
    exact exhausted_advance (by rw [hr]; simp)

/-! ## Sequences of frames -/

/-- The frames of the given envelopes, one after the other. -/
def serializeEnvelopes (es : List Envelope.Values) : Bytes := es.flatMap serializeEnvelope

theorem serializeEnvelopes_cons (e : Envelope.Values) (es : List Envelope.Values) :
    serializeEnvelopes (e :: es) = serializeEnvelope e ++ serializeEnvelopes es :=
  List.flatMap_cons

/-- A frame is at least its header. -/
theorem serializeEnvelopes_ne_nil {e : Envelope.Values} (fits : FitsFrame e)
    (es : List Envelope.Values) : serializeEnvelopes (e :: es) ≠ [] := by
  rw [serializeEnvelopes_cons, serializeEnvelope_eq fits]
  exact List.cons_ne_nil _ _

/-- **Frames are not ambiguous.** -/
theorem serializeEnvelopes_inj : ∀ {es es' : List Envelope.Values}, (∀ e ∈ es, FitsFrame e) →
    (∀ e ∈ es', FitsFrame e) → serializeEnvelopes es = serializeEnvelopes es' → es = es' := by
  intro es
  induction es with
  | nil =>
      intro es' _ fits' same
      cases es' with
      | nil => rfl
      | cons e' es' => exact absurd same.symm (serializeEnvelopes_ne_nil (fits' e' (by simp)) es')
  | cons e es ih =>
      intro es' fits fits' same
      cases es' with
      | nil => exact absurd same (serializeEnvelopes_ne_nil (fits e (by simp)) es)
      | cons e' es' =>
          obtain ⟨fitsFirst, fitsOthers⟩ := List.forall_mem_cons.mp fits
          obtain ⟨fitsFirst', fitsOthers'⟩ := List.forall_mem_cons.mp fits'
          rw [serializeEnvelopes_cons, serializeEnvelopes_cons] at same
          have good := good_ofBytes (serializeEnvelope e ++ serializeEnvelopes es)
          have first := extractEnvelope_frame (fun _ => 0) fitsFirst good rfl
          have first' := extractEnvelope_frame (fun _ => 0) fitsFirst' good same
          obtain rfl : e = e' := (Prod.mk.inj (Prod.mk.inj (first.symm.trans first')).1).2
          rw [ih fitsOthers fitsOthers' (List.append_cancel_left same)]

/-- The stream after the given number of calls of `extractEnvelope`. -/
def afterCalls (is : InputStream) : Nat → InputStream
  | 0 => is
  | n + 1 => (extractEnvelope uninit (afterCalls is n)).2

theorem serializeEnvelopes_split (es : List Envelope.Values) {i : Nat} (h : i < es.length) :
    serializeEnvelopes es = serializeEnvelopes (es.take i) ++
      (serializeEnvelope es[i] ++ serializeEnvelopes (es.drop (i + 1))) := by
  have split : es.take i ++ es[i] :: es.drop (i + 1) = es := by
    rw [← List.drop_eq_getElem_cons h, List.take_append_drop]
  have appended := congrArg serializeEnvelopes split
  rw [← appended]
  simp only [serializeEnvelopes, List.flatMap_append, List.flatMap_cons]

theorem serializeEnvelopes_take_succ (es : List Envelope.Values) {i : Nat} (h : i < es.length) :
    serializeEnvelopes (es.take (i + 1)) =
      serializeEnvelopes (es.take i) ++ serializeEnvelope es[i] := by
  rw [List.take_add_one, List.getElem?_eq_getElem h]
  simp only [serializeEnvelopes, Option.toList_some, List.flatMap_append,
    List.flatMap_singleton]

/-- As many calls as there are frames read consume them, however many frames there are. -/
theorem afterCalls_frames {es : List Envelope.Values} (fits : ∀ e ∈ es, FitsFrame e)
    {is : InputStream} {tail : Bytes} (hg : is.good)
    (hr : is.rest = serializeEnvelopes es ++ tail) :
    ∀ i ≤ es.length,
      afterCalls uninit is i = is.advance (serializeEnvelopes (es.take i)).length := by
  intro i
  induction i with
  | zero => intro _; rfl
  | succ i ih =>
      intro hi
      have fitsNext : FitsFrame es[i] := fits _ (List.getElem_mem _)
      have rest : (afterCalls uninit is i).rest =
          serializeEnvelope es[i] ++ (serializeEnvelopes (es.drop (i + 1)) ++ tail) := by
        rw [serializeEnvelopes_split es hi, List.append_assoc, List.append_assoc] at hr
        rw [ih (by omega)]
        exact rest_advance_append hr
      have good : (afterCalls uninit is i).good := by
        rw [ih (by omega)]
        exact good_advance_of hg _
      rw [afterCalls, extractEnvelope_frame uninit fitsNext good rest, ih (by omega),
        advance_advance, serializeEnvelopes_take_succ es hi, List.length_append]

/-- **Framing.** On a good stream that consists of the frames of some envelopes and an
incomplete tail, the calls of `extractEnvelope` return the envelopes in order, each of them
consuming exactly its frame, and the next call fails. -/
theorem extractEnvelope_frames {es : List Envelope.Values} (fits : ∀ e ∈ es, FitsFrame e)
    {is : InputStream} {tail : Bytes} (hg : is.good)
    (hr : is.rest = serializeEnvelopes es ++ tail) (incomplete : IncompleteFrame tail) :
    (∀ (i : Nat) (h : i < es.length),
      extractEnvelope uninit (afterCalls uninit is i) =
        ((true, es[i]), (afterCalls uninit is i).advance (serializeEnvelope es[i]).length)) ∧
    (extractEnvelope uninit (afterCalls uninit is es.length)).1.1 = false := by
  have consumed := afterCalls_frames uninit fits hg hr
  constructor
  · intro i h
    refine extractEnvelope_frame uninit (t := serializeEnvelopes (es.drop (i + 1)) ++ tail)
      (fits _ (List.getElem_mem _)) ?_ ?_
    · rw [consumed i h.le]
      exact good_advance_of hg _
    · rw [serializeEnvelopes_split es h, List.append_assoc, List.append_assoc] at hr
      rw [consumed i h.le]
      exact rest_advance_append hr
  · rw [consumed es.length le_rfl, List.take_length]
    exact (extractEnvelope_incomplete uninit incomplete (good_advance_of hg _)
      (rest_advance_append hr)).1

/-- Keys, lengths, and integers take at most ten bytes each, so the payload of an envelope can
almost fill a frame. -/
theorem fitsFrame_of_length {e : Envelope.Values}
    (h : (Envelope.serializedData e).length < 2 ^ 24 - 240) : FitsFrame e := by
  have key (id : BitVec 32) (t : ProtoConstants) := length_toVarInt (encodeKey id t)
  have string (s : Bytes) : (ToProtoVisitor.encodeString s).length ≤ 10 + s.length := by
    rw [ToProtoVisitor.encodeString, List.length_append]
    exact Nat.add_le_add_right (length_toVarInt _) _
  obtain ⟨dataType, serializedData, sent, received, sampled, senderStamp, _⟩ := e
  have ofData := string serializedData
  have ofSent := (string _).trans (Nat.add_le_add_left (length_timeStamp_le sent) 10)
  have ofReceived := (string _).trans (Nat.add_le_add_left (length_timeStamp_le received) 10)
  have ofSampled := (string _).trans (Nat.add_le_add_left (length_timeStamp_le sampled) 10)
  have ofType := length_toVarInt ((toZigZag32 dataType).setWidth 64)
  have ofStamp := length_toVarInt (senderStamp.setWidth 64)
  simp only [FitsFrame, ToProtoVisitor.encodedData_eq, Envelope, FieldInfo.declared,
    ScalarType.protoType, Fields.protoBytes, ToProtoVisitor.encode, List.length_append,
    List.length_nil]
  simp only [Envelope.serializedData] at h
  have key₁ := key 1#32 .varint
  have key₂ := key 2#32 .lengthDelimited
  have key₃ := key 3#32 .lengthDelimited
  have key₄ := key 4#32 .lengthDelimited
  have key₅ := key 5#32 .lengthDelimited
  have key₆ := key 6#32 .varint
  omega

theorem fitsFrame_initial : FitsFrame Envelope.initial := fitsFrame_of_length (by decide)

theorem incompleteFrame_magic : IncompleteFrame [0x0D] := by
  refine ⟨Envelope.initial, fitsFrame_initial, ?_, fun same => ?_⟩
  · rw [serializeEnvelope_eq fitsFrame_initial]
    exact ⟨_, rfl⟩
  · have lengths := congrArg List.length same
    rw [length_serializeEnvelope fitsFrame_initial, List.length_singleton] at lengths
    omega

/-- Two envelopes with different payloads; the second one was sampled first. -/
def twoEnvelopes : List Envelope.Values :=
  [(19, [0x61], TimeStamp.of 5 0, TimeStamp.of 0 0, TimeStamp.of 5 0, 1, ()),
    (25, [0x62, 0x63], TimeStamp.of 4 7, TimeStamp.of 0 0, TimeStamp.of 4 7, 2, ())]

theorem fitsFrame_two : ∀ e ∈ twoEnvelopes, FitsFrame e := by
  intro e mem
  rcases List.mem_pair.mp mem with rfl | rfl
  · exact fitsFrame_of_length (by decide)
  · exact fitsFrame_of_length (by decide)

theorem extractEnvelope_frames_two :
    let is := ofBytes (serializeEnvelopes twoEnvelopes ++ [0x0D])
    (∀ (i : Nat) (h : i < twoEnvelopes.length),
      extractEnvelope (fun _ => 0) (afterCalls (fun _ => 0) is i) =
        ((true, twoEnvelopes[i]),
          (afterCalls (fun _ => 0) is i).advance (serializeEnvelope twoEnvelopes[i]).length)) ∧
    (extractEnvelope (fun _ => 0) (afterCalls (fun _ => 0) is 2)).1.1 = false :=
  extractEnvelope_frames (fun _ => 0) fitsFrame_two rfl rfl incompleteFrame_magic

/-- The length that `extractEnvelope` finds in the header of a frame. -/
def headerLength (frame : Bytes) : Nat :=
  (BitVec.ofNat 32 (ofLeBytes ((frame.take 5).drop 1)) >>> 8).toNat

/-- The header states the number of bytes behind it, and a reader that takes the frame from a
stream stands exactly behind it, whatever follows. -/
structure FramesExactly (e : Envelope.Values) : Prop where
  headerLength_eq : headerLength (serializeEnvelope e) = (serializeEnvelope e).length - 5
  resumes : ∀ (is : InputStream) (t : Bytes), is.good → is.rest = serializeEnvelope e ++ t →
    (extractEnvelope uninit is).2 = is.advance (serializeEnvelope e).length

theorem headerLength_serializeEnvelope (e : Envelope.Values) :
    headerLength (serializeEnvelope e) =
      (ToProtoVisitor.encodedData Envelope e).length % 2 ^ 24 := by
  have header : (serializeEnvelope e).take 5 =
      frameHeader ((ToProtoVisitor.encodedData Envelope e).length % 2 ^ 24) := by
    rw [serializeEnvelope_eq_mod]
    exact List.take_left' (length_frameHeader _)
  rw [headerLength, header, length_of_frameHeader (Nat.mod_lt _ (by norm_num))]

/-- **The header states the size of the payload** exactly for envelopes of less than 2^24
bytes, and only those are taken from a stream completely. -/
theorem framesExactly_iff (e : Envelope.Values) :
    FramesExactly uninit e ↔ (ToProtoVisitor.encodedData Envelope e).length < 2 ^ 24 := by
  constructor
  · intro frames
    have stated := frames.headerLength_eq
    rw [headerLength_serializeEnvelope, serializeEnvelope_eq_mod, List.length_append,
      length_frameHeader, Nat.add_sub_cancel_left] at stated
    rw [← stated]
    exact Nat.mod_lt _ (by norm_num)
  · intro fits
    refine ⟨?_, fun is t hg hr => ?_⟩
    · rw [headerLength_serializeEnvelope, length_serializeEnvelope fits, Nat.mod_eq_of_lt fits,
        Nat.add_sub_cancel_left]
    · rw [extractEnvelope_frame uninit fits hg hr]

/-- Behind a frame that is too long the reader stands within the payload. -/
theorem extractEnvelope_tooLong {e : Envelope.Values}
    (long : 2 ^ 24 ≤ (ToProtoVisitor.encodedData Envelope e).length) {is : InputStream} {t : Bytes}
    (hg : is.good) (hr : is.rest = serializeEnvelope e ++ t) :
    (extractEnvelope uninit is).2 =
        is.advance (5 + (ToProtoVisitor.encodedData Envelope e).length % 2 ^ 24) ∧
      5 + (ToProtoVisitor.encodedData Envelope e).length % 2 ^ 24 <
        (serializeEnvelope e).length := by
  have less := Nat.mod_lt (ToProtoVisitor.encodedData Envelope e).length
    (by norm_num : 0 < 2 ^ 24)
  rw [serializeEnvelope_eq_mod, List.append_assoc] at hr
  have rest : (is.advance 5).rest = ToProtoVisitor.encodedData Envelope e ++ t :=
    rest_advance_append hr
  have payload := read_of_le (n := (ToProtoVisitor.encodedData Envelope e).length % 2 ^ 24)
    (good_advance_of hg 5) (by rw [rest, List.length_append]; omega)
  constructor
  · rw [extractEnvelope_header uninit less hg hr]
    simp only [payload, advance_advance]
    split <;> rfl
  · rw [serializeEnvelope_eq_mod, List.length_append, length_frameHeader]
    omega

/-- The data of an envelope are part of its bytes. -/
theorem length_serializedData_le (e : Envelope.Values) :
    (Envelope.serializedData e).length ≤ (ToProtoVisitor.encodedData Envelope e).length := by
  obtain ⟨dataType, serializedData, sent, received, sampled, senderStamp, _⟩ := e
  simp only [ToProtoVisitor.encodedData_eq, Envelope, FieldInfo.declared, ScalarType.protoType,
    Fields.protoBytes, ToProtoVisitor.encode, ToProtoVisitor.encodeString, List.length_append,
    Envelope.serializedData]
  omega

/-- An envelope with 2^24 bytes of data. -/
def largeEnvelope : Envelope.Values :=
  (0, List.replicate (2 ^ 24) 0, (0, 0, ()), (0, 0, ()), (0, 0, ()), 0, ())

theorem not_framesExactly : ¬ FramesExactly (fun _ => 0) largeEnvelope := by
  rw [framesExactly_iff, Nat.not_lt]
  have data : (Envelope.serializedData largeEnvelope).length = 2 ^ 24 := List.length_replicate
  exact data ▸ length_serializedData_le largeEnvelope

end Cluon
