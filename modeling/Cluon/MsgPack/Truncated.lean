import Cluon.MsgPack.RoundTrip

/-!
# Reading MsgPack data that ends too early

The decoder does not look at the state of the stream. Where the data ends, it goes on: the bytes
of a number that have not arrived are zero (`ReadsInteger.cut`), those of a string are what is
in the memory (`readString_cut`), and for whatever is to be read behind the end there is an
empty name with the integer zero (`readPairs_atEnd`), because the end of the stream is taken for
the byte of a negative integer that cannot be put back. What a decoder finds in the beginning of
an encoded message is therefore what `Fields.told` says (`readPairs_cut`, `readKeyValues_cut`).
-/

set_option autoImplicit false

namespace Cluon

open Library InputStream MsgPackConstants

/-! ## Numbers -/

/-- The first `n` of the bytes, and zeros in the place of the others. -/
def zeroBehind (n : Nat) (bytes : Bytes) : Bytes :=
  bytes.take n ++ List.replicate (bytes.length - n) 0

@[simp] theorem length_zeroBehind (n : Nat) (bytes : Bytes) :
    (zeroBehind n bytes).length = bytes.length := by
  rw [zeroBehind, List.length_append, List.length_take, List.length_replicate]
  omega

theorem ofBeBytes_zeroBehind_zero (bytes : Bytes) : ofBeBytes (zeroBehind 0 bytes) = 0 := by
  have zeros (n : Nat) : ofLeBytes (List.replicate n 0) = 0 := by
    induction n with
    | zero => rfl
    | succ n ih =>
        rw [List.replicate_succ, ofLeBytes, ih]
        rfl
  rw [zeroBehind, List.take_zero, List.nil_append, ofBeBytes, List.reverse_replicate, zeros]

/-- A number of which some bytes have not arrived. -/
theorem readBigEndian_cut {bytes : Bytes} {n : Nat} (short : n < bytes.length) {is : InputStream}
    (hg : is.good) (hr : is.rest = bytes.take n) :
    readBigEndian bytes.length is = (ofBeBytes (zeroBehind n bytes), is.exhausted) := by
  have length : is.rest.length = n := by
    rw [hr, List.length_take]
    omega
  simp only [readBigEndian, read_short hg (length.trans_lt short), length, zeroBehind, ← hr]

theorem ReadsCount.cut {read : Byte → InputStream → Nat × InputStream} {v n : Nat} {c : Byte}
    {hs : Bytes} (reads : ReadsCount read v c hs) (short : n < hs.length) {is : InputStream}
    (hg : is.good) (hr : is.rest = hs.take n) :
    read c is = (ofBeBytes (zeroBehind n hs), is.exhausted) := by
  rcases reads with ⟨rfl, _⟩ | ⟨_, _, told⟩
  · cases short
  · rw [told, readBigEndian_cut short hg hr]

theorem ReadsInteger.cut {read : InputStream → BitVec 64 × InputStream}
    {word : Nat → Nat → BitVec 64} {v : BitVec 64} {c : Byte} {hs : Bytes} {n : Nat}
    (reads : ReadsInteger read word v c hs) (short : n < hs.length) {is : InputStream}
    (hg : is.good) (hr : is.rest = c :: hs.take n) :
    read is = (word hs.length (ofBeBytes (zeroBehind n hs)), (is.advance 1).exhausted) := by
  rcases reads with ⟨rfl, _⟩ | ⟨_, _, told⟩
  · cases short
  · rw [told hg hr, readBigEndian_cut short (good_advance_of hg 1) (rest_advance_one hr)]

/-! ## The end of the stream -/

/-- There is nothing more to read. -/
def AtEnd (is : InputStream) : Prop := is.good = false ∨ is.rest = []

/-- The end of the stream is taken for a byte. -/
theorem getByte_atEnd {is : InputStream} (atEnd : AtEnd is) :
    ∃ is', getByte is = (0xFF, is') ∧ is'.failbit = true := by
  by_cases hg : is.good = true
  · rcases atEnd with spoiled | hr
    · exact absurd hg (by rw [spoiled]; exact Bool.false_ne_true)
    · rw [getByte, get_nil hg hr]
      exact ⟨_, rfl, rfl⟩
  · rw [getByte, InputStream.get, if_neg hg]
    exact ⟨_, rfl, rfl⟩

theorem good_of_failbit {is : InputStream} (failed : is.failbit = true) : is.good = false := by
  rw [good, failed, Bool.not_true, Bool.and_false]

theorem unget_of_failbit {is : InputStream} (failed : is.failbit = true) :
    is.unget.failbit = true := by
  simp [unget, good, failed]

section Read

variable (uninit : Nat → Byte)

theorem readString_atEnd {is : InputStream} (atEnd : AtEnd is) :
    ∃ is', readString uninit is = ([], is') ∧ is'.good = false := by
  by_cases hg : is.good = true
  · obtain ⟨is', byte, failed⟩ := getByte_atEnd atEnd
    have family : getFormatFamily 0xFF = .int := by decide
    refine ⟨is', ?_, good_of_failbit failed⟩
    rw [readString, if_pos hg, byte]
    simp only [family, reduceCtorEq, if_false]
  · rw [readString, if_neg hg]
    exact ⟨is, rfl, by simpa using hg⟩

section Pairs

variable (readKeyValues : InputStream → Option (KeyValueMap Bytes MsgPackAny × InputStream))

/-- A value behind the end is the integer zero. -/
theorem readValue_atEnd {is : InputStream} (atEnd : AtEnd is) :
    ∃ is', readValue uninit readKeyValues is = some (.int64 0, is') ∧ is'.good = false := by
  obtain ⟨is', byte, failed⟩ := getByte_atEnd atEnd
  have family : getFormatFamily 0xFF = .int := by decide
  have spoiled := good_of_failbit (unget_of_failbit failed)
  refine ⟨is'.unget, ?_, spoiled⟩
  rw [readValue, byte]
  simp only [family, readInt, spoiled, Bool.false_eq_true, if_false]

/-- Entries behind the end have empty names. -/
theorem readPairs_atEnd (n : Nat) :
    ∀ (before : KeyValueMap Bytes MsgPackAny) {is : InputStream}, is.good = false →
      ∃ is', readPairs uninit readKeyValues n before is =
          some (before.assignAll (List.replicate n ([], .int64 0)), is') ∧
        is'.good = false := by
  induction n with
  | zero => intro before is spoiled; exact ⟨is, rfl, spoiled⟩
  | succ n ih =>
      intro before is spoiled
      obtain ⟨is₁, keyRead, spoiled₁⟩ := readString_atEnd uninit (.inl spoiled)
      obtain ⟨is₂, valueRead, spoiled₂⟩ := readValue_atEnd uninit readKeyValues (.inl spoiled₁)
      obtain ⟨is', others, spoiled'⟩ := ih (before.assign [] (.int64 0)) spoiled₂
      refine ⟨is', ?_, spoiled'⟩
      rw [readPairs, keyRead]
      simp only [valueRead, others]
      rfl

end Pairs

/-! ## Strings -/

/-- What is read for a string of which only `n` bytes of its encoding have arrived: the bytes of
its length that are missing are zero, and those of its content are the ones in the memory. -/
def cutString (s : Bytes) (n : Nat) : Bytes :=
  let header := ToMsgPackVisitor.stringHeader (BitVec.ofNat 32 s.length)
  let length :=
    if n < header.length then ofBeBytes (zeroBehind (n - 1) header.tail) else s.length
  StringBuffer.str uninit ⟨length, s.take (n - header.length)⟩ length

theorem StringBuffer.str_zero (b : StringBuffer) : b.str uninit 0 = [] := by
  simp [StringBuffer.str]

theorem stringHeader_length_pos (length : BitVec 32) :
    0 < (ToMsgPackVisitor.stringHeader length).length := by
  rw [ToMsgPackVisitor.stringHeader]
  split
  · simp
  split
  · simp
  split <;> simp

/-- Of a string that has not begun to arrive nothing is read. -/
theorem cutString_zero (s : Bytes) : cutString uninit s 0 = [] := by
  simp only [cutString, if_pos (stringHeader_length_pos _), Nat.zero_sub,
    ofBeBytes_zeroBehind_zero, StringBuffer.str_zero]

/-- **A string that ends too early.** -/
theorem readString_cut {s : Bytes} {n : Nat} (readable : 0 < n → ReadableString s)
    (short : n < (ToMsgPackVisitor.encodeString s).length) {is : InputStream} (hg : is.good)
    (hr : is.rest = (ToMsgPackVisitor.encodeString s).take n) :
    ∃ is', readString uninit is = (cutString uninit s n, is') ∧ is'.good = false := by
  cases n with
  | zero =>
      have atEnd : AtEnd is := .inr (by simpa using hr)
      obtain ⟨is', read, spoiled⟩ := readString_atEnd uninit atEnd
      exact ⟨is', by rw [read, cutString_zero], spoiled⟩
  | succ n =>
      obtain ⟨long, not31⟩ := readable (Nat.succ_pos n)
      obtain ⟨c, hs, header, family, count⟩ := readStringLength_stringHeader long not31
      rw [encodeString_eq long, header] at hr short
      rw [List.cons_append, List.take_succ_cons] at hr
      simp only [List.length_append, List.length_cons] at short
      have behind := rest_advance_one hr
      rw [readString, if_pos hg, getByte_cons hg hr, cutString, header]
      simp only [family, if_true, List.tail_cons, List.length_cons, Nat.add_lt_add_iff_right,
        Nat.add_sub_cancel, Nat.add_sub_add_right]
      by_cases inHeader : n < hs.length
      · rw [List.take_append_of_le_length inHeader.le] at behind
        rw [count.cut inHeader (good_advance_of hg 1) behind]
        simp only [if_pos inHeader, Nat.sub_eq_zero_of_le inHeader.le, List.take_zero]
        by_cases positive : 0 < ofBeBytes (zeroBehind n hs)
        · rw [if_pos positive, read_spoiled (good_exhausted _)]
          exact ⟨_, rfl, rfl⟩
        · obtain zero : ofBeBytes (zeroBehind n hs) = 0 := by omega
          rw [if_neg positive, zero, StringBuffer.str_zero]
          exact ⟨_, rfl, rfl⟩
      · obtain ⟨k, rfl⟩ := Nat.exists_eq_add_of_le (Nat.not_lt.mp inHeader)
        rw [List.take_length_add_append] at behind
        have content := rest_advance_append behind
        have fewer : (s.take k).length < s.length := by
          rw [List.length_take]
          omega
        rw [count.complete (good_advance_of hg 1) behind]
        simp only [if_neg inHeader, Nat.add_sub_cancel_left]
        rw [if_pos (by omega), read_short (good_advance_of (good_advance_of hg 1) _)
          (by rw [content]; exact fewer), content]
        exact ⟨_, rfl, rfl⟩

/-! ## Values -/

/-- The number in the bytes behind a first byte. -/
def numberOf (c : Byte) (bytes : Bytes) : MsgPackAny :=
  match getFormatFamily c with
  | .uint => .uint64 (uintOf bytes.length (ofBeBytes bytes))
  | .int => .int64 (intOf bytes.length (ofBeBytes bytes))
  | _ =>
      if c = float then .float (BitVec.ofNat 32 (ofBeBytes bytes))
      else .double (BitVec.ofNat 64 (ofBeBytes bytes))

/-- The number of which only `n` bytes have arrived, zero in the place of the others. -/
def cutNumber (encoded : Bytes) (n : Nat) : MsgPackAny :=
  numberOf (encoded.headD 0) (zeroBehind (n - 1) encoded.tail)

/-- What is read for a value of which only some bytes have arrived. -/
def cutScalar : (t : ScalarType) → t.Value → Nat → MsgPackAny
  | .char, v, n => .string (cutString uninit [v] n)
  | .bytes, s, n | .string, s, n => .string (cutString uninit s n)
  | t, v, n => cutNumber (ToMsgPackVisitor.encode t v) n

/-- What is read for a value of which only some bytes, or none, have arrived. -/
def cutValue (t : ScalarType) (v : t.Value) (n : Nat) : MsgPackAny :=
  if n = 0 then .int64 0 else cutScalar uninit t v n

section Pairs

variable (readKeyValues : InputStream → Option (KeyValueMap Bytes MsgPackAny × InputStream))

theorem readValue_cutUint {v : BitVec 64} {n : Nat} (positive : 0 < n)
    (short : n < (ToMsgPackVisitor.encodeUint v).length) {is : InputStream} (hg : is.good)
    (hr : is.rest = (ToMsgPackVisitor.encodeUint v).take n) :
    ∃ is', readValue uninit readKeyValues is =
        some (cutNumber (ToMsgPackVisitor.encodeUint v) n, is') ∧
      is'.good = false := by
  obtain ⟨k, rfl⟩ : ∃ k, n = k + 1 := ⟨n - 1, by omega⟩
  obtain ⟨c, hs, bytes, family, read⟩ := readUint_encodeUint v
  rw [bytes] at hr short ⊢
  rw [List.take_succ_cons] at hr
  have cut := read.cut (Nat.lt_of_succ_lt_succ short) hg hr
  rw [readValue_cons uninit readKeyValues hg hr, family]
  simp only [cut, cutNumber, numberOf, List.headD_cons, List.tail_cons, family, length_zeroBehind,
    Nat.add_sub_cancel]
  exact ⟨_, rfl, rfl⟩

theorem readValue_cutInt {v : BitVec 64} (negative : v.toInt < 0) {n : Nat} (positive : 0 < n)
    (short : n < (ToMsgPackVisitor.encodeInt v).length) {is : InputStream} (hg : is.good)
    (hr : is.rest = (ToMsgPackVisitor.encodeInt v).take n) :
    ∃ is', readValue uninit readKeyValues is =
        some (cutNumber (ToMsgPackVisitor.encodeInt v) n, is') ∧
      is'.good = false := by
  obtain ⟨k, rfl⟩ : ∃ k, n = k + 1 := ⟨n - 1, by omega⟩
  obtain ⟨c, hs, bytes, family, read⟩ := readInt_encodeInt negative
  rw [bytes] at hr short ⊢
  rw [List.take_succ_cons] at hr
  have cut := read.cut (Nat.lt_of_succ_lt_succ short) hg hr
  rw [readValue_cons uninit readKeyValues hg hr, family]
  simp only [cut, cutNumber, numberOf, List.headD_cons, List.tail_cons, family, length_zeroBehind,
    Nat.add_sub_cancel]
  exact ⟨_, rfl, rfl⟩

theorem readValue_cutSigned {w : Nat} (hw : w ≤ 64) (v : BitVec w) {n : Nat} (positive : 0 < n)
    (short : n < (ToMsgPackVisitor.encodeSigned v).length) {is : InputStream} (hg : is.good)
    (hr : is.rest = (ToMsgPackVisitor.encodeSigned v).take n) :
    ∃ is', readValue uninit readKeyValues is =
        some (cutNumber (ToMsgPackVisitor.encodeSigned v) n, is') ∧
      is'.good = false := by
  rw [ToMsgPackVisitor.encodeSigned] at *
  by_cases negative : v.toInt < 0
  · rw [if_pos negative] at hr short ⊢
    refine readValue_cutInt uninit readKeyValues ?_ positive short hg hr
    rwa [BitVec.toInt_signExtend_of_le hw]
  · rw [if_neg negative] at hr short ⊢
    exact readValue_cutUint uninit readKeyValues positive short hg hr

theorem readValue_cutString {s : Bytes} (readable : ReadableString s) {n : Nat} (positive : 0 < n)
    (short : n < (ToMsgPackVisitor.encodeString s).length) {is : InputStream} (hg : is.good)
    (hr : is.rest = (ToMsgPackVisitor.encodeString s).take n) :
    ∃ is', readValue uninit readKeyValues is = some (.string (cutString uninit s n), is') ∧
      is'.good = false := by
  obtain ⟨k, rfl⟩ : ∃ k, n = k + 1 := ⟨n - 1, by omega⟩
  obtain ⟨c, t, bytes, family⟩ := encodeString_cons readable
  obtain ⟨is', read, spoiled⟩ := readString_cut uninit (fun _ => readable) short hg hr
  rw [bytes, List.take_succ_cons] at hr
  rw [readValue_cons uninit readKeyValues hg hr, family]
  simp only [read]
  exact ⟨is', rfl, spoiled⟩

/-- The bytes of a floating-point number. -/
theorem readValue_cutFloat {bytes : Bytes} {n : Nat} (positive : 0 < n) {c : Byte}
    (sizes : (c = float ∧ bytes.length = 4) ∨ (c = double ∧ bytes.length = 8))
    (short : n < (c :: bytes).length) {is : InputStream} (hg : is.good)
    (hr : is.rest = (c :: bytes).take n) :
    ∃ is', readValue uninit readKeyValues is = some (cutNumber (c :: bytes) n, is') ∧
      is'.good = false := by
  obtain ⟨k, rfl⟩ : ∃ k, n = k + 1 := ⟨n - 1, by omega⟩
  rw [List.take_succ_cons] at hr
  have cut := readBigEndian_cut (Nat.lt_of_succ_lt_succ short) (good_advance_of hg 1)
    (rest_advance_one hr)
  have families : getFormatFamily float = .float ∧ getFormatFamily double = .float := by decide
  have other : ¬ double = float := by decide
  rw [readValue_cons uninit readKeyValues hg hr, cutNumber, numberOf]
  rcases sizes with ⟨rfl, size⟩ | ⟨rfl, size⟩
  · rw [size] at cut
    simp only [List.headD_cons, List.tail_cons, families.1, if_true, cut, Nat.add_sub_cancel]
    exact ⟨_, rfl, rfl⟩
  · rw [size] at cut
    simp only [List.headD_cons, List.tail_cons, families.2, if_neg other, cut, Nat.add_sub_cancel]
    exact ⟨_, rfl, rfl⟩

/-- **A value that ends too early.** -/
theorem readValue_cut (t : ScalarType) (v : t.Value) {n : Nat}
    (readable : 0 < n → t.MsgPackReadable v) (short : n < (ToMsgPackVisitor.encode t v).length)
    {is : InputStream} (hg : is.good) (hr : is.rest = (ToMsgPackVisitor.encode t v).take n) :
    ∃ is', readValue uninit readKeyValues is = some (cutValue uninit t v n, is') ∧
      is'.good = false := by
  by_cases none : n = 0
  · subst none
    have atEnd : AtEnd is := .inr (by simpa using hr)
    obtain ⟨is', read, spoiled⟩ := readValue_atEnd uninit readKeyValues atEnd
    exact ⟨is', by rw [read, cutValue, if_pos rfl], spoiled⟩
  have positive : 0 < n := Nat.pos_of_ne_zero none
  have readable := readable positive
  rw [cutValue, if_neg none]
  cases t with
  | bool =>
      have one : n < 1 := short
      omega
  | char => exact readValue_cutString uninit readKeyValues ⟨by simp, by simp⟩ positive short hg hr
  | bytes | string => exact readValue_cutString uninit readKeyValues readable positive short hg hr
  | int8 | int16 | int32 | int64 =>
      exact readValue_cutSigned uninit readKeyValues (by omega) v positive short hg hr
  | uint8 | uint16 | uint32 | uint64 =>
      exact readValue_cutUint uninit readKeyValues positive short hg hr
  | float =>
      exact readValue_cutFloat uninit readKeyValues positive
        (.inl ⟨rfl, beBytes_length 4 (BitVec.toNat v)⟩) short hg hr
  | double =>
      exact readValue_cutFloat uninit readKeyValues positive
        (.inr ⟨rfl, beBytes_length 8 (BitVec.toNat v)⟩) short hg hr

end Pairs

/-! ## Entries -/

/-- What is read for an entry of which only `n` bytes have arrived. -/
def cutEntry (name : Bytes) (value : Nat → MsgPackAny) (n : Nat) : Bytes × MsgPackAny :=
  let length := (ToMsgPackVisitor.encodeString name).length
  if n < length then (cutString uninit name n, .int64 0) else (name, value (n - length))

/-- What is read for a map of which only `n` bytes have arrived: the bytes of its size that are
missing are zero. -/
def cutMap (header : Bytes) (entries : Nat → List (Bytes × MsgPackAny)) (n : Nat) :
    KeyValueMap Bytes MsgPackAny :=
  KeyValueMap.assignAll []
    (if n < header.length then
      List.replicate (ofBeBytes (zeroBehind (n - 1) header.tail)) ([], .int64 0)
    else entries (n - header.length))

/-- What is read for the fields of a message of whose entries only `n` bytes have arrived. -/
def Fields.told : (fs : Fields) → fs.Values → Nat → List (Bytes × MsgPackAny)
  | .nil, _, _ => []
  | .scalar field t rest, m, n =>
      let length :=
        (ToMsgPackVisitor.encodeString field.name).length + (ToMsgPackVisitor.encode t m.1).length
      if length ≤ n then (field.name, .ofValue t m.1) :: rest.told m.2 (n - length)
      else
        cutEntry uninit field.name (cutValue uninit t m.1) n ::
          List.replicate rest.length ([], .int64 0)
  | .nested field _ inner rest, m, n =>
      let length :=
        (ToMsgPackVisitor.encodeString field.name).length + (inner.msgPackBytes m.1).length
      if length ≤ n then
        (field.name, .keyValues (KeyValueMap.assignAll [] (inner.msgPackKeyValues m.1))) ::
          rest.told m.2 (n - length)
      else
        cutEntry uninit field.name (fun k =>
          if k = 0 then .int64 0
          else .keyValues (cutMap (ToMsgPackVisitor.mapHeader (BitVec.ofNat 32 inner.length))
            (inner.told m.1) k)) n ::
          List.replicate rest.length ([], .int64 0)

/-- The part of a message that has arrived with the first `n` bytes of its entries is readable. -/
def Fields.ReadableIn : (fs : Fields) → fs.Values → Nat → Prop
  | .nil, _, _ => True
  | .scalar field t rest, m, n =>
      let name := (ToMsgPackVisitor.encodeString field.name).length
      (0 < n → ReadableString field.name) ∧ (name < n → t.MsgPackReadable m.1) ∧
        rest.ReadableIn m.2 (n - (name + (ToMsgPackVisitor.encode t m.1).length))
  | .nested field _ inner rest, m, n =>
      let name := (ToMsgPackVisitor.encodeString field.name).length
      let header := (ToMsgPackVisitor.mapHeader (BitVec.ofNat 32 inner.length)).length
      (0 < n → ReadableString field.name ∧ (inner.msgPackBytes m.1).length < 2 ^ 32) ∧
        (name < n → inner.length < 2 ^ 32 ∧ inner.length ≠ 15 ∧
          inner.ReadableIn m.1 (n - name - header)) ∧
        rest.ReadableIn m.2 (n - (name + (inner.msgPackBytes m.1).length))

section Pairs

variable (readKeyValues : InputStream → Option (KeyValueMap Bytes MsgPackAny × InputStream))

theorem encodeString_length_pos (s : Bytes) :
    0 < (ToMsgPackVisitor.encodeString s).length := by
  have header := stringHeader_length_pos (BitVec.ofNat 32 s.length)
  rw [ToMsgPackVisitor.encodeString, List.length_append]
  omega

/-- **An entry that ends too early**, and the ones behind it. -/
theorem readPairs_cutEntry {name value : Bytes} {any : Nat → MsgPackAny} {n : Nat}
    (readable : 0 < n → ReadableString name)
    (short : n < (ToMsgPackVisitor.encodeString name).length + value.length)
    (valueRead : ∀ {is : InputStream} {k : Nat}, n = (ToMsgPackVisitor.encodeString name).length + k →
      is.good → is.rest = value.take k →
      ∃ is', readValue uninit readKeyValues is = some (any k, is') ∧ is'.good = false)
    (others : Nat) (before : KeyValueMap Bytes MsgPackAny) {is : InputStream} (hg : is.good)
    (hr : is.rest = (ToMsgPackVisitor.encodeString name ++ value).take n) :
    ∃ is', readPairs uninit readKeyValues (others + 1) before is =
        some (before.assignAll (cutEntry uninit name any n ::
          List.replicate others ([], .int64 0)), is') ∧
      is'.good = false := by
  -- What is read behind the entry.
  have behind {key : Bytes} {v : MsgPackAny} {is₁ is₂ : InputStream}
      (keyRead : readString uninit is = (key, is₁))
      (read : readValue uninit readKeyValues is₁ = some (v, is₂)) (spoiled : is₂.good = false)
      (entry : cutEntry uninit name any n = (key, v)) :
      ∃ is', readPairs uninit readKeyValues (others + 1) before is =
          some (before.assignAll (cutEntry uninit name any n ::
            List.replicate others ([], .int64 0)), is') ∧
        is'.good = false := by
    obtain ⟨is', rest, spoiled'⟩ :=
      readPairs_atEnd uninit readKeyValues others (before.assign key v) spoiled
    refine ⟨is', ?_, spoiled'⟩
    rw [readPairs, keyRead, entry]
    simp only [read, rest]
    rfl
  by_cases inName : n < (ToMsgPackVisitor.encodeString name).length
  · rw [List.take_append_of_le_length inName.le] at hr
    obtain ⟨is₁, keyRead, spoiled₁⟩ := readString_cut uninit readable inName hg hr
    obtain ⟨is₂, read, spoiled₂⟩ := readValue_atEnd uninit readKeyValues (.inl spoiled₁)
    refine behind keyRead read spoiled₂ ?_
    simp only [cutEntry, if_pos inName]
  · obtain ⟨k, rfl⟩ := Nat.exists_eq_add_of_le (Nat.not_lt.mp inName)
    rw [List.take_length_add_append] at hr
    have positive := encodeString_length_pos name
    have keyRead := readString_encodeString uninit (readable (by omega)) hg hr
    obtain ⟨is₂, read, spoiled₂⟩ := valueRead rfl (good_advance_of hg _) (rest_advance_append hr)
    refine behind keyRead read spoiled₂ ?_
    simp only [cutEntry, if_neg inName, Nat.add_sub_cancel_left]

end Pairs

/-! ## Messages -/

theorem mapHeader_length_pos (n : BitVec 32) : 0 < (ToMsgPackVisitor.mapHeader n).length := by
  rw [ToMsgPackVisitor.mapHeader]
  split
  · simp
  split <;> simp

/-- Behind the end no map is found. -/
theorem findMap_atEnd {is : InputStream} (hg : is.good) (hr : is.rest = []) :
    findMap is = (none, is.exhausted) := by
  have byte : getByte is = (0xFF, is.exhausted) := by
    rw [getByte, get_nil hg hr]
    rfl
  have family : getFormatFamily 0xFF = .int := by decide
  have round : findMapBody none is = (true, none, is.exhausted) := by
    rw [findMapBody, byte]
    simp only [family, reduceCtorEq, if_false]
  rw [findMap, whileGood_again consumes_findMapBody hg round,
    whileGood_spoiled findMapBody none (good_exhausted is)]

/-- **A map that ends too early**, if its entries are read that have arrived. -/
theorem readKeyValues_cut {fs : Fields} {m : fs.Values} {n : Nat}
    (sizes : 0 < n → fs.length < 2 ^ 32 ∧ fs.length ≠ 15) {depth : Nat}
    (entries : ∀ {is : InputStream} {k : Nat},
      n = (ToMsgPackVisitor.mapHeader (BitVec.ofNat 32 fs.length)).length + k → is.good →
      is.rest = (fs.msgPackEntries m).take k →
      ∃ is', readPairs uninit (readKeyValues uninit depth) fs.length [] is =
          some (KeyValueMap.assignAll [] (fs.told uninit m k), is') ∧
        is'.good = false)
    {is : InputStream} (hg : is.good) (hr : is.rest = (fs.msgPackBytes m).take n) :
    ∃ is', readKeyValues uninit (depth + 1) is =
        some (cutMap (ToMsgPackVisitor.mapHeader (BitVec.ofNat 32 fs.length))
          (fs.told uninit m) n, is') ∧
      is'.good = false := by
  cases n with
  | zero =>
      refine ⟨is.exhausted, ?_, good_exhausted is⟩
      rw [readKeyValues, findMap_atEnd hg (by simpa using hr), cutMap,
        if_pos (mapHeader_length_pos _), Nat.zero_sub, ofBeBytes_zeroBehind_zero]
      rfl
  | succ n =>
      obtain ⟨small, not15⟩ := sizes (Nat.succ_pos n)
      obtain ⟨c, hs, header, family, count⟩ := readTokensToRead_mapHeader small not15
      rw [Fields.msgPackBytes, header, List.cons_append, List.take_succ_cons] at hr
      have behind := rest_advance_one hr
      rw [readKeyValues, findMap_cons family hg hr, cutMap, header]
      simp only [List.length_cons, Nat.add_lt_add_iff_right, Nat.add_sub_cancel, List.tail_cons,
        Nat.add_sub_add_right]
      by_cases inHeader : n < hs.length
      · rw [List.take_append_of_le_length inHeader.le] at behind
        rw [count.cut inHeader (good_advance_of hg 1) behind, if_pos inHeader]
        exact readPairs_atEnd uninit _ _ [] (good_exhausted _)
      · obtain ⟨k, rfl⟩ := Nat.exists_eq_add_of_le (Nat.not_lt.mp inHeader)
        rw [List.take_length_add_append] at behind
        rw [count.complete (good_advance_of hg 1) behind, if_neg inHeader,
          Nat.add_sub_cancel_left]
        refine entries ?_ (good_advance_of (good_advance_of hg 1) _) (rest_advance_append behind)
        rw [header, List.length_cons]
        omega

/-- A nested message that ends too early. -/
theorem readValue_cutMap {fs : Fields} {m : fs.Values} {n : Nat} (small : fs.length < 2 ^ 32)
    (not15 : fs.length ≠ 15) (positive : 0 < n) {depth : Nat}
    (entries : ∀ {is : InputStream} {k : Nat},
      n = (ToMsgPackVisitor.mapHeader (BitVec.ofNat 32 fs.length)).length + k → is.good →
      is.rest = (fs.msgPackEntries m).take k →
      ∃ is', readPairs uninit (readKeyValues uninit depth) fs.length [] is =
          some (KeyValueMap.assignAll [] (fs.told uninit m k), is') ∧
        is'.good = false)
    {is : InputStream} (hg : is.good) (hr : is.rest = (fs.msgPackBytes m).take n) :
    ∃ is', readValue uninit (readKeyValues uninit (depth + 1)) is =
        some (.keyValues (cutMap (ToMsgPackVisitor.mapHeader (BitVec.ofNat 32 fs.length))
          (fs.told uninit m) n), is') ∧
      is'.good = false := by
  obtain ⟨c, hs, header, family, _⟩ := readTokensToRead_mapHeader small not15
  obtain ⟨is', read, spoiled⟩ :=
    readKeyValues_cut uninit (fun _ => ⟨small, not15⟩) entries hg hr
  obtain ⟨k, rfl⟩ : ∃ k, n = k + 1 := ⟨n - 1, by omega⟩
  rw [Fields.msgPackBytes, header, List.cons_append, List.take_succ_cons] at hr
  refine ⟨is', ?_, spoiled⟩
  rw [readValue_cons uninit _ hg hr, family]
  simp only [read, Option.map_some]

theorem encodeUint_length_pos (v : BitVec 64) :
    0 < (ToMsgPackVisitor.encodeUint v).length := by
  obtain ⟨c, hs, bytes, _⟩ := readUint_encodeUint v
  rw [bytes]
  exact Nat.succ_pos _

theorem encodeSigned_length_pos {w : Nat} (v : BitVec w) (hw : w ≤ 64) :
    0 < (ToMsgPackVisitor.encodeSigned v).length := by
  rw [ToMsgPackVisitor.encodeSigned]
  split
  case isTrue negative =>
      obtain ⟨c, hs, bytes, _⟩ := readInt_encodeInt (v := v.signExtend 64) (by
        rwa [BitVec.toInt_signExtend_of_le hw])
      rw [bytes]
      exact Nat.succ_pos _
  case isFalse => exact encodeUint_length_pos _

theorem encode_length_pos (t : ScalarType) (v : t.Value) :
    0 < (ToMsgPackVisitor.encode t v).length := by
  cases t with
  | bool | float | double => exact Nat.succ_pos _
  | char | bytes | string => exact encodeString_length_pos _
  | int8 | int16 | int32 | int64 => exact encodeSigned_length_pos v (by omega)
  | uint8 | uint16 | uint32 | uint64 => exact encodeUint_length_pos _

theorem Fields.length_msgPackBytes (fs : Fields) (m : fs.Values) :
    (fs.msgPackBytes m).length =
      (ToMsgPackVisitor.mapHeader (BitVec.ofNat 32 fs.length)).length +
        (fs.msgPackEntries m).length := by
  rw [msgPackBytes, List.length_append]

/-- A message of which everything has arrived is readable. -/
theorem Fields.ReadableIn.whole (fs : Fields) :
    ∀ {m : fs.Values} {n : Nat}, fs.ReadableIn m n → (fs.msgPackEntries m).length ≤ n →
      fs.MsgPackReadable m := by
  induction fs with
  | nil => intro _ _ _ _; trivial
  | scalar field t rest ih =>
      rintro m n ⟨name, value, others⟩ all
      have positive := encodeString_length_pos field.name
      have positive' := encode_length_pos t m.1
      rw [msgPackEntries, List.length_append, List.length_append] at all
      exact ⟨name (by omega), value (by omega), ih others (by omega)⟩
  | nested field info inner rest ihInner ih =>
      rintro m n ⟨name, value, others⟩ all
      have positive := encodeString_length_pos field.name
      have positive' := mapHeader_length_pos (BitVec.ofNat 32 inner.length)
      have some : 0 < n := by
        rw [msgPackEntries, List.length_append, List.length_append] at all
        omega
      obtain ⟨readableName, short⟩ := name some
      have size := inner.length_msgPackBytes m.1
      rw [msgPackEntries_nested m short, List.length_append, List.length_append] at all
      obtain ⟨small, not15, readable⟩ := value (by omega)
      exact ⟨readableName, ⟨small, not15, short, ihInner readable (by omega)⟩,
        ih others (by omega)⟩

/-- A readable message is readable as far as it has arrived. -/
theorem Fields.MsgPackReadable.readableIn (fs : Fields) :
    ∀ {m : fs.Values}, fs.MsgPackReadable m → ∀ n, fs.ReadableIn m n := by
  induction fs with
  | nil => intro _ _ _; trivial
  | scalar field t rest ih =>
      rintro m ⟨name, value, others⟩ n
      exact ⟨fun _ => name, fun _ => value, ih others _⟩
  | nested field info inner rest ihInner ih =>
      rintro m ⟨name, ⟨small, not15, short, readable⟩, others⟩ n
      exact ⟨fun _ => ⟨name, short⟩, fun _ => ⟨small, not15, ihInner readable _⟩, ih others _⟩

/-- **The entries of a message that end too early.** -/
theorem readPairs_cut (fs : Fields) :
    ∀ {m : fs.Values} {n : Nat}, fs.ReadableIn m n → n < (fs.msgPackEntries m).length →
      ∀ {depth : Nat}, n ≤ depth → ∀ (before : KeyValueMap Bytes MsgPackAny) {is : InputStream},
        is.good → is.rest = (fs.msgPackEntries m).take n →
        ∃ is', readPairs uninit (readKeyValues uninit depth) fs.length before is =
            some (before.assignAll (fs.told uninit m n), is') ∧
          is'.good = false := by
  induction fs with
  | nil => intro _ _ _ short; cases short
  | scalar field t rest ih =>
      rintro m n ⟨name, value, readable⟩ short depth deep before is hg hr
      rw [Fields.msgPackEntries] at hr short
      rw [List.length_append, List.length_append] at short
      rw [Fields.told]
      by_cases whole : (ToMsgPackVisitor.encodeString field.name).length +
          (ToMsgPackVisitor.encode t m.1).length ≤ n
      · have positive := encodeString_length_pos field.name
        have positive' := encode_length_pos t m.1
        have readableName := name (by omega)
        have readableValue := value (by omega)
        obtain ⟨k, rfl⟩ := Nat.exists_eq_add_of_le whole
        rw [Nat.add_sub_cancel_left] at readable
        rw [← List.length_append, List.take_length_add_append] at hr
        have first := readPairs_entry uninit (readKeyValues uninit depth) readableName
          (readValue_encode uninit (readKeyValues uninit depth) t m.1 readableValue) rest.length
          before hg hr
        obtain ⟨is', others, spoiled⟩ := ih readable (by omega) (by omega : k ≤ depth)
          (before.assign field.name (.ofValue t m.1)) (good_advance_of hg _)
          (rest_advance_append hr)
        refine ⟨is', ?_, spoiled⟩
        rw [Fields.length, first, others]
        simp only [if_pos whole, Nat.add_sub_cancel_left]
        rfl
      · simp only [if_neg whole]
        rw [List.take_append_of_le_length (by rw [List.length_append]; omega)] at hr
        refine readPairs_cutEntry uninit _ name (Nat.not_le.mp whole) ?_ rest.length before hg hr
        rintro is₁ k rfl hg₁ hr₁
        exact readValue_cut uninit _ t m.1 (fun positive => value (by omega)) (by omega) hg₁ hr₁
  | nested field info inner rest ihInner ih =>
      rintro m n ⟨name, value, readable⟩ short depth deep before is hg hr
      have bytes := inner.length_msgPackBytes m.1
      have positive := encodeString_length_pos field.name
      have positive' := mapHeader_length_pos (BitVec.ofNat 32 inner.length)
      rw [Fields.told]
      by_cases whole : (ToMsgPackVisitor.encodeString field.name).length +
          (inner.msgPackBytes m.1).length ≤ n
      · obtain ⟨readableName, fits⟩ := name (by omega)
        obtain ⟨small, not15, readableInner⟩ := value (by omega)
        have wholeInner := readableInner.whole inner (by omega)
        have deepInner := inner.depth_le m.1 wholeInner
        rw [Fields.msgPackEntries_nested m fits] at hr short
        rw [List.length_append, List.length_append] at short
        obtain ⟨k, rfl⟩ := Nat.exists_eq_add_of_le whole
        obtain ⟨depth, rfl⟩ : ∃ d, depth = d + 1 := ⟨depth - 1, by omega⟩
        rw [Nat.add_sub_cancel_left] at readable
        rw [← List.length_append, List.take_length_add_append] at hr
        have first := readPairs_entry uninit (readKeyValues uninit (depth + 1)) readableName
          (readValue_msgPackBytes uninit small not15
            (readPairs_entries uninit inner wholeInner (by omega : inner.depth ≤ depth) []))
          rest.length before hg hr
        obtain ⟨is', others, spoiled⟩ := ih readable (by omega) (by omega : k ≤ depth + 1)
          (before.assign field.name
            (.keyValues (KeyValueMap.assignAll [] (inner.msgPackKeyValues m.1))))
          (good_advance_of hg _) (rest_advance_append hr)
        refine ⟨is', ?_, spoiled⟩
        rw [Fields.length, first, others]
        simp only [if_pos whole, Nat.add_sub_cancel_left]
        rfl
      · simp only [if_neg whole]
        have cut : is.rest = (ToMsgPackVisitor.encodeString field.name ++
            inner.msgPackBytes m.1).take n := by
          by_cases none : n = 0
          · rw [hr, none, List.take_zero, List.take_zero]
          · rw [hr, Fields.msgPackEntries_nested m (name (Nat.pos_of_ne_zero none)).2,
              List.take_append_of_le_length (by rw [List.length_append]; omega)]
        refine readPairs_cutEntry uninit _ (fun some => (name some).1) (Nat.not_le.mp whole) ?_
          rest.length before hg cut
        rintro is₁ k rfl hg₁ hr₁
        by_cases none : k = 0
        · have atEnd : AtEnd is₁ := .inr (by rw [hr₁, none, List.take_zero])
          obtain ⟨is', read, spoiled⟩ := readValue_atEnd uninit (readKeyValues uninit depth) atEnd
          exact ⟨is', by rw [read, if_pos none], spoiled⟩
        · obtain ⟨small, not15, readableInner⟩ := value (by omega)
          rw [Nat.add_sub_cancel_left] at readableInner
          obtain ⟨depth, rfl⟩ : ∃ d, depth = d + 1 := ⟨depth - 1, by omega⟩
          rw [if_neg none]
          refine readValue_cutMap uninit small not15 (Nat.pos_of_ne_zero none) ?_ hg₁ hr₁
          rintro is₂ k rfl hg₂ hr₂
          rw [Nat.add_sub_cancel_left] at readableInner
          exact ihInner readableInner (by omega) (by omega) [] hg₂ hr₂

end Read

end Cluon
