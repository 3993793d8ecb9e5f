import Cluon.MsgPack.FromMsgPackVisitor

/-!
# Reading MsgPack values

What the encoder writes for a value begins with a byte from whose format the decoder chooses
the right way to read it, and the bytes behind it give the value back: for strings
(`readString_encodeString`), for integers (`readUint_encodeUint`, `readInt_encodeInt`), for the
number of entries of a map (`readTokensToRead_mapHeader`), and so for all values of scalar
fields (`readValue_encode`). Two sizes are an exception: the byte `FIXSTR_END` stands for a
string of 31 bytes and `FIXMAP_END` for a map of 15 entries, but the decoder takes both for
the ends of the ranges and knows neither (`getFormatFamily_fixstrEnd`,
`getFormatFamily_fixmapEnd`).
-/

set_option autoImplicit false

namespace Cluon

open Library InputStream MsgPackConstants

/-! ## Formats -/

theorem getFormatFamily_uint {c : Byte} (h : c ≤ 0x7F) : getFormatFamily c = .uint := by
  revert c
  decide

theorem getFormatFamily_int {c : Byte} (h : 0xE0 ≤ c) : getFormatFamily c = .int := by
  revert c
  decide

theorem getFormatFamily_fixstrEnd : getFormatFamily fixstrEnd = .unknown := by decide

theorem getFormatFamily_fixmapEnd : getFormatFamily fixmapEnd = .unknown := by decide

/-! ## Single bytes -/

theorem getByte_cons {is : InputStream} {c : Byte} {t : Bytes} (hg : is.good)
    (hr : is.rest = c :: t) : getByte is = (c, is.advance 1) := by
  rw [getByte, get_cons hg hr]
  rfl

/-- The bytes behind the first one. -/
theorem rest_advance_one {is : InputStream} {c : Byte} {t : Bytes} (hr : is.rest = c :: t) :
    (is.advance 1).rest = t := by
  rw [rest_advance, hr, List.drop_one, List.tail_cons]

/-- Reading a number that fits into its bytes. -/
theorem readBigEndian_nat {n v : Nat} (fits : v < 256 ^ n) {is : InputStream} {t : Bytes}
    (hg : is.good) (hr : is.rest = beBytes n v ++ t) :
    readBigEndian n is = (v, is.advance n) := by
  have read := read_append hg hr
  rw [beBytes_length] at read
  simp only [readBigEndian, read, beBytes_length, Nat.sub_self, List.replicate_zero,
    List.append_nil, ofBeBytes_beBytes, Nat.mod_eq_of_lt fits]

/-- Reading some bytes as a number. -/
theorem readBigEndian_append {is : InputStream} {bytes t : Bytes} (hg : is.good)
    (hr : is.rest = bytes ++ t) :
    readBigEndian bytes.length is = (ofBeBytes bytes, is.advance bytes.length) := by
  simp only [readBigEndian, read_append hg hr, Nat.sub_self, List.replicate_zero, List.append_nil]

theorem beBytes_one (v : BitVec 8) : beBytes 1 v.toNat = [v] := by
  simp [beBytes, leBytes]

/-! ## Strings -/

/-- A string that the decoder reads back from the bytes of the encoder. -/
def ReadableString (s : Bytes) : Prop := s.length < 2 ^ 32 ∧ s.length ≠ 31

/-- A count is told by its first byte, or by the bytes behind it in big-endian order. -/
def ReadsCount (read : Byte → InputStream → Nat × InputStream) (n : Nat) (c : Byte) (hs : Bytes) :
    Prop :=
  (hs = [] ∧ ∀ is, read c is = (n, is)) ∨
    (hs = beBytes hs.length n ∧ n < 256 ^ hs.length ∧ ∀ is, read c is = readBigEndian hs.length is)

theorem ReadsCount.complete {read : Byte → InputStream → Nat × InputStream} {n : Nat} {c : Byte}
    {hs : Bytes} (reads : ReadsCount read n c hs) {is : InputStream} {t : Bytes} (hg : is.good)
    (hr : is.rest = hs ++ t) : read c is = (n, is.advance hs.length) := by
  rcases reads with ⟨rfl, told⟩ | ⟨bytes, fits, told⟩
  · rw [told]
    rfl
  · rw [bytes] at hr
    rw [told, readBigEndian_nat fits hg hr]

/-- The first byte of a string tells its length, perhaps with the bytes behind it. -/
theorem readStringLength_stringHeader {n : Nat} (short : n < 2 ^ 32) (not31 : n ≠ 31) :
    ∃ c hs, ToMsgPackVisitor.stringHeader (BitVec.ofNat 32 n) = c :: hs ∧
      getFormatFamily c = .str ∧ ReadsCount readStringLength n c hs := by
  have size : (BitVec.ofNat 32 n).toNat = n := by
    rw [BitVec.toNat_ofNat, Nat.mod_eq_of_lt short]
  rw [ToMsgPackVisitor.stringHeader]
  by_cases fix : n < 32
  · rw [if_pos (by rw [BitVec.lt_def, size]; exact fix)]
    have formats : ∀ n < 31,
        let c := fixstr ||| (BitVec.ofNat 32 n).setWidth 8
        getFormatFamily c = .str ∧ (fixstr ≤ c ∧ c < fixstrEnd) ∧ (c - fixstr).toNat = n := by
      decide
    obtain ⟨family, range, length⟩ := formats n (by omega)
    refine ⟨_, [], rfl, family, .inl ⟨rfl, fun is => ?_⟩⟩
    rw [readStringLength, if_pos range, length]
  rw [if_neg (by rw [BitVec.lt_def, size]; exact fix)]
  by_cases one : n ≤ 0xFF
  · rw [if_pos (by rw [BitVec.le_def, size]; exact one)]
    have low : (BitVec.setWidth 8 (BitVec.ofNat 32 n)).toNat = n := by
      rw [BitVec.toNat_setWidth, size, Nat.mod_eq_of_lt (by omega)]
    refine ⟨str8, _, rfl, by decide, .inr ⟨?_, by simp only [List.length_singleton]; omega,
      fun is => ?_⟩⟩
    · rw [List.length_singleton, ← beBytes_one, low]
    · rw [readStringLength, if_neg (by decide), if_pos rfl]
      rfl
  rw [if_neg (by rw [BitVec.le_def, size]; exact one)]
  by_cases two : n ≤ 0xFFFF
  · rw [if_pos (by rw [BitVec.le_def, size]; exact two)]
    refine ⟨str16, _, rfl, by decide, .inr ⟨?_, ?_, fun is => ?_⟩⟩
    · rw [beBytes_length, BitVec.toNat_setWidth, size, Nat.mod_eq_of_lt (by omega)]
    · rw [beBytes_length]
      omega
    · rw [readStringLength, if_neg (by decide), if_neg (by decide), if_pos rfl, beBytes_length]
  · rw [if_neg (by rw [BitVec.le_def, size]; exact two)]
    refine ⟨str32, _, rfl, by decide, .inr ⟨?_, ?_, fun is => ?_⟩⟩
    · rw [beBytes_length, size]
    · rw [beBytes_length]
      omega
    · rw [readStringLength, if_neg (by decide), if_neg (by decide), if_neg (by decide), if_pos rfl,
        beBytes_length]

/-- What the encoder writes for a string that is not too long. -/
theorem encodeString_eq {s : Bytes} (short : s.length < 2 ^ 32) :
    ToMsgPackVisitor.encodeString s =
      ToMsgPackVisitor.stringHeader (BitVec.ofNat 32 s.length) ++ s := by
  have size : (BitVec.ofNat 32 s.length).toNat = s.length := by
    rw [BitVec.toNat_ofNat, Nat.mod_eq_of_lt short]
  simp only [ToMsgPackVisitor.encodeString, size, List.take_length]

/-- The first byte of a string has the format of strings. -/
theorem encodeString_cons {s : Bytes} (readable : ReadableString s) :
    ∃ c t, ToMsgPackVisitor.encodeString s = c :: t ∧ getFormatFamily c = .str := by
  obtain ⟨c, hs, header, family, _⟩ := readStringLength_stringHeader readable.1 readable.2
  refine ⟨c, hs ++ s, ?_, family⟩
  rw [encodeString_eq readable.1, header, List.cons_append]

/-- **A string is read back.** -/
theorem readString_encodeString (uninit : Nat → Byte) {s : Bytes} (readable : ReadableString s)
    {is : InputStream} {t : Bytes} (hg : is.good)
    (hr : is.rest = ToMsgPackVisitor.encodeString s ++ t) :
    readString uninit is = (s, is.advance (ToMsgPackVisitor.encodeString s).length) := by
  obtain ⟨c, hs, header, family, length⟩ := readStringLength_stringHeader readable.1 readable.2
  rw [encodeString_eq readable.1, header] at hr ⊢
  rw [List.append_assoc, List.cons_append] at hr
  have behind := rest_advance_one hr
  have content := rest_advance_append behind
  have read := read_append (good_advance_of (good_advance_of hg 1) hs.length) content
  rw [readString, if_pos hg, getByte_cons hg hr]
  simp only [family, if_true, length.complete (good_advance_of hg 1) behind]
  by_cases empty : 0 < s.length
  · simp only [if_pos empty, read]
    rw [StringBuffer.str_of_le uninit le_rfl, List.take_length, List.length_append,
      List.length_cons, advance_advance, advance_advance, Nat.add_comm 1, Nat.add_right_comm]
  · obtain rfl : s = [] := List.length_eq_zero_iff.mp (by omega)
    simp [Nat.add_comm]

/-- The first byte of a string of 31 bytes is not the one of a string. -/
theorem encodeString_31 {s : Bytes} (h : s.length = 31) :
    ToMsgPackVisitor.encodeString s = fixstrEnd :: s := by
  have header : ToMsgPackVisitor.stringHeader (BitVec.ofNat 32 31) = [fixstrEnd] := by decide
  rw [encodeString_eq (by omega), h, header, List.singleton_append]

/-- Of a string of 31 bytes only the first byte of its encoding is read. -/
theorem readString_31 (uninit : Nat → Byte) {s : Bytes} (h : s.length = 31) {is : InputStream}
    {t : Bytes} (hg : is.good) (hr : is.rest = ToMsgPackVisitor.encodeString s ++ t) :
    readString uninit is = ([], is.advance 1) := by
  rw [encodeString_31 h, List.cons_append] at hr
  rw [readString, if_pos hg, getByte_cons hg hr]
  simp only [getFormatFamily_fixstrEnd, reduceCtorEq, if_false]

/-! ## Integers -/

/-- A word that is widened and then narrowed again. -/
theorem setWidth_signExtend {w v : Nat} (h : w ≤ v) (x : BitVec w) :
    (x.signExtend v).setWidth w = x := by
  apply BitVec.eq_of_toInt_eq
  rw [BitVec.toInt_setWidth, ← Int.bmod_bmod_of_dvd (Nat.pow_dvd_pow 2 h),
    ← BitVec.toInt_eq_toNat_bmod, BitVec.toInt_signExtend_of_le h, BitVec.toInt_eq_toNat_bmod,
    Int.bmod_bmod]

/-- A word that is narrowed and then widened again, if its value has room. -/
theorem signExtend_setWidth {w v : Nat} (h : w ≤ v) (x : BitVec v)
    (lower : -(2 ^ w / 2) ≤ x.toInt) (upper : x.toInt < (2 ^ w + 1) / 2) :
    (x.setWidth w).signExtend v = x := by
  apply BitVec.eq_of_toInt_eq
  rw [BitVec.toInt_signExtend_of_le h, BitVec.toInt_setWidth,
    ← Int.bmod_bmod_of_dvd (Nat.pow_dvd_pow 2 h), ← BitVec.toInt_eq_toNat_bmod]
  exact Int.bmod_eq_of_le (by exact_mod_cast lower) (by exact_mod_cast upper)

/-- A word that is narrowed, if its value has room, has the same value. -/
theorem toNat_setWidth_of_lt {w v : Nat} {x : BitVec v} (h : x.toNat < 2 ^ w) :
    (x.setWidth w).toNat = x.toNat := by
  rw [BitVec.toNat_setWidth, Nat.mod_eq_of_lt h]

/-- An integer is told by its first byte, or by the bytes behind it in big-endian order. -/
def ReadsInteger (read : InputStream → BitVec 64 × InputStream) (word : Nat → Nat → BitVec 64)
    (v : BitVec 64) (c : Byte) (hs : Bytes) : Prop :=
  (hs = [] ∧ ∀ {is : InputStream} {t : Bytes}, is.good → is.rest = c :: t →
      read is = (v, is.advance 1)) ∨
    (hs.length ≤ 8 ∧ word hs.length (ofBeBytes hs) = v ∧
      ∀ {is : InputStream} {t : Bytes}, is.good → is.rest = c :: t →
        read is = (word hs.length (readBigEndian hs.length (is.advance 1)).1,
          (readBigEndian hs.length (is.advance 1)).2))

theorem ReadsInteger.complete {read : InputStream → BitVec 64 × InputStream}
    {word : Nat → Nat → BitVec 64} {v : BitVec 64} {c : Byte} {hs : Bytes}
    (reads : ReadsInteger read word v c hs) {is : InputStream} {t : Bytes} (hg : is.good)
    (hr : is.rest = c :: (hs ++ t)) : read is = (v, is.advance (hs.length + 1)) := by
  rcases reads with ⟨rfl, told⟩ | ⟨_, same, told⟩
  · exact told hg hr
  · rw [told hg hr, readBigEndian_append (good_advance_of hg 1) (rest_advance_one hr), same,
      advance_advance, Nat.add_comm 1]

/-- The unsigned integer in some bytes. -/
def uintOf (_ v : Nat) : BitVec 64 := BitVec.ofNat 64 v

/-- The signed integer in some bytes. -/
def intOf (bytes v : Nat) : BitVec 64 := (BitVec.ofNat (8 * bytes) v).signExtend 64

/-- An unsigned integer with room in some bytes is read from them. -/
theorem uintOf_beBytes {w : Nat} {v : BitVec 64} (n : Nat) (hw : 2 ^ w = 256 ^ n)
    (fits : v.toNat < 2 ^ w) :
    uintOf (beBytes n (v.setWidth w).toNat).length (ofBeBytes (beBytes n (v.setWidth w).toNat)) =
      v := by
  rw [uintOf, ofBeBytes_beBytes, ← hw, Nat.mod_eq_of_lt (BitVec.isLt _),
    toNat_setWidth_of_lt fits, BitVec.ofNat_toNat, BitVec.setWidth_eq]

/-- A signed integer with room in some bytes is read from them. -/
theorem intOf_beBytes {v : BitVec 64} (n : Nat) (hn : 8 * n ≤ 64)
    (lower : -(2 ^ (8 * n) / 2) ≤ v.toInt) (upper : v.toInt < (2 ^ (8 * n) + 1) / 2) :
    intOf (beBytes n (v.setWidth (8 * n)).toNat).length
      (ofBeBytes (beBytes n (v.setWidth (8 * n)).toNat)) = v := by
  have hw : 2 ^ (8 * n) = 256 ^ n := by rw [pow_mul]; norm_num
  rw [intOf, ofBeBytes_beBytes, ← hw, Nat.mod_eq_of_lt (BitVec.isLt _), beBytes_length,
    BitVec.ofNat_toNat, BitVec.setWidth_eq, signExtend_setWidth hn v lower upper]

/-- What `readUint` does behind the first byte. -/
theorem readUint_cons {c : Byte} {is : InputStream} {t : Bytes}
    (family : getFormatFamily c = .uint) (hg : is.good) (hr : is.rest = c :: t) :
    readUint is =
      if c ≤ 0x7F then (c.setWidth 64, is.advance 1)
      else if uint8 = c then (readBigEndian 1 (is.advance 1)).map (BitVec.ofNat 64) id
      else if uint16 = c then (readBigEndian 2 (is.advance 1)).map (BitVec.ofNat 64) id
      else if uint32 = c then (readBigEndian 4 (is.advance 1)).map (BitVec.ofNat 64) id
      else (readBigEndian 8 (is.advance 1)).map (BitVec.ofNat 64) id := by
  rw [readUint, if_pos hg, getByte_cons hg hr]
  simp only [family, if_true]
  rfl

/-- **An unsigned integer is read back.** -/
theorem readUint_encodeUint (v : BitVec 64) :
    ∃ c hs, ToMsgPackVisitor.encodeUint v = c :: hs ∧ getFormatFamily c = .uint ∧
      ReadsInteger readUint uintOf v c hs := by
  rw [ToMsgPackVisitor.encodeUint]
  by_cases fix : v ≤ 0x7F
  · have small : v.toNat ≤ 0x7F := fix
    have low : (v.setWidth 8).toNat = v.toNat := toNat_setWidth_of_lt (by omega)
    have fix' : v.setWidth 8 ≤ 0x7F := by
      rw [BitVec.le_def, low]
      exact small
    rw [if_pos fix]
    refine ⟨_, [], rfl, getFormatFamily_uint fix', .inl ⟨rfl, fun hg hr => ?_⟩⟩
    rw [readUint_cons (getFormatFamily_uint fix') hg hr, if_pos fix']
    refine Prod.ext (BitVec.eq_of_toNat_eq ?_) rfl
    rw [BitVec.toNat_setWidth, low, Nat.mod_eq_of_lt v.isLt]
  rw [if_neg fix]
  by_cases one : v ≤ 0xFF
  · have small : v.toNat ≤ 0xFF := one
    have told := uintOf_beBytes (w := 8) 1 (by norm_num) (v := v) (by omega)
    rw [beBytes_one] at told
    rw [if_pos one]
    refine ⟨uint8, [v.setWidth 8], rfl, by decide, .inr ⟨by simp, told, fun hg hr => ?_⟩⟩
    rw [readUint_cons (by decide) hg hr, if_neg (by decide), if_pos rfl]
    rfl
  rw [if_neg one]
  by_cases two : v ≤ 0xFFFF
  · have small : v.toNat ≤ 0xFFFF := two
    rw [if_pos two]
    refine ⟨uint16, _, rfl, by decide, .inr ⟨by simp,
      uintOf_beBytes 2 (by norm_num) (by omega), fun hg hr => ?_⟩⟩
    rw [readUint_cons (by decide) hg hr, if_neg (by decide), if_neg (by decide), if_pos rfl,
      beBytes_length]
    rfl
  rw [if_neg two]
  by_cases four : v ≤ 0xFFFFFFFF
  · have small : v.toNat ≤ 0xFFFFFFFF := four
    rw [if_pos four]
    refine ⟨uint32, _, rfl, by decide, .inr ⟨by simp,
      uintOf_beBytes 4 (by norm_num) (by omega), fun hg hr => ?_⟩⟩
    rw [readUint_cons (by decide) hg hr, if_neg (by decide), if_neg (by decide), if_neg (by decide),
      if_pos rfl, beBytes_length]
    rfl
  · have told := uintOf_beBytes (w := 64) 8 (by norm_num) (v := v) v.isLt
    rw [BitVec.setWidth_eq] at told
    rw [if_neg four]
    refine ⟨uint64, _, rfl, by decide, .inr ⟨by simp, told, fun hg hr => ?_⟩⟩
    rw [readUint_cons (by decide) hg hr, if_neg (by decide), if_neg (by decide), if_neg (by decide),
      if_neg (by decide), beBytes_length]
    rfl

/-- What `readInt` does behind the first byte. -/
theorem readInt_cons {c : Byte} {is : InputStream} {t : Bytes}
    (family : getFormatFamily c = .int) (hg : is.good) (hr : is.rest = c :: t) :
    readInt is =
      if 0xE0 ≤ c then (c.signExtend 64, is.advance 1)
      else if int8 = c then
        (readBigEndian 1 (is.advance 1)).map (fun v => (BitVec.ofNat 8 v).signExtend 64) id
      else if int16 = c then
        (readBigEndian 2 (is.advance 1)).map (fun v => (BitVec.ofNat 16 v).signExtend 64) id
      else if int32 = c then
        (readBigEndian 4 (is.advance 1)).map (fun v => (BitVec.ofNat 32 v).signExtend 64) id
      else (readBigEndian 8 (is.advance 1)).map (BitVec.ofNat 64) id := by
  rw [readInt, if_pos hg, getByte_cons hg hr]
  simp only [family, if_true]
  rfl

/-- **A negative signed integer is read back.** -/
theorem readInt_encodeInt {v : BitVec 64} (negative : v.toInt < 0) :
    ∃ c hs, ToMsgPackVisitor.encodeInt v = c :: hs ∧ getFormatFamily c = .int ∧
      ReadsInteger readInt intOf v c hs := by
  have range := BitVec.two_mul_toInt_le (x := v)
  rw [ToMsgPackVisitor.encodeInt]
  by_cases fix : -31 ≤ v.toInt
  · have same := signExtend_setWidth (w := 8) (by omega) v (by omega) (by omega)
    have fix' : 0xE0 ≤ v.setWidth 8 := by
      have negative8 : (v.setWidth 8).toInt = v.toInt := by
        rw [← BitVec.toInt_signExtend_of_le (by omega : 8 ≤ 64), same]
      have split := BitVec.toInt_eq_toNat_cond (v.setWidth 8)
      rw [BitVec.le_def]
      simp only [BitVec.reduceToNat]
      split at split
      all_goals omega
    rw [if_pos fix]
    refine ⟨_, [], rfl, getFormatFamily_int fix', .inl ⟨rfl, fun hg hr => ?_⟩⟩
    rw [readInt_cons (getFormatFamily_int fix') hg hr, if_pos fix', same]
  rw [if_neg fix]
  by_cases one : -2 ^ 7 ≤ v.toInt
  · have told := intOf_beBytes 1 (by omega) (v := v) (by omega) (by omega)
    rw [beBytes_one] at told
    rw [if_pos one]
    refine ⟨int8, [v.setWidth 8], rfl, by decide, .inr ⟨by simp, told, fun hg hr => ?_⟩⟩
    rw [readInt_cons (by decide) hg hr, if_neg (by decide), if_pos rfl]
    rfl
  rw [if_neg one]
  by_cases two : -2 ^ 15 ≤ v.toInt
  · rw [if_pos two]
    refine ⟨int16, _, rfl, by decide, .inr ⟨by simp,
      intOf_beBytes 2 (by omega) (by omega) (by omega), fun hg hr => ?_⟩⟩
    rw [readInt_cons (by decide) hg hr, if_neg (by decide), if_neg (by decide), if_pos rfl,
      beBytes_length]
    rfl
  rw [if_neg two]
  by_cases four : -2 ^ 31 ≤ v.toInt
  · rw [if_pos four]
    refine ⟨int32, _, rfl, by decide, .inr ⟨by simp,
      intOf_beBytes 4 (by omega) (by omega) (by omega), fun hg hr => ?_⟩⟩
    rw [readInt_cons (by decide) hg hr, if_neg (by decide), if_neg (by decide), if_neg (by decide),
      if_pos rfl, beBytes_length]
    rfl
  · have lower := BitVec.le_two_mul_toInt (x := v)
    have told := intOf_beBytes 8 (by omega) (v := v) (by omega) (by omega)
    rw [BitVec.setWidth_eq] at told
    rw [if_neg four]
    refine ⟨int64, _, rfl, by decide, .inr ⟨by simp, told, fun hg hr => ?_⟩⟩
    rw [readInt_cons (by decide) hg hr, if_neg (by decide), if_neg (by decide), if_neg (by decide),
      if_neg (by decide), beBytes_length]
    simp only [intOf, Nat.reduceMul, BitVec.signExtend_eq]
    rfl

/-! ## Maps -/

/-- The first byte of a map tells its number of entries, perhaps with the bytes behind it. -/
theorem readTokensToRead_mapHeader {n : Nat} (small : n < 2 ^ 32) (not15 : n ≠ 15) :
    ∃ c hs, ToMsgPackVisitor.mapHeader (BitVec.ofNat 32 n) = c :: hs ∧
      getFormatFamily c = .map ∧ ReadsCount readTokensToRead n c hs := by
  have size : (BitVec.ofNat 32 n).toNat = n := by
    rw [BitVec.toNat_ofNat, Nat.mod_eq_of_lt small]
  rw [ToMsgPackVisitor.mapHeader]
  by_cases fix : n ≤ 0xF
  · rw [if_pos (by rw [BitVec.le_def, size]; exact fix)]
    have formats : ∀ n < 15,
        let c := fixmap ||| (BitVec.ofNat 32 n).setWidth 8
        getFormatFamily c = .map ∧ (fixmap ≤ c ∧ c < fixmapEnd) ∧ (c - fixmap).toNat = n := by
      decide
    obtain ⟨family, range, count⟩ := formats n (by omega)
    refine ⟨_, [], rfl, family, .inl ⟨rfl, fun is => ?_⟩⟩
    rw [readTokensToRead, if_pos range, count]
  rw [if_neg (by rw [BitVec.le_def, size]; exact fix)]
  by_cases two : n ≤ 0xFFFF
  · rw [if_pos (by rw [BitVec.le_def, size]; exact two)]
    refine ⟨map16, _, rfl, by decide, .inr ⟨?_, ?_, fun is => ?_⟩⟩
    · rw [beBytes_length, BitVec.toNat_setWidth, size, Nat.mod_eq_of_lt (by omega)]
    · rw [beBytes_length]
      omega
    · rw [readTokensToRead, if_neg (by decide), if_pos rfl, beBytes_length]
  · rw [if_neg (by rw [BitVec.le_def, size]; exact two)]
    refine ⟨map32, _, rfl, by decide, .inr ⟨?_, ?_, fun is => ?_⟩⟩
    · rw [beBytes_length, size]
    · rw [beBytes_length]
      omega
    · rw [readTokensToRead, if_neg (by decide), if_neg (by decide), if_pos rfl, beBytes_length]

theorem consumes_findMapBody : Consumes findMapBody := by
  intro s is hg _ hg'
  cases hr : is.rest with
  | nil =>
      simp only [findMapBody, getByte, get_nil hg hr] at hg'
      split at hg'
      all_goals simp at hg'
  | cons c t =>
      have behind := rest_advance_one hr
      rw [findMapBody, getByte_cons hg hr]
      simp only
      split
      all_goals simp [behind]

/-- A map that begins at once is found. -/
theorem findMap_cons {is : InputStream} {c : Byte} {t : Bytes} (family : getFormatFamily c = .map)
    (hg : is.good) (hr : is.rest = c :: t) : findMap is = (some c, is.advance 1) := by
  apply whileGood_break consumes_findMapBody hg
  rw [findMapBody, getByte_cons hg hr]
  simp only [family, if_true]

/-! ## Values -/

namespace MsgPackAny

/-- What the decoder stores for a signed value. -/
def ofSigned {w : Nat} (v : BitVec w) : MsgPackAny :=
  if v.toInt < 0 then .int64 (v.signExtend 64) else .uint64 (v.setWidth 64)

/-- What the decoder stores for the value of a scalar field. -/
def ofValue : (t : ScalarType) → t.Value → MsgPackAny
  | .bool, v => .bool v
  | .char, v => .string [v]
  | .int8, v => ofSigned v
  | .uint8, v => .uint64 (v.setWidth 64)
  | .int16, v => ofSigned v
  | .uint16, v => .uint64 (v.setWidth 64)
  | .int32, v => ofSigned v
  | .uint32, v => .uint64 (v.setWidth 64)
  | .int64, v => ofSigned v
  | .uint64, v => .uint64 v
  | .float, v => .float v
  | .double, v => .double v
  | .bytes, v => .string v
  | .string, v => .string v

theorem castToSigned_ofSigned {w : Nat} (h : w ≤ 64) (v : BitVec w) :
    castToSigned w (ofSigned v) = .ok v := by
  rw [ofSigned]
  split
  · rw [castToSigned, setWidth_signExtend h]
  · rw [castToSigned, BitVec.setWidth_setWidth_of_le _ h, BitVec.setWidth_eq]

theorem castToUnsigned_uint64 {w : Nat} (h : w ≤ 64) (v : BitVec w) :
    castToUnsigned w (.uint64 (v.setWidth 64)) = .ok v := by
  rw [castToUnsigned, BitVec.setWidth_setWidth_of_le _ h, BitVec.setWidth_eq]

/-- **A decoder casts the entry back to the value.** -/
theorem castTo_ofValue (t : ScalarType) (v : t.Value) : castTo t (ofValue t v) = .ok v := by
  cases t with
  | int8 | int16 | int32 | int64 => exact castToSigned_ofSigned (by omega) v
  | uint8 | uint16 | uint32 => exact castToUnsigned_uint64 (by omega) v
  | uint64 => exact congrArg Except.ok (BitVec.setWidth_eq v)
  | bool | char | float | double | bytes | string => rfl

end MsgPackAny

/-- A value of a scalar field that the decoder reads back from the bytes of the encoder. -/
def ScalarType.MsgPackReadable : (t : ScalarType) → t.Value → Prop
  | .bytes, s | .string, s => ReadableString s
  | _, _ => True

section Value

variable (uninit : Nat → Byte)
  (readKeyValues : InputStream → Option (KeyValueMap Bytes MsgPackAny × InputStream))

/-- Reading a value starts from its first byte, which most formats put back. -/
theorem readValue_cons {is : InputStream} {c : Byte} {t : Bytes} (hg : is.good)
    (hr : is.rest = c :: t) :
    readValue uninit readKeyValues is =
      match getFormatFamily c with
      | .bool => some (.bool (decide (c = MsgPackConstants.isTrue)), is.advance 1)
      | .uint => some (.uint64 (readUint is).1, (readUint is).2)
      | .int => some (.int64 (readInt is).1, (readInt is).2)
      | .float =>
          if c = float then
            some (.float (BitVec.ofNat 32 (readBigEndian 4 (is.advance 1)).1),
              (readBigEndian 4 (is.advance 1)).2)
          else
            some (.double (BitVec.ofNat 64 (readBigEndian 8 (is.advance 1)).1),
              (readBigEndian 8 (is.advance 1)).2)
      | .str => some (.string (readString uninit is).1, (readString uninit is).2)
      | .map => (readKeyValues is).map fun (m, is') => (.keyValues m, is')
      | .unknown => some (.empty, is.advance 1) := by
  rw [readValue, getByte_cons hg hr]
  cases family : getFormatFamily c with
  | bool | float | unknown => simp only [family]
  | uint | int | str | map => simp only [family, unget_advance_one hg]

theorem readValue_encodeUint (v : BitVec 64) {is : InputStream} {t : Bytes} (hg : is.good)
    (hr : is.rest = ToMsgPackVisitor.encodeUint v ++ t) :
    readValue uninit readKeyValues is =
      some (.uint64 v, is.advance (ToMsgPackVisitor.encodeUint v).length) := by
  obtain ⟨c, hs, bytes, family, read⟩ := readUint_encodeUint v
  rw [bytes, List.cons_append] at hr
  rw [readValue_cons uninit readKeyValues hg hr, family, bytes, List.length_cons]
  simp only [read.complete hg hr]

theorem readValue_encodeString {s : Bytes} (readable : ReadableString s) {is : InputStream}
    {t : Bytes} (hg : is.good) (hr : is.rest = ToMsgPackVisitor.encodeString s ++ t) :
    readValue uninit readKeyValues is =
      some (.string s, is.advance (ToMsgPackVisitor.encodeString s).length) := by
  obtain ⟨c, hs, bytes, family⟩ := encodeString_cons readable
  have first := hr
  rw [bytes, List.cons_append] at first
  rw [readValue_cons uninit readKeyValues hg first, family]
  simp only [readString_encodeString uninit readable hg hr]

theorem readValue_encodeSigned {w : Nat} (hw : w ≤ 64) (v : BitVec w) {is : InputStream}
    {t : Bytes} (hg : is.good) (hr : is.rest = ToMsgPackVisitor.encodeSigned v ++ t) :
    readValue uninit readKeyValues is =
      some (.ofSigned v, is.advance (ToMsgPackVisitor.encodeSigned v).length) := by
  rw [ToMsgPackVisitor.encodeSigned, MsgPackAny.ofSigned] at *
  by_cases negative : v.toInt < 0
  · rw [if_pos negative] at hr
    rw [if_pos negative, if_pos negative]
    obtain ⟨c, hs, bytes, family, read⟩ := readInt_encodeInt (v := v.signExtend 64) (by
      rwa [BitVec.toInt_signExtend_of_le hw])
    rw [bytes, List.cons_append] at hr
    rw [readValue_cons uninit readKeyValues hg hr, family, bytes, List.length_cons]
    simp only [read.complete hg hr]
  · rw [if_neg negative] at hr
    rw [if_neg negative, if_neg negative]
    exact readValue_encodeUint uninit readKeyValues _ hg hr

/-- **The value of a scalar field is read back.** -/
theorem readValue_encode (t : ScalarType) (v : t.Value) (readable : t.MsgPackReadable v)
    {is : InputStream} {rest : Bytes} (hg : is.good)
    (hr : is.rest = ToMsgPackVisitor.encode t v ++ rest) :
    readValue uninit readKeyValues is =
      some (.ofValue t v, is.advance (ToMsgPackVisitor.encode t v).length) := by
  cases t with
  | bool =>
      rw [readValue_cons uninit readKeyValues hg hr]
      cases v <;> rfl
  | char => exact readValue_encodeString uninit readKeyValues ⟨by simp, by simp⟩ hg hr
  | int8 | int16 | int32 | int64 =>
      exact readValue_encodeSigned uninit readKeyValues (by omega) v hg hr
  | uint8 | uint16 | uint32 | uint64 => exact readValue_encodeUint uninit readKeyValues _ hg hr
  | float =>
      have first : is.rest = float :: (beBytes 4 (BitVec.toNat v) ++ rest) := hr
      obtain ⟨moved, value⟩ := readBigEndian_beBytes (w := 32) 4 (by norm_num) v
        (good_advance_of hg 1) (rest_advance_one first)
      have family : getFormatFamily float = .float := by decide
      rw [readValue_cons uninit readKeyValues hg first, family]
      simp only [if_true, moved, value, advance_advance]
      exact congrArg (fun n => some (MsgPackAny.float v, is.advance (n + 1)))
        (beBytes_length 4 (BitVec.toNat v)).symm
  | double =>
      have first : is.rest = double :: (beBytes 8 (BitVec.toNat v) ++ rest) := hr
      obtain ⟨moved, value⟩ := readBigEndian_beBytes (w := 64) 8 (by norm_num) v
        (good_advance_of hg 1) (rest_advance_one first)
      have family : getFormatFamily double = .float := by decide
      have other : ¬ double = float := by decide
      rw [readValue_cons uninit readKeyValues hg first, family]
      simp only [if_neg other, moved, value, advance_advance]
      exact congrArg (fun n => some (MsgPackAny.double v, is.advance (n + 1)))
        (beBytes_length 8 (BitVec.toNat v)).symm
  | bytes | string => exact readValue_encodeString uninit readKeyValues readable hg hr

end Value

end Cluon
