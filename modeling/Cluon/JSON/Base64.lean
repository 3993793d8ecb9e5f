import Cluon.JSON.FromJSONVisitor
import Mathlib.Data.Nat.Bitwise

/-!
# The base64 round trip

The encoder takes three bytes after the other, as long as its index does not overflow
(`encodeBase64_eq`); of every four characters the decoder makes the three bytes again, or those
of them that are not padding, and it ignores up to three characters behind the text
(`decodeBase64_encodeBase64`). `base64_readsBack` puts this together with the length of the text
and its padding.
-/

set_option autoImplicit false

namespace Cluon

open Library JSON

/-! ## The groups of the encoder -/

/-- Six bits of three bytes, the lowest of which is at a given place. -/
def sextet (a b c : Byte) (place : Nat) : Nat :=
  (a.toNat * 65536 + b.toNat * 256 + c.toNat) / 2 ^ place % 64

/-- The character for six bits. -/
def sextetChar (i : Nat) : Byte := base64Alphabet.getD i 0

/-- The text of a list of bytes. -/
def base64Groups : Bytes → Bytes
  | a :: b :: c :: s =>
      sextetChar (sextet a b c 18) :: sextetChar (sextet a b c 12) ::
        sextetChar (sextet a b c 6) :: sextetChar (sextet a b c 0) :: base64Groups s
  | [a, b] =>
      [sextetChar (sextet a b 0 18), sextetChar (sextet a b 0 12), sextetChar (sextet a b 0 6),
        0x3D]
  | [a] => [sextetChar (sextet a 0 0 18), sextetChar (sextet a 0 0 12), 0x3D, 0x3D]
  | [] => []

/-- The word that the encoder puts together. -/
theorem toNat_packed (a b c : Byte) :
    (a.setWidth 32 <<< 16 ||| b.setWidth 32 <<< 8 ||| c.setWidth 32 : BitVec 32).toNat =
      a.toNat * 65536 + b.toNat * 256 + c.toNat := by
  have ha := a.isLt
  have hb := b.isLt
  have hc := c.isLt
  have wide (x : Byte) : (x.setWidth 32).toNat = x.toNat := by
    rw [BitVec.toNat_setWidth, Nat.mod_eq_of_lt (by omega)]
  have upper : (a.setWidth 32 <<< 16 : BitVec 32).toNat = a.toNat <<< 16 := by
    rw [BitVec.toNat_shiftLeft, wide, Nat.mod_eq_of_lt (by rw [Nat.shiftLeft_eq]; omega)]
  have middle : (b.setWidth 32 <<< 8 : BitVec 32).toNat = b.toNat <<< 8 := by
    rw [BitVec.toNat_shiftLeft, wide, Nat.mod_eq_of_lt (by rw [Nat.shiftLeft_eq]; omega)]
  rw [BitVec.toNat_or, BitVec.toNat_or, upper, middle, wide,
    ← Nat.shiftLeft_add_eq_or_of_lt (by rw [Nat.shiftLeft_eq]; omega)]
  have both : a.toNat <<< 16 + b.toNat <<< 8 = (a.toNat * 256 + b.toNat) <<< 8 := by
    simp only [Nat.shiftLeft_eq]
    omega
  rw [both, ← Nat.shiftLeft_add_eq_or_of_lt hc, Nat.shiftLeft_eq]
  omega

/-- Masking six bits and shifting them down. -/
theorem toNat_mask_shift (v : BitVec 32) (place : Nat) (small : place ≤ 18) :
    ((v &&& BitVec.ofNat 32 (63 <<< place)) >>> place).toNat = v.toNat / 2 ^ place % 64 := by
  have mask : (BitVec.ofNat 32 (63 <<< place)).toNat = 63 <<< place := by
    rw [BitVec.toNat_ofNat, Nat.mod_eq_of_lt]
    rw [Nat.shiftLeft_eq]
    calc 63 * 2 ^ place ≤ 63 * 2 ^ 18 :=
          Nat.mul_le_mul_left 63 (Nat.pow_le_pow_right (by norm_num) small)
      _ < 2 ^ 32 := by norm_num
  rw [BitVec.toNat_ushiftRight, BitVec.toNat_and, mask, Nat.shiftRight_and_distrib,
    Nat.shiftLeft_shiftRight, Nat.shiftRight_eq_div_pow]
  exact Nat.and_two_pow_sub_one_eq_mod _ 6

/-- The characters of a group. -/
theorem base64Char_packed (a b c : Byte) :
    let value : BitVec 32 := a.setWidth 32 <<< 16 ||| b.setWidth 32 <<< 8 ||| c.setWidth 32
    base64Char ((value &&& 0xFC0000) >>> 18) = sextetChar (sextet a b c 18) ∧
      base64Char ((value &&& 0x3F000) >>> 12) = sextetChar (sextet a b c 12) ∧
      base64Char ((value &&& 0xFC0) >>> 6) = sextetChar (sextet a b c 6) ∧
      base64Char (value &&& 0x3F) = sextetChar (sextet a b c 0) := by
  intro value
  have packed : value.toNat = a.toNat * 65536 + b.toNat * 256 + c.toNat := toNat_packed a b c
  have six (place : Nat) (small : place ≤ 18) :
      base64Char ((value &&& BitVec.ofNat 32 (63 <<< place)) >>> place) =
        sextetChar (sextet a b c place) := by
    rw [base64Char, toNat_mask_shift value place small, packed]
    rfl
  refine ⟨six 18 (by norm_num), six 12 (by norm_num), six 6 (by norm_num), ?_⟩
  have last := six 0 (by norm_num)
  rwa [BitVec.ushiftRight_zero] at last

/-- The byte at a place, if the index does not overflow. -/
theorem getD_ofNat {input : Bytes} (small : input.length < 2 ^ 32) {before t : Bytes} {x : Byte}
    (split : input = before ++ x :: t) :
    input.getD (BitVec.ofNat 32 before.length).toNat 0 = x := by
  have length : before.length < 2 ^ 32 := by
    rw [split, List.length_append] at small
    omega
  rw [BitVec.toNat_ofNat, Nat.mod_eq_of_lt length, split]
  simp

/-- The encoder from a place on, as long as its index does not overflow. -/
theorem encodeBase64From_eq {input : Bytes} (small : input.length < 2 ^ 32) (s : Bytes) :
    ∀ before : Bytes, input = before ++ s →
      encodeBase64From input s.length (BitVec.ofNat 32 before.length) = base64Groups s := by
  have next (before : Bytes) (x : Byte) :
      BitVec.ofNat 32 before.length + 1 = BitVec.ofNat 32 (before ++ [x]).length := by
    rw [List.length_append, BitVec.ofNat_add]
    rfl
  have noThird (x : BitVec 32) : x ||| (0 : Byte).setWidth 32 = x := BitVec.or_zero
  have noSecond (x : BitVec 32) : x ||| (0 : Byte).setWidth 32 <<< 8 = x := BitVec.or_zero
  induction s using base64Groups.induct with
  | case1 a b c s ih =>
      intro before split
      have first := getD_ofNat small split
      have split₁ : input = (before ++ [a]) ++ b :: c :: s := by rw [split]; simp
      have second := getD_ofNat small split₁
      have split₂ : input = (before ++ [a] ++ [b]) ++ c :: s := by rw [split]; simp
      have third := getD_ofNat small split₂
      have split₃ : input = (before ++ [a] ++ [b] ++ [c]) ++ s := by rw [split]; simp
      have others := ih _ split₃
      have one : BitVec.ofNat 32 before.length + 2 = BitVec.ofNat 32 before.length + 1 + 1 := by
        rw [BitVec.add_assoc]
        rfl
      have three : BitVec.ofNat 32 before.length + 3 =
          BitVec.ofNat 32 before.length + 1 + 1 + 1 := by
        rw [BitVec.add_assoc, BitVec.add_assoc]
        rfl
      obtain ⟨h18, h12, h6, h0⟩ := base64Char_packed a b c
      rw [next before a, next (before ++ [a]) b] at one
      rw [next before a, next (before ++ [a]) b, next (before ++ [a] ++ [b]) c] at three
      rw [List.length_cons, List.length_cons, List.length_cons, encodeBase64From, base64Groups]
      simp only [next before a, one, three, first, second, third, h18, h12, h6, h0, others]
  | case2 a b =>
      intro before split
      have first := getD_ofNat small split
      have split₁ : input = (before ++ [a]) ++ b :: [] := by rw [split]; simp
      have second := getD_ofNat small split₁
      obtain ⟨h18, h12, h6, _⟩ := base64Char_packed a b 0
      rw [noThird] at h18 h12 h6
      simp only [List.length_cons, List.length_nil, encodeBase64From, base64Groups,
        next before a, first, second, h18, h12, h6]
  | case3 a =>
      intro before split
      have first := getD_ofNat small split
      obtain ⟨h18, h12, _, _⟩ := base64Char_packed a 0 0
      rw [noThird, noSecond] at h18 h12
      simp only [List.length_cons, List.length_nil, encodeBase64From, base64Groups, first, h18,
        h12]
  | case4 => intro _ _; rfl

/-- **The encoder writes the groups of its input.** -/
theorem encodeBase64_eq {input : Bytes} (small : input.length < 2 ^ 32) :
    encodeBase64 input = base64Groups input :=
  encodeBase64From_eq small input [] rfl

/-- The length of a text. -/
theorem length_encodeBase64From (input : Bytes) (length : Nat) :
    ∀ index : BitVec 32, (encodeBase64From input length index).length = 4 * ((length + 2) / 3) := by
  induction length using Nat.strong_induction_on with
  | _ length ih =>
      intro index
      match length, ih with
      | 0, _ => rfl
      | 1, _ => rfl
      | 2, _ => rfl
      | length + 3, ih =>
          simp only [encodeBase64From, List.length_cons, ih length (by omega)]
          omega

theorem length_encodeBase64 (input : Bytes) :
    (encodeBase64 input).length = 4 * ((input.length + 2) / 3) :=
  length_encodeBase64From input input.length 0

/-! ## The groups of the decoder -/

theorem length_base64Alphabet : base64Alphabet.length = 64 := by
  rw [show base64Alphabet = _ from asciiBytes_ofList _]
  rfl

theorem nodup_base64Alphabet : base64Alphabet.Nodup := by
  rw [show base64Alphabet = _ from asciiBytes_ofList _]
  decide +kernel

/-- The character for six bits is that at their position in the alphabet. -/
theorem sextetChar_eq {i : Nat} (bound : i < base64Alphabet.length) :
    sextetChar i = base64Alphabet[i] := by
  rw [sextetChar, List.getD_eq_getElem?_getD, List.getElem?_eq_getElem bound, Option.getD_some]

/-- The position of the character for six bits. -/
theorem base64Value_sextetChar {i : Nat} (h : i < 64) :
    base64Value (sextetChar i) = BitVec.ofNat 8 i := by
  have bound : i < base64Alphabet.length := length_base64Alphabet ▸ h
  rw [base64Value, sextetChar_eq bound, nodup_base64Alphabet.idxOf_getElem]

theorem mem_alphabet_sextetChar {i : Nat} (h : i < 64) : sextetChar i ∈ base64Alphabet := by
  have bound : i < base64Alphabet.length := length_base64Alphabet ▸ h
  rw [sextetChar_eq bound]
  exact List.getElem_mem bound

theorem base64Value_padding : base64Value 0x3D = 64 := by decide

theorem sextet_lt (a b c : Byte) (place : Nat) : sextet a b c place < 64 :=
  Nat.mod_lt _ (by norm_num)

/-- The four groups of six bits of three bytes. -/
theorem sextet_eq (a b c : Byte) :
    sextet a b c 18 = a.toNat / 4 ∧ sextet a b c 12 = a.toNat % 4 * 16 + b.toNat / 16 ∧
      sextet a b c 6 = b.toNat % 16 * 4 + c.toNat / 64 ∧ sextet a b c 0 = c.toNat % 64 := by
  have ha := a.isLt
  have hb := b.isLt
  have hc := c.isLt
  simp only [sextet, Nat.reducePow]
  refine ⟨?_, ?_, ?_, ?_⟩
  · omega
  · omega
  · omega
  · omega

/-- The three bytes of four groups of six bits. -/
theorem decodeBase64Group_sextets (a b c : Byte) :
    let b₀ := BitVec.ofNat 8 (sextet a b c 18)
    let b₁ := BitVec.ofNat 8 (sextet a b c 12)
    let b₂ := BitVec.ofNat 8 (sextet a b c 6)
    let b₃ := BitVec.ofNat 8 (sextet a b c 0)
    (b₀ <<< 2) + (b₁ >>> 4) = a ∧ (b₁ <<< 4) + (b₂ >>> 2) = b ∧ (b₂ <<< 6) + b₃ = c := by
  have ha := a.isLt
  have hb := b.isLt
  have hc := c.isLt
  obtain ⟨first, second, third, fourth⟩ := sextet_eq a b c
  rw [first, second, third, fourth]
  refine ⟨?_, ?_, ?_⟩
  all_goals
    apply BitVec.eq_of_toNat_eq
    simp only [BitVec.toNat_add, BitVec.toNat_shiftLeft, BitVec.toNat_ushiftRight,
      BitVec.toNat_ofNat, Nat.shiftLeft_eq, Nat.shiftRight_eq_div_pow, Nat.reducePow]
    omega

theorem ofNat_ne_64 {i : Nat} (h : i < 64) : BitVec.ofNat 8 i ≠ 64 := by
  revert i
  decide

/-- Up to three characters are left over. -/
theorem decodeBase64Groups_short {tail : Bytes} (short : tail.length < 4) :
    decodeBase64Groups tail = [] := by
  rcases tail with _ | ⟨_, _ | ⟨_, _ | ⟨_, _ | ⟨_, _⟩⟩⟩⟩
  · rfl
  · rfl
  · rfl
  · rfl
  · simp only [List.length_cons] at short
    omega

/-- **Decoding the groups of a list of bytes**, with up to three characters behind them. -/
theorem decodeBase64Groups_base64Groups (s : Bytes) {tail : Bytes} (short : tail.length < 4) :
    decodeBase64Groups (base64Groups s ++ tail) = s := by
  induction s using base64Groups.induct with
  | case1 a b c s ih =>
      obtain ⟨first, second, third⟩ := decodeBase64Group_sextets a b c
      simp only [base64Groups, List.cons_append, decodeBase64Groups,
        base64Value_sextetChar (sextet_lt a b c _), decodeBase64Group,
        if_pos (ofNat_ne_64 (sextet_lt a b c _)), first, second, third, ih, List.nil_append]
  | case2 a b =>
      obtain ⟨first, second, _⟩ := decodeBase64Group_sextets a b 0
      have padding : ¬ (64 : BitVec 8) ≠ 64 := not_not.mpr rfl
      simp only [base64Groups, List.cons_append, List.nil_append, decodeBase64Groups,
        base64Value_sextetChar (sextet_lt a b 0 _), base64Value_padding, decodeBase64Group,
        if_pos (ofNat_ne_64 (sextet_lt a b 0 _)), if_neg padding, first, second,
        decodeBase64Groups_short short, List.append_nil]
  | case3 a =>
      obtain ⟨first, _, _⟩ := decodeBase64Group_sextets a 0 0
      have padding : ¬ (64 : BitVec 8) ≠ 64 := not_not.mpr rfl
      simp only [base64Groups, List.cons_append, List.nil_append, decodeBase64Groups,
        base64Value_sextetChar (sextet_lt a 0 0 _), base64Value_padding, decodeBase64Group,
        if_neg padding, first, decodeBase64Groups_short short, List.append_nil]
  | case4 => exact decodeBase64Groups_short short

/-- No more than three bytes come out of four characters. -/
theorem length_decodeBase64Groups (text : Bytes) :
    (decodeBase64Groups text).length ≤ 3 * (text.length / 4) := by
  induction text using decodeBase64Groups.induct with
  | case1 c₀ c₁ c₂ c₃ s ih =>
      have group : (decodeBase64Group (base64Value c₀) (base64Value c₁) (base64Value c₂)
          (base64Value c₃)).length ≤ 3 := by
        rw [decodeBase64Group]
        split_ifs
        all_goals simp
      simp only [decodeBase64Groups, List.length_append, List.length_cons]
      omega
  | case2 text other =>
      rw [decodeBase64Groups]
      · exact Nat.zero_le _
      · exact other

/-- **The base64 round trip**, also with the closing quote behind the text. -/
theorem decodeBase64_encodeBase64 {s tail : Bytes} (small : s.length ≤ 3 * (2 ^ 30 - 1))
    (short : tail.length < 4) : decodeBase64 (encodeBase64 s ++ tail) = some s := by
  have length : (encodeBase64 s ++ tail).length < 2 ^ 32 := by
    rw [List.length_append, length_encodeBase64]
    omega
  rw [decodeBase64, if_pos length, encodeBase64_eq (by omega),
    decodeBase64Groups_base64Groups s short]

/-! ## The characters of a text -/

/-- A character that the encoder writes. -/
def isBase64 (c : Byte) : Bool := base64Alphabet.contains c || c == 0x3D

theorem isBase64_sextetChar {i : Nat} (h : i < 64) : isBase64 (sextetChar i) := by
  rw [isBase64, List.contains_iff_mem.mpr (mem_alphabet_sextetChar h), Bool.true_or]

theorem isBase64_mask_shift (v : BitVec 32) {place : Nat} (small : place ≤ 18) :
    isBase64 (base64Char ((v &&& BitVec.ofNat 32 (63 <<< place)) >>> place)) := by
  rw [base64Char, toNat_mask_shift v place small]
  exact isBase64_sextetChar (Nat.mod_lt _ (by norm_num))

/-- All characters of a text are characters of the alphabet, or padding. -/
theorem all_isBase64From (input : Bytes) (length : Nat) :
    ∀ (index : BitVec 32), ∀ c ∈ encodeBase64From input length index, isBase64 c := by
  have high (v : BitVec 32) := isBase64_mask_shift v (show 18 ≤ 18 by norm_num)
  have third (v : BitVec 32) := isBase64_mask_shift v (show 12 ≤ 18 by norm_num)
  have second (v : BitVec 32) := isBase64_mask_shift v (show 6 ≤ 18 by norm_num)
  have low (v : BitVec 32) : isBase64 (base64Char (v &&& 0x3F)) := by
    have zero := isBase64_mask_shift v (show 0 ≤ 18 by norm_num)
    rwa [BitVec.ushiftRight_zero] at zero
  have padding : isBase64 0x3D := by decide
  induction length using Nat.strong_induction_on with
  | _ length ih =>
      intro index c hc
      match length, ih with
      | 0, _ => cases hc
      | 1, _ =>
          simp only [encodeBase64From, List.mem_cons, List.not_mem_nil, or_false] at hc
          rcases hc with rfl | rfl | rfl | rfl
          · exact high _
          · exact third _
          · exact padding
          · exact padding
      | 2, _ =>
          simp only [encodeBase64From, List.mem_cons, List.not_mem_nil, or_false] at hc
          rcases hc with rfl | rfl | rfl | rfl
          · exact high _
          · exact third _
          · exact second _
          · exact padding
      | length + 3, ih =>
          simp only [encodeBase64From, List.mem_cons] at hc
          rcases hc with rfl | rfl | rfl | rfl | hc
          · exact high _
          · exact third _
          · exact second _
          · exact low _
          · exact ih length (by omega) _ c hc

theorem all_isBase64 (input : Bytes) : ∀ c ∈ encodeBase64 input, isBase64 c :=
  all_isBase64From input input.length 0

/-! ## Padding -/

/-- How many characters of padding a text of so many bytes needs. -/
def paddingLength (length : Nat) : Nat := (3 - length % 3) % 3

/-- The groups are characters of the alphabet, with the padding behind them. -/
theorem base64Groups_padding (s : Bytes) :
    ∃ text, base64Groups s = text ++ List.replicate (paddingLength s.length) 0x3D ∧
      ∀ c ∈ text, c ∈ base64Alphabet := by
  have inAlphabet (a b c : Byte) (place : Nat) :
      sextetChar (sextet a b c place) ∈ base64Alphabet :=
    mem_alphabet_sextetChar (sextet_lt a b c place)
  induction s using base64Groups.induct with
  | case1 a b c s ih =>
      obtain ⟨text, split, all⟩ := ih
      have same : paddingLength (a :: b :: c :: s).length = paddingLength s.length := by
        simp only [paddingLength, List.length_cons, Nat.add_assoc, Nat.reduceAdd,
          Nat.add_mod_right]
      refine ⟨sextetChar (sextet a b c 18) :: sextetChar (sextet a b c 12) ::
        sextetChar (sextet a b c 6) :: sextetChar (sextet a b c 0) :: text, ?_, ?_⟩
      · rw [base64Groups, split, same]
        rfl
      · intro d hd
        simp only [List.mem_cons] at hd
        rcases hd with rfl | rfl | rfl | rfl | hd
        · exact inAlphabet a b c 18
        · exact inAlphabet a b c 12
        · exact inAlphabet a b c 6
        · exact inAlphabet a b c 0
        · exact all d hd
  | case2 a b =>
      refine ⟨[sextetChar (sextet a b 0 18), sextetChar (sextet a b 0 12),
        sextetChar (sextet a b 0 6)], rfl, ?_⟩
      intro d hd
      simp only [List.mem_cons, List.not_mem_nil, or_false] at hd
      rcases hd with rfl | rfl | rfl
      · exact inAlphabet a b 0 18
      · exact inAlphabet a b 0 12
      · exact inAlphabet a b 0 6
  | case3 a =>
      refine ⟨[sextetChar (sextet a 0 0 18), sextetChar (sextet a 0 0 12)], rfl, ?_⟩
      intro d hd
      simp only [List.mem_cons, List.not_mem_nil, or_false] at hd
      rcases hd with rfl | rfl
      · exact inAlphabet a 0 0 18
      · exact inAlphabet a 0 0 12
  | case4 => exact ⟨[], rfl, fun d hd => absurd hd List.not_mem_nil⟩

/-- **Base64 is read back as it was written**, with or without the closing quote behind it, and
its text has four characters for three bytes, with the padding that the last ones need. -/
theorem base64_readsBack {s : Bytes} (small : s.length ≤ 3000000000) :
    decodeBase64 (encodeBase64 s) = some s ∧
      decodeBase64 (encodeBase64 s ++ [quote]) = some s ∧
      (encodeBase64 s).length = 4 * ((s.length + 2) / 3) ∧
      ∃ text, encodeBase64 s = text ++ List.replicate (paddingLength s.length) 0x3D ∧
        ∀ c ∈ text, c ∈ base64Alphabet := by
  have enough : s.length ≤ 3 * (2 ^ 30 - 1) := small.trans (by norm_num)
  have alone : decodeBase64 (encodeBase64 s ++ []) = some s :=
    decodeBase64_encodeBase64 enough (by norm_num)
  rw [List.append_nil] at alone
  refine ⟨alone, decodeBase64_encodeBase64 enough (by norm_num), length_encodeBase64 s, ?_⟩
  rw [encodeBase64_eq (small.trans_lt (by norm_num))]
  exact base64Groups_padding s

theorem base64_readsBack_two :
    decodeBase64 (encodeBase64 [0xFF, 0x00]) = some [0xFF, 0x00] ∧
      decodeBase64 (encodeBase64 [0xFF, 0x00] ++ [quote]) = some [0xFF, 0x00] ∧
      (encodeBase64 [0xFF, 0x00]).length = 4 ∧
      ∃ text, encodeBase64 [0xFF, 0x00] = text ++ [0x3D] ∧ ∀ c ∈ text, c ∈ base64Alphabet :=
  base64_readsBack (s := [0xFF, 0x00]) (by decide)

end Cluon
