import Cluon.Proto.Reads

/-!
# Reading at the end of a stream

No reader checks for the end of the stream. A varint that is cut ends with a group of ones
(`fromVarInt_cut`), a number or a string that is cut has fewer bytes than it should
(`readBytesFromStream_short`), and behind a key that is cut there is nothing
(`readPayload_spoiled`). Only the last read of a stream can be cut (`complete_of_reads`).
-/

set_option autoImplicit false

namespace Cluon

open Library InputStream

/-! ## Varints that are cut -/

/-- All bytes have a continuation bit, so that a varint goes on behind them. -/
def IsCut (bs : Bytes) : Prop := ∀ b ∈ bs, b &&& 0x80#8 ≠ 0

/-- What is read for a varint that is cut: the end of the stream gives a group of ones. -/
def cutVarInt (bs : Bytes) : BitVec 64 := varIntValue (bs ++ [0x7F])

theorem IsCut.tail {b : Byte} {bs : Bytes} (h : IsCut (b :: bs)) : IsCut bs :=
  fun c hc => h c (List.mem_cons_of_mem b hc)

/-- Some bytes begin with a complete varint, or they are one that is cut. -/
theorem isVarInt_or_isCut (bs : Bytes) : (∃ a t, bs = a ++ t ∧ IsVarInt a) ∨ IsCut bs := by
  induction bs with
  | nil => exact .inr fun _ h => absurd h List.not_mem_nil
  | cons b bs ih =>
      by_cases last : b &&& 0x80#8 = 0
      · exact .inl ⟨[b], bs, rfl, .last last⟩
      · rcases ih with ⟨a, t, rfl, varInt⟩ | cut
        · exact .inl ⟨b :: a, t, rfl, .more last varInt⟩
        · refine .inr fun c hc => ?_
          rcases List.mem_cons.mp hc with rfl | hc
          · exact last
          · exact cut c hc

theorem whileGood_fromVarIntBody_cut (bs : Bytes) :
    IsCut bs → ∀ (value : BitVec 64) (size : Nat) {is : InputStream}, is.good → is.rest = bs →
      whileGood fromVarIntBody (value, size) is =
        ((varIntValueFrom value size (bs ++ [0x7F]), size + bs.length + 1), is.exhausted) := by
  induction bs with
  | nil =>
      intro _ value size is hg hr
      have round : fromVarIntBody (value, size) is =
          (true, (value ||| (0x7F#64 <<< (7 * size)), size + 1), is.exhausted) := by
        simp [fromVarIntBody, get_nil hg hr]
      rw [whileGood_again consumes_fromVarIntBody hg round,
        whileGood_spoiled _ _ (good_exhausted is)]
      rfl
  | cons b bs ih =>
      intro cut value size is hg hr
      have here := cut b List.mem_cons_self
      have behind : (is.advance 1).rest = bs := by rw [rest_advance, hr]; rfl
      have within : 1 ≤ is.rest.length := by rw [hr]; exact Nat.succ_le_succ (Nat.zero_le _)
      rw [whileGood_again consumes_fromVarIntBody hg (fromVarIntBody_more here value size hg hr),
        ih cut.tail _ _ (good_advance_of hg 1) behind, exhausted_advance within, List.cons_append,
        varIntValueFrom, List.length_cons]
      congr 2
      omega

/-- **Reading a varint that is cut.** -/
theorem fromVarInt_cut {is : InputStream} (hg : is.good) (cut : IsCut is.rest) :
    fromVarInt is = (cutVarInt is.rest, is.rest.length + 1, is.exhausted) := by
  simp only [fromVarInt, whileGood_fromVarIntBody_cut is.rest cut 0 0 hg rfl, Nat.zero_add,
    cutVarInt, varIntValue]

/-! ## Bytes that are cut -/

theorem whileGood_readBytesFromStreamBody_short : ∀ (n : Nat) (buffer : Bytes)
    {is : InputStream}, is.good → is.rest.length < n →
      whileGood readBytesFromStreamBody (buffer, n) is =
        ((buffer ++ is.rest, n - is.rest.length), is.exhausted) := by
  intro n
  induction n using Nat.strongRecOn with
  | ind n ih =>
      intro buffer is hg short
      generalize size : (if n > 1024 then 1024 else n) = chunk
      have atMost : chunk ≤ n ∧ 0 < chunk := by
        rw [← size]
        split <;> omega
      by_cases whole : chunk ≤ is.rest.length
      · -- A complete chunk, behind which there is too little.
        have round : readBytesFromStreamBody (buffer, n) is =
            (true, (buffer ++ is.rest.take chunk, n - chunk), is.advance chunk) := by
          have length : (is.rest.take chunk).length = chunk :=
            (List.length_take ..).trans (min_eq_left whole)
          simp only [readBytesFromStreamBody, size, read_of_le hg whole, length]
          rw [decide_eq_true (by omega : 0 < n - chunk)]
        have behind : (is.advance chunk).rest = is.rest.drop chunk := rest_advance is chunk
        have fewer : (is.advance chunk).rest.length < n - chunk := by
          rw [behind, List.length_drop]
          omega
        rw [whileGood_again consumes_readBytesFromStreamBody hg round,
          ih (n - chunk) (by omega) _ (good_advance_of hg chunk) fewer, behind,
          List.append_assoc, List.take_append_drop, exhausted_advance whole, List.length_drop]
        congr 2
        omega
      · have round : readBytesFromStreamBody (buffer, n) is =
            (true, (buffer ++ is.rest, n - is.rest.length), is.exhausted) := by
          have all := read_short hg (Nat.not_le.mp whole)
          simp only [readBytesFromStreamBody, size, all]
          rw [decide_eq_true (by omega : 0 < n - is.rest.length)]
        rw [whileGood_again consumes_readBytesFromStreamBody hg round,
          whileGood_spoiled _ _ (good_exhausted is)]

/-- **Reading more bytes than there are** reads all of them. -/
theorem readBytesFromStream_short {is : InputStream} {n : Nat} (hg : is.good)
    (short : is.rest.length < n) : readBytesFromStream is n = (is.rest, is.exhausted) := by
  have some : 0 < n := Nat.zero_lt_of_lt short
  simp only [readBytesFromStream, if_pos some,
    whileGood_readBytesFromStreamBody_short n [] hg short, List.nil_append]

theorem readBytesFromStream_spoiled {is : InputStream} (h : is.good = false) (n : Nat) :
    readBytesFromStream is n = ([], is) := by
  rw [readBytesFromStream]
  split
  · rw [whileGood_spoiled _ _ h]
  · rfl

/-- **Reading in chunks** does what one read does. -/
theorem readBytesFromStream_of_good {is : InputStream} (hg : is.good) (n : Nat) :
    readBytesFromStream is n = is.read n := by
  by_cases enough : n ≤ is.rest.length
  · have all := readBytesFromStream_append hg (List.take_append_drop n is.rest).symm
    rw [List.length_take, min_eq_left enough] at all
    rw [all, read_of_le hg enough]
  · rw [readBytesFromStream_short hg (Nat.not_le.mp enough), read_short hg (Nat.not_le.mp enough)]

/-- All cases of reading bytes. -/
theorem readBytesFromStream_eq (is : InputStream) (n : Nat) :
    (readBytesFromStream is n).1.length ≤ n ∧
      ((readBytesFromStream is n).2.good → (readBytesFromStream is n).1.length = n) := by
  by_cases hg : is.good
  · rw [readBytesFromStream_of_good hg, read_of_good hg]
    refine ⟨List.length_take_le .., fun good => ?_⟩
    by_cases enough : n ≤ is.rest.length
    · exact (List.length_take ..).trans (min_eq_left enough)
    · rw [if_neg enough] at good
      exact absurd good Bool.false_ne_true
  · have spoiled : is.good = false := Bool.eq_false_iff.mpr hg
    rw [readBytesFromStream_spoiled spoiled]
    exact ⟨Nat.zero_le _, fun good => absurd good hg⟩

/-! ## Reads that are cut -/

namespace Read

/-- What is read for a payload of which there is nothing because the key was cut. -/
def nothing : ProtoConstants → Read
  | .varint => .varint 0
  | .eightBytes => .eightBytes []
  | .fourBytes => .fourBytes []
  | .lengthDelimited => .lengthDelimited 0 []

/-- The bytes behind a length are as many as it says. -/
def Complete : Read → Prop
  | .lengthDelimited n bytes => bytes.length = n.toNat
  | _ => True

/-- The bytes behind a length are at most as many as it says. -/
def Bounded : Read → Prop
  | .lengthDelimited n bytes => bytes.length ≤ n.toNat
  | _ => True

end Read

namespace FromProtoVisitor

/-- **Behind a key that is cut** nothing is read. -/
theorem readPayload_spoiled (protoType : ProtoConstants) {is : InputStream}
    (h : is.good = false) : readPayload protoType is = (.nothing protoType, is) := by
  cases protoType with
  | varint => simp only [readPayload, fromVarInt_spoiled h, Read.nothing]
  | eightBytes | fourBytes => simp only [readPayload, readBytesFromStream_spoiled h, Read.nothing]
  | lengthDelimited =>
      simp only [readPayload, fromVarInt_spoiled h, readBytesFromStream_spoiled h, Read.nothing]

theorem readPayload_complete (protoType : ProtoConstants) (is : InputStream) :
    (readPayload protoType is).1.Bounded ∧
      ((readPayload protoType is).2.good → (readPayload protoType is).1.Complete) := by
  cases protoType with
  | varint | eightBytes | fourBytes => exact ⟨trivial, fun _ => trivial⟩
  | lengthDelimited => exact readBytesFromStream_eq _ _

theorem nextRead_complete {is is' : InputStream} {r : BitVec 32 × Read}
    (next : nextRead is = (some r, is')) : r.2.Bounded ∧ (is'.good → r.2.Complete) := by
  rcases key : fromVarInt is with ⟨k, size, is₁⟩
  simp only [nextRead, key] at next
  split at next
  · split at next
    · rename_i protoType _
      have complete := readPayload_complete protoType is₁
      obtain ⟨same, rfl⟩ := Prod.mk.inj next
      obtain rfl := Option.some.inj same
      exact complete
    · cases next
  · cases next

/-- **Only the last read of a stream is cut.** -/
theorem complete_of_reads : ∀ (n : Nat) {is : InputStream}, is.rest.length ≤ n → is.good →
    ∀ {before after : List (BitVec 32 × Read)} {r : BitVec 32 × Read},
      reads is = before ++ r :: after → r.2.Bounded ∧ (after ≠ [] → r.2.Complete) := by
  intro n
  induction n with
  | zero =>
      intro is short hg before after r split
      rw [reads_nil hg (List.length_eq_zero_iff.mp (Nat.le_zero.mp short))] at split
      exact absurd split (by simp)
  | succ n ih =>
      intro is short hg before after r split
      have shorter := nextRead_shortens hg
      rw [reads_of_good hg] at split
      rcases next : nextRead is with ⟨found, is'⟩
      rw [next] at split shorter
      simp only at split shorter
      by_cases good : is'.good
      · have less : is'.rest.length ≤ n := by
          have := shorter good
          omega
        cases found with
        | none => exact ih less good split
        | some r₀ =>
            rw [Option.toList_some, List.singleton_append] at split
            cases before with
            | nil =>
                obtain ⟨rfl, _⟩ := List.cons_eq_cons.mp split
                obtain ⟨bounded, complete⟩ := nextRead_complete next
                exact ⟨bounded, fun _ => complete good⟩
            | cons r₁ before =>
                obtain ⟨_, rest⟩ := List.cons_eq_cons.mp split
                exact ih less good rest
      · rw [reads_spoiled (Bool.eq_false_iff.mpr good), List.append_nil] at split
        cases found with
        | none => exact absurd split (by simp)
        | some r₀ =>
            rw [Option.toList_some] at split
            cases before with
            | nil =>
                obtain ⟨rfl, rfl⟩ := List.cons_eq_cons.mp split
                exact ⟨(nextRead_complete next).1, fun some => absurd rfl some⟩
            | cons r₁ before =>
                obtain ⟨_, rest⟩ := List.cons_eq_cons.mp split
                exact absurd rest (by simp)

end FromProtoVisitor

end Cluon
