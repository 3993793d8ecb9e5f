import Cluon.Proto.History

/-!
# Reading bytes into a buffer

`readBytesFromStream(in, n, buffer)` reads in chunks of at most 1024 bytes. A round reads
one chunk to the position behind the chunks before it and counts down the number of bytes
that are left to read. Here the buffer is memory of a given size, and a read is defined
only where all bytes that it asks for are in the buffer.

The rounds keep the bytes that have been read at the beginning of the buffer, and the rest
of the buffer as it was (`Invariant`). The loop ends when all bytes have been read or when
the stream has run into its end, so the buffer has then got the first `n` bytes of the
stream, or all of them if there are fewer (`readBytesFromStreamInto_exact`), and the size of
a chunk makes no difference (`readInChunks_eq`).

`readBytesFromStream` as the decoder uses it says which bytes are written and what the
stream is. That is enough (`readBytesFromStreamInto_eq`): the memory the decoder reads into
is that of a word (`readBytesFromStreamInto_word`) or of a vector for which enough has been
reserved, whatever streams it has been used for before (`readBytesFromStreamInto_of_history`).
-/

set_option autoImplicit false

namespace Cluon

open Library InputStream

/-! ## The bytes and the stream -/

/-- **The bytes of a read** are the first ones of those that can be read, and the stream behind it
is that of before, positioned behind these bytes. It is still good unless there were too few of
them. -/
theorem readBytesFromStream_available (is : InputStream) (n : Nat) :
    (readBytesFromStream is n).1 = is.available.take n ∧
      (readBytesFromStream is n).2.data = is.data ∧
      (readBytesFromStream is n).2.pos = is.pos + min n is.available.length ∧
      ((readBytesFromStream is n).2.good ↔ is.good ∧ n ≤ is.available.length) := by
  by_cases hg : is.good
  · rw [readBytesFromStream_of_good hg, read_of_good hg, available_of_good hg]
    by_cases enough : n ≤ is.rest.length
    · rw [if_pos enough, min_eq_left enough]
      exact ⟨rfl, rfl, rfl, fun good => ⟨good, enough⟩, And.left⟩
    · rw [if_neg enough, min_eq_right (Nat.le_of_not_le enough)]
      exact ⟨rfl, rfl, rfl, fun good => absurd good Bool.false_ne_true,
        fun both => absurd both.2 enough⟩
  · have spoiled : is.good = false := Bool.eq_false_iff.mpr hg
    rw [readBytesFromStream_spoiled spoiled, available_of_spoiled spoiled]
    exact ⟨List.take_nil.symm, rfl, (congrArg (is.pos + ·) (Nat.min_zero n)).symm,
      fun good => absurd good hg, fun both => absurd both.1 hg⟩

namespace ReadBytesFromStream

/-! ## The loop -/

/-- The memory behind `buffer` and the variables of `readBytesFromStream`. -/
structure Variables where
  buffer : Bytes
  bufferPosition : Nat
  extractedBytes : Nat
  bytesToReadFromStream : Nat
  deriving DecidableEq, Repr

/-- The variables before the loop. -/
def Variables.start (buffer : Bytes) (n : Nat) : Variables := ⟨buffer, 0, 0, n⟩

/-- One round of the loop with chunks of `chunkSize` bytes. There are no variables behind a
read that does not stay within the buffer. -/
def round (chunkSize : Nat) : Body (Option Variables)
  | none, is => (false, none, is)
  | some s, is =>
      if 0 < s.bytesToReadFromStream then
        match is.readInto s.buffer s.bufferPosition
            (if s.bytesToReadFromStream > chunkSize then chunkSize
              else s.bytesToReadFromStream) with
        | some (buffer, gcount, is') =>
            (true, some {
              buffer := buffer
              bufferPosition := s.bufferPosition + gcount
              extractedBytes := gcount
              bytesToReadFromStream := s.bytesToReadFromStream - gcount }, is')
        | none => (false, none, is)
      else (false, some s, is)

/-- `readBytesFromStream(in, n, buffer)` with chunks of `chunkSize` bytes, where the null
pointer is `none`: the memory behind `buffer` and the stream. -/
def readInChunks (chunkSize : Nat) (is : InputStream) (n : Nat) :
    Option Bytes → Option (Bytes × InputStream)
  | none => some ([], is)
  | some buffer =>
      let (s, is') := whileGood (round chunkSize) (some (.start buffer n)) is
      s.map fun last => (last.buffer, is')

/-! ## What a round does -/

section Chunks

variable {chunkSize : Nat} (positive : 0 < chunkSize)
include positive

theorem consumes_round : Consumes (round chunkSize) := by
  rintro (_ | s) is hg again good
  · exact absurd again Bool.false_ne_true
  · rw [round] at again good ⊢
    by_cases left : 0 < s.bytesToReadFromStream
    · rw [if_pos left] at again good ⊢
      generalize size : (if s.bytesToReadFromStream > chunkSize then chunkSize
        else s.bytesToReadFromStream) = chunk at again good ⊢
      have some : 0 < chunk := by
        rw [← size]
        split <;> assumption
      by_cases room : s.bufferPosition + chunk ≤ s.buffer.length
      · simp only [readInto, if_pos room] at good ⊢
        by_cases whole : chunk ≤ is.rest.length
        · rw [read_of_le hg whole] at good ⊢
          simp only [rest_advance, List.length_drop]
          omega
        · rw [read_short hg (Nat.not_le.mp whole)] at good
          exact absurd good Bool.false_ne_true
      · simp only [readInto, if_neg room] at again
        exact absurd again Bool.false_ne_true
    · rw [if_neg left] at again
      exact absurd again Bool.false_ne_true

end Chunks

/-- What holds before every round, of a stream that was `is₀` before the loop: the bytes
`written` are at the beginning of the buffer and the rest of it is as it was, and the stream
is positioned behind these bytes or has run into its end. -/
structure Invariant (memory : Bytes) (n : Nat) (is₀ : InputStream) (written : Bytes)
    (s : Variables) (is : InputStream) : Prop where
  counted : written.length + s.bytesToReadFromStream = n
  position : s.bufferPosition = written.length
  buffer : s.buffer = written ++ memory.drop written.length
  stream : (is = is₀.advance written.length ∧ is₀.rest = written ++ is.rest) ∨
    (is = is₀.exhausted ∧ is₀.rest = written ∧ 0 < s.bytesToReadFromStream)

namespace Invariant

variable {memory written : Bytes} {n : Nat} {is₀ is : InputStream} {s : Variables}

theorem start : Invariant memory n is₀ [] (.start memory n) is₀ where
  counted := Nat.zero_add n
  position := rfl
  buffer := rfl
  stream := .inl ⟨rfl, rfl⟩

/-- A good stream is positioned behind the bytes written. -/
theorem stream_of_good (h : Invariant memory n is₀ written s is) (hg : is.good) :
    is = is₀.advance written.length ∧ is₀.rest = written ++ is.rest := by
  rcases h.stream with behind | ⟨ended, _⟩
  · exact behind
  · rw [ended] at hg
    exact absurd hg Bool.false_ne_true

/-- The buffer has kept its size. -/
theorem length_buffer (h : Invariant memory n is₀ written s is) (room : n ≤ memory.length) :
    s.buffer.length = memory.length := by
  have counted := h.counted
  rw [h.buffer, List.length_append, List.length_drop]
  omega

/-- The variables behind a read of some bytes. -/
theorem extend (h : Invariant memory n is₀ written s is) {bytes : Bytes}
    (fits : bytes.length ≤ s.bytesToReadFromStream) {is' : InputStream}
    (stream : (is' = is₀.advance (written ++ bytes).length ∧
        is₀.rest = (written ++ bytes) ++ is'.rest) ∨
      (is' = is₀.exhausted ∧ is₀.rest = written ++ bytes ∧
        0 < s.bytesToReadFromStream - bytes.length)) :
    Invariant memory n is₀ (written ++ bytes) {
      buffer := overwrite s.buffer s.bufferPosition bytes
      bufferPosition := s.bufferPosition + bytes.length
      extractedBytes := bytes.length
      bytesToReadFromStream := s.bytesToReadFromStream - bytes.length } is' where
  counted := by
    have counted := h.counted
    simp only [List.length_append]
    omega
  position := by rw [h.position, List.length_append]
  buffer := by
    rw [h.position, h.buffer]
    exact overwrite_behind written memory bytes
  stream := stream

/-- **A round keeps the invariant** and stays within the buffer. -/
theorem step (h : Invariant memory n is₀ written s is) (chunkSize : Nat)
    (room : n ≤ memory.length) (hg : is.good) (left : 0 < s.bytesToReadFromStream) :
    ∃ bytes s' is', round chunkSize (some s) is = (true, some s', is') ∧
      Invariant memory n is₀ (written ++ bytes) s' is' := by
  obtain ⟨behind, rest⟩ := h.stream_of_good hg
  rw [round, if_pos left]
  generalize size : (if s.bytesToReadFromStream > chunkSize then chunkSize
    else s.bytesToReadFromStream) = chunk
  have atMost : chunk ≤ s.bytesToReadFromStream := by
    rw [← size]
    split <;> omega
  have inside : s.bufferPosition + chunk ≤ s.buffer.length := by
    have counted := h.counted
    rw [h.length_buffer room, h.position]
    omega
  simp only [readInto, if_pos inside]
  by_cases whole : chunk ≤ is.rest.length
  · -- A complete chunk.
    have length : (is.rest.take chunk).length = chunk :=
      (List.length_take ..).trans (min_eq_left whole)
    rw [read_of_le hg whole]
    refine ⟨_, _, _, rfl, h.extend (length.le.trans atMost) (.inl ⟨?_, ?_⟩)⟩
    · rw [List.length_append, length, behind, advance_advance]
    · rw [rest_advance, List.append_assoc, List.take_append_drop]
      exact rest
  · -- The stream ends within the chunk, or where it would begin.
    have fewer : is.rest.length < chunk := Nat.not_le.mp whole
    have ended : is.exhausted = is₀.exhausted := by
      rw [behind]
      exact exhausted_advance (by rw [rest, List.length_append]; omega)
    rw [read_short hg fewer]
    have left' : 0 < s.bytesToReadFromStream - is.rest.length := by omega
    exact ⟨_, _, _, rfl, h.extend (fewer.le.trans atMost) (.inr ⟨ended, rest, left'⟩)⟩

/-- The buffer and the stream at the end of a loop over a good stream: those of one read. -/
def Result (memory : Bytes) (n : Nat) (is₀ : InputStream) (s : Variables) (is : InputStream) :
    Prop :=
  s.buffer = overwrite memory 0 (is₀.read n).1 ∧ is = (is₀.read n).2

/-- The loop ends because the stream has run into its end. -/
theorem result_of_spoiled (h : Invariant memory n is₀ written s is) (hg : is₀.good)
    (spoiled : is.good = false) : Result memory n is₀ s is := by
  have counted := h.counted
  rcases h.stream with ⟨behind, _⟩ | ⟨ended, all, left⟩
  · rw [behind, good_advance, hg] at spoiled
    exact absurd spoiled.symm Bool.false_ne_true
  · have read := read_short (n := n) hg (by rw [all]; omega)
    rw [Result, read, all, overwrite_zero]
    exact ⟨h.buffer, ended⟩

/-- The loop ends because nothing is left to read. -/
theorem result_of_done (h : Invariant memory n is₀ written s is) (hg₀ : is₀.good)
    (hg : is.good) (done : ¬ 0 < s.bytesToReadFromStream) : Result memory n is₀ s is := by
  obtain ⟨behind, rest⟩ := h.stream_of_good hg
  obtain rfl : written.length = n := by
    have counted := h.counted
    omega
  rw [Result, read_append hg₀ rest, overwrite_zero]
  exact ⟨h.buffer, behind⟩

end Invariant

/-! ## What the loop does -/

/-- A round that goes on had something left to read. -/
theorem left_of_again {chunkSize : Nat} {s : Variables} {is : InputStream}
    (again : (round chunkSize (some s) is).1 = true) : 0 < s.bytesToReadFromStream := by
  by_contra none
  rw [round, if_neg none] at again
  exact absurd again Bool.false_ne_true

section Loop

variable {chunkSize : Nat} (positive : 0 < chunkSize)
include positive

/-- **The loop over a good stream** ends with the buffer and the stream of one read. -/
theorem ends_round {memory : Bytes} {n : Nat} {is : InputStream} (hg : is.good)
    (room : n ≤ memory.length) :
    ∃ s is', Ends (round chunkSize) (some (.start memory n)) is (some s) is' ∧
      Invariant.Result memory n is s is' := by
  have ends := ends_whileGood (consumes_round positive) (some (.start memory n)) is
  have rule := ends.invariant
    (P := fun o js => ∃ written s, o = some s ∧ Invariant memory n is written s js)
    (by
      rintro _ js good ⟨written, s, rfl, inv⟩ again
      obtain ⟨bytes, s', js', next, kept⟩ := inv.step chunkSize room good (left_of_again again)
      rw [next]
      exact ⟨_, s', rfl, kept⟩)
    ⟨[], _, rfl, .start⟩
  rcases hw : whileGood (round chunkSize) (some (.start memory n)) is with ⟨o, is'⟩
  rw [hw] at ends rule
  simp only at ends rule
  rcases rule with ⟨spoiled, written, s, rfl, inv⟩ | ⟨_, js, good, ⟨written, s, rfl, inv⟩, last⟩
  · exact ⟨s, is', ends, inv.result_of_spoiled hg spoiled⟩
  · have done : ¬ 0 < s.bytesToReadFromStream := by
      intro left
      obtain ⟨_, s', js', next, _⟩ := inv.step chunkSize room good left
      rw [next] at last
      exact absurd (congrArg Prod.fst last).symm Bool.false_ne_true
    rw [round, if_neg done] at last
    obtain ⟨rfl, rfl⟩ : some s = o ∧ js = is' := ⟨congrArg (·.2.1) last, congrArg (·.2.2) last⟩
    exact ⟨s, js, ends, inv.result_of_done hg good done⟩

/-- **Reading in chunks of any size** writes the bytes that the decoder reads to the beginning
of the buffer, and the stream is the decoder's. -/
theorem readInChunks_eq (is : InputStream) (n : Nat) (buffer : Option Bytes)
    (room : n ≤ (buffer.getD []).length) :
    readInChunks chunkSize is n buffer =
      some (overwrite (buffer.getD []) 0 (readBytesFromStream is n).1,
        (readBytesFromStream is n).2) := by
  cases buffer with
  | none =>
      obtain rfl : n = 0 := Nat.le_zero.mp room
      rfl
  | some memory =>
      rw [Option.getD_some] at room ⊢
      rw [readInChunks]
      by_cases hg : is.good
      · obtain ⟨s, is', ends, written, stream⟩ := ends_round positive hg room
        rw [(ends_iff (consumes_round positive)).mp ends, readBytesFromStream_of_good hg,
          ← written, ← stream]
        rfl
      · have spoiled : is.good = false := Bool.eq_false_iff.mpr hg
        rw [whileGood_spoiled _ _ spoiled, readBytesFromStream_spoiled spoiled, overwrite_zero]
        rfl

end Loop

end ReadBytesFromStream

open ReadBytesFromStream

/-- `readBytesFromStream(in, n, buffer)` with the chunks of the source. -/
def readBytesFromStreamInto (is : InputStream) (n : Nat) (buffer : Option Bytes) :
    Option (Bytes × InputStream) :=
  readInChunks 1024 is n buffer

/-- The function of the source writes what the decoder reads. -/
theorem readBytesFromStreamInto_eq (is : InputStream) (n : Nat) (buffer : Option Bytes)
    (room : n ≤ (buffer.getD []).length) :
    readBytesFromStreamInto is n buffer =
      some (overwrite (buffer.getD []) 0 (readBytesFromStream is n).1,
        (readBytesFromStream is n).2) :=
  readInChunks_eq (by omega) is n buffer room

/-! ## The memory the decoder reads into -/

/-- **Reading into a word**: the union of a word of `w` bits with a buffer of as many bytes. -/
theorem readBytesFromStreamInto_word {w n : Nat} (word : BitVec w) (is : InputStream) :
    ∃ memory, readBytesFromStreamInto is n (some (leBytes n word.toNat)) =
        some (memory, (readBytesFromStream is n).2) ∧
      overwriteBuffer n word (readBytesFromStream is n).1 = BitVec.ofNat w (ofLeBytes memory) := by
  refine ⟨_, readBytesFromStreamInto_eq is _ _ (leBytes_length n word.toNat).ge, ?_⟩
  rw [overwrite_zero, overwriteBuffer, Option.getD_some]

/-- The memory of a vector: what has been written to it, and behind that what was there. -/
def vectorMemory (uninit : Nat → Byte) (b : StringBuffer) : Bytes := b.str uninit b.capacity

/-- A string of which all that has been written is a part. -/
theorem str_eq_append_drop (uninit : Nat → Byte) {b : StringBuffer} {n : Nat}
    (within : b.written.length ≤ n) :
    b.str uninit n = b.written ++ ((List.range n).map uninit).drop b.written.length := by
  have behind : (List.range n).drop b.written.length =
      (List.range (n - b.written.length)).map (b.written.length + ·) := by
    rw [List.range_eq_range', List.drop_range', List.range_eq_range', List.map_add_range']
    simp only [Nat.zero_add, Nat.mul_one, Nat.add_zero]
  rw [StringBuffer.str, List.take_of_length_le within, ← List.map_drop, behind, List.map_map]
  rfl

/-- What has been written lies in the memory. -/
def Fits (b : StringBuffer) : Prop := b.written.length ≤ b.capacity

theorem fits_write {b : StringBuffer} (fits : Fits b) {bytes : Bytes}
    (room : bytes.length ≤ b.capacity) : Fits (b.write bytes) := by
  have longer : (b.write bytes).written.length ≤ max bytes.length b.written.length := by
    rw [StringBuffer.write, List.length_append, List.length_drop]
    omega
  exact longer.trans (max_le room fits)

theorem fits_reserve {b : StringBuffer} (fits : Fits b) (n : Nat) :
    n ≤ (b.reserve n).capacity ∧ Fits (b.reserve n) := by
  rw [StringBuffer.reserve]
  split
  · exact ⟨le_rfl, Nat.zero_le _⟩
  · rename_i enough
    exact ⟨Nat.not_lt.mp enough, fits⟩

/-- Memory that is written to from its beginning on. -/
theorem vectorMemory_write (uninit : Nat → Byte) {b : StringBuffer} {bytes : Bytes}
    (fits : Fits b) (room : bytes.length ≤ b.capacity) :
    vectorMemory uninit (b.write bytes) = overwrite (vectorMemory uninit b) 0 bytes := by
  have longer : (b.write bytes).written.length =
      b.written.length + (bytes.length - b.written.length) := by
    rw [StringBuffer.write, List.length_append, List.length_drop]
    omega
  have before := str_eq_append_drop uninit fits
  have behind := str_eq_append_drop uninit (fits_write fits room)
  rw [longer] at behind
  rw [overwrite_zero, vectorMemory, vectorMemory, before, List.drop_append, List.drop_drop]
  exact behind.trans (List.append_assoc ..)

/-- **Reading into a vector** of which enough memory has been reserved. -/
theorem readBytesFromStreamInto_vector (uninit : Nat → Byte) {b : StringBuffer} (fits : Fits b)
    (is : InputStream) (n : Nat) :
    readBytesFromStreamInto is n (some (vectorMemory uninit (b.reserve n))) =
      some (vectorMemory uninit ((b.reserve n).write (readBytesFromStream is n).1),
        (readBytesFromStream is n).2) := by
  obtain ⟨reserved, fits'⟩ := fits_reserve fits n
  have size : (vectorMemory uninit (b.reserve n)).length = (b.reserve n).capacity :=
    StringBuffer.length_str uninit _ _
  have room : (readBytesFromStream is n).1.length ≤ (b.reserve n).capacity :=
    (readBytesFromStream_eq is n).1.trans reserved
  rw [readBytesFromStreamInto_eq is n _ (size ▸ reserved), vectorMemory_write uninit fits' room,
    Option.getD_some]

namespace FromProtoVisitor

/-- Storing what a stream has provided stays within the memory of the vector. -/
theorem fits_store {d : FromProtoVisitor} (fits : Fits d.stringValue) {r : Read}
    (bounded : r.Bounded) : Fits (d.store r).stringValue := by
  cases r with
  | varint | eightBytes | fourBytes => exact fits
  | lengthDelimited n bytes =>
      obtain ⟨reserved, fits'⟩ := fits_reserve fits n.toNat
      exact fits_write fits' (bounded.trans reserved)

theorem fits_readRecord {d : FromProtoVisitor} (fits : Fits d.stringValue) (is : InputStream) :
    Fits (d.readRecord is).2.1.stringValue := by
  rw [readRecord_eq]
  rcases next : nextRead is with ⟨_ | r, is'⟩
  · exact fits
  · exact fits_store fits (nextRead_complete next).1

theorem fits_decodeFromBody (uninit : Nat → Byte) {d : FromProtoVisitor}
    (fits : Fits d.stringValue) (is : InputStream) :
    Fits (decodeFromBody uninit d is).2.1.stringValue := by
  have next := fits_readRecord fits is
  rw [decodeFromBody]
  rcases read : d.readRecord is with ⟨_ | ⟨protoType, fieldId⟩, d', is'⟩
  · rw [read] at next
    exact next
  · rw [read] at next
    exact next

theorem fits_decodeFromIntoBody (uninit : Nat → Byte) (T : MessageType)
    {s : T.Values × FromProtoVisitor} (fits : Fits s.2.stringValue) (is : InputStream) :
    Fits (decodeFromIntoBody (T.visitable (visitor uninit)) s is).2.1.2.stringValue := by
  have next := fits_readRecord fits is
  rw [decodeFromIntoBody]
  rcases read : s.2.readRecord is with ⟨_ | ⟨protoType, fieldId⟩, d', is'⟩
  · rw [read] at next
    exact next
  · rw [read] at next
    have stays := acceptField_snd uninit T.fields fieldId s.1 d'
    exact (congrArg (fun d => Fits d.stringValue) stays).mpr next

/-- **The vector of every decoder**, whatever it has read before, is one to read into. -/
theorem fits_of_history {d : FromProtoVisitor} (history : History d) : Fits d.stringValue := by
  induction history with
  | init => exact Nat.le_refl 0
  | @staged uninit d bytes _ fits =>
      have start : Fits { d with mapOfKeyValues := [] : FromProtoVisitor }.stringValue := fits
      exact whileGood_invariant (fun (d' : FromProtoVisitor) _ => Fits d'.stringValue)
        (fun _ js _ fits' => fits_decodeFromBody uninit fits' js) start
  | @direct uninit d T bytes v _ fits =>
      have kept : Fits (whileGood (decodeFromIntoBody (T.visitable (visitor uninit)))
          (v, d.directly) (ofBytes bytes)).1.2.stringValue :=
        whileGood_invariant (fun (s : T.Values × FromProtoVisitor) _ => Fits s.2.stringValue)
          (fun _ js _ fits' => fits_decodeFromIntoBody uninit T fits' js) fits
      rw [decodeFromInto]
      exact kept

/-- **Reading a string** into the vector of a decoder gives the memory that storing the bytes
gives. -/
theorem readBytesFromStreamInto_of_history (uninit : Nat → Byte) {d : FromProtoVisitor}
    (history : History d) (is : InputStream) (n : BitVec 64) :
    readBytesFromStreamInto is n.toNat
        (some (vectorMemory uninit (d.stringValue.reserve n.toNat))) =
      some (vectorMemory uninit
          (d.store (.lengthDelimited n (readBytesFromStream is n.toNat).1)).stringValue,
        (readBytesFromStream is n.toNat).2) :=
  readBytesFromStreamInto_vector uninit (fits_of_history history) is n.toNat

end FromProtoVisitor

/-! ## Exactly the bytes of the stream -/

/-- **Reading in chunks is exact.** -/
theorem readBytesFromStreamInto_exact (is : InputStream) (n : Nat) (buffer : Option Bytes)
    (room : n ≤ (buffer.getD []).length) :
    (∃ is', readBytesFromStreamInto is n buffer =
        some (is.available.take n ++ (buffer.getD []).drop (min n is.available.length), is') ∧
      is'.data = is.data ∧ is'.pos = is.pos + min n is.available.length) ∧
    (∀ chunkSize, 0 < chunkSize →
      readInChunks chunkSize is n buffer = readBytesFromStreamInto is n buffer) ∧
    (∀ memory, buffer = some memory → ∃ s is',
      Ends (round 1024) (some (.start memory n)) is (some s) is' ∧
        readBytesFromStreamInto is n buffer = some (s.buffer, is')) := by
  have chunks := readBytesFromStreamInto_eq is n buffer room
  obtain ⟨bytes, data, position, _⟩ := readBytesFromStream_available is n
  refine ⟨⟨_, ?_, data, position⟩, fun chunkSize positive => ?_, ?_⟩
  · rw [chunks, overwrite_zero, bytes, List.length_take]
  · exact (readInChunks_eq positive is n buffer room).trans chunks.symm
  · rintro memory rfl
    rcases ended : whileGood (round 1024) (some (.start memory n)) is with ⟨_ | s, is'⟩
    · rw [readBytesFromStreamInto, readInChunks, ended] at chunks
      cases chunks
    · refine ⟨s, is', (ends_iff (consumes_round (by omega))).mpr ended, ?_⟩
      rw [readBytesFromStreamInto, readInChunks, ended]
      rfl

/-- A stream that ends before the buffer is full, also in chunks of two bytes. -/
theorem readBytesFromStreamInto_exact_short :
    (∃ is', readBytesFromStreamInto (ofBytes [1, 2, 3]) 5 (some [7, 7, 7, 7, 7, 7]) =
        some ([1, 2, 3, 7, 7, 7], is') ∧ is'.pos = 3) ∧
      readInChunks 2 (ofBytes [1, 2, 3]) 5 (some [7, 7, 7, 7, 7, 7]) =
        readBytesFromStreamInto (ofBytes [1, 2, 3]) 5 (some [7, 7, 7, 7, 7, 7]) := by
  obtain ⟨⟨is', result, _, position⟩, chunks, _⟩ :=
    readBytesFromStreamInto_exact (ofBytes [1, 2, 3]) 5 (some [7, 7, 7, 7, 7, 7]) (by decide)
  exact ⟨⟨is', result, position⟩, chunks 2 (by decide)⟩

end Cluon
