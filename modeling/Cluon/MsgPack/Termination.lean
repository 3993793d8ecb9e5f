import Cluon.MsgPack.Truncated

/-!
# The decoder of MsgPack comes to an end

`readKeyValues` calls itself, in a loop over a number of entries that the stream announces, and
it puts a byte back before it does. Every call takes the header of its map from the stream, and
nothing that has been read is read again except this byte, so the number of unread bytes bounds
how deep the calls are nested (`unread_findMap`, `readKeyValues_returns`). The runs of the two
loops and of the recursion are given by a relation (`ReadsKeyValues`) that knows no bound;
`decodeFrom_terminates` says that there is such a run for every stream.
-/

set_option autoImplicit false

namespace Cluon

open Library InputStream MsgPackConstants

/-! ## Unread bytes -/

/-- The number of bytes that can still be read. -/
def unread (is : InputStream) : Nat := if is.good then is.rest.length else 0

theorem unread_of_good {is : InputStream} (hg : is.good) : unread is = is.rest.length :=
  if_pos hg

theorem unread_of_spoiled {is : InputStream} (spoiled : is.good = false) : unread is = 0 := by
  rw [unread, spoiled, if_neg Bool.false_ne_true]

theorem unread_of_failbit {is : InputStream} (failed : is.failbit = true) : unread is = 0 :=
  unread_of_spoiled (good_of_failbit failed)

theorem unread_advance_le {is : InputStream} (hg : is.good) (n : Nat) :
    unread (is.advance n) ≤ unread is := by
  rw [unread_of_good hg, unread_of_good (good_advance_of hg n), rest_advance, List.length_drop]
  exact Nat.sub_le _ _

theorem unread_read (is : InputStream) (n : Nat) : unread (is.read n).2 ≤ unread is := by
  by_cases hg : is.good = true
  · by_cases enough : n ≤ is.rest.length
    · rw [read_of_le hg enough]
      exact unread_advance_le hg n
    · rw [read_short hg (Nat.lt_of_not_le enough)]
      exact (unread_of_spoiled (good_exhausted is)).le.trans (Nat.zero_le _)
  · rw [read_spoiled (by simpa using hg)]
    exact (unread_of_failbit rfl).le.trans (Nat.zero_le _)

theorem unread_readBigEndian (n : Nat) (is : InputStream) :
    unread (readBigEndian n is).2 ≤ unread is :=
  unread_read is n

/-- A byte has been taken from the stream, or the stream has failed. -/
theorem getByte_cases (is : InputStream) :
    (∃ c t, is.good ∧ is.rest = c :: t ∧ getByte is = (c, is.advance 1)) ∨
      ∃ is', getByte is = (0xFF, is') ∧ is'.failbit = true := by
  by_cases hg : is.good = true
  · cases hr : is.rest with
    | nil => exact .inr (getByte_atEnd (.inr hr))
    | cons c t => exact .inl ⟨c, t, hg, rfl, getByte_cons hg hr⟩
  · exact .inr (getByte_atEnd (.inl (by simpa using hg)))

theorem unread_getByte (is : InputStream) : unread (getByte is).2 ≤ unread is := by
  rcases getByte_cases is with ⟨c, t, hg, _, byte⟩ | ⟨is', byte, failed⟩
  · rw [byte]
    exact unread_advance_le hg 1
  · rw [byte, unread_of_failbit failed]
    exact Nat.zero_le _

/-- The byte that is put back is the one that has been taken. -/
theorem unread_unget_getByte (is : InputStream) : unread (getByte is).2.unget ≤ unread is := by
  rcases getByte_cases is with ⟨c, t, hg, _, byte⟩ | ⟨is', byte, failed⟩
  · rw [byte, unget_advance_one hg]
  · rw [byte, unread_of_failbit (unget_of_failbit failed)]
    exact Nat.zero_le _

/-- The end of the stream is not taken for a map. -/
theorem unread_getByte_lt {is : InputStream} (family : getFormatFamily (getByte is).1 = .map) :
    unread (getByte is).2 < unread is := by
  rcases getByte_cases is with ⟨c, t, hg, hr, byte⟩ | ⟨is', byte, failed⟩
  · rw [byte, unread_of_good hg, unread_of_good (good_advance_of hg 1), rest_advance_one hr, hr]
    exact Nat.lt_succ_self _
  · have end_ : getFormatFamily 0xFF = .int := by decide
    rw [byte, end_] at family
    cases family

/-- Neither of two ways to go on leaves more of the stream. -/
theorem unread_ite {α : Type} {p : Prop} [Decidable p] {a b : α × InputStream} {n : Nat}
    (left : unread a.2 ≤ n) (right : unread b.2 ≤ n) : unread (if p then a else b).2 ≤ n := by
  split
  · exact left
  · exact right

theorem unread_readUint (is : InputStream) : unread (readUint is).2 ≤ unread is := by
  have byte := unread_getByte is
  have behind (n : Nat) := (unread_readBigEndian n (getByte is).2).trans byte
  simp only [readUint]
  repeat' with_reducible apply unread_ite
  · exact byte
  · exact behind 1
  · exact behind 2
  · exact behind 4
  · exact behind 8
  · exact byte
  · exact le_rfl

theorem unread_readInt (is : InputStream) : unread (readInt is).2 ≤ unread is := by
  have byte := unread_getByte is
  have behind (n : Nat) := (unread_readBigEndian n (getByte is).2).trans byte
  simp only [readInt]
  repeat' with_reducible apply unread_ite
  · exact byte
  · exact behind 1
  · exact behind 2
  · exact behind 4
  · exact behind 8
  · exact byte
  · exact le_rfl

theorem unread_readStringLength (c : Byte) (is : InputStream) :
    unread (readStringLength c is).2 ≤ unread is := by
  rw [readStringLength]
  repeat' with_reducible apply unread_ite
  · exact le_rfl
  · exact unread_readBigEndian 1 is
  · exact unread_readBigEndian 2 is
  · exact unread_readBigEndian 4 is
  · exact le_rfl

theorem unread_readTokensToRead (c : Byte) (is : InputStream) :
    unread (readTokensToRead c is).2 ≤ unread is := by
  rw [readTokensToRead]
  repeat' with_reducible apply unread_ite
  · exact le_rfl
  · exact unread_readBigEndian 2 is
  · exact unread_readBigEndian 4 is
  · exact le_rfl

theorem unread_readString (uninit : Nat → Byte) (is : InputStream) :
    unread (readString uninit is).2 ≤ unread is := by
  have byte := unread_getByte is
  have length := (unread_readStringLength (getByte is).1 (getByte is).2).trans byte
  simp only [readString]
  repeat' with_reducible apply unread_ite
  · exact (unread_read _ _).trans length
  · exact length
  · exact byte
  · exact le_rfl

/-- **The search for a map reads on**, and what it finds it has taken from the stream. -/
theorem unread_findMap (is : InputStream) :
    unread (findMap is).2 ≤ unread is ∧
      ((findMap is).1 ≠ none → unread (findMap is).2 < unread is) := by
  refine whileGood_invariant
    (fun found is' => unread is' ≤ unread is ∧ (found ≠ none → unread is' < unread is))
    (fun found is' _ before => ?_) ⟨le_rfl, fun found => absurd rfl found⟩
  have byte := unread_getByte is'
  rw [findMapBody]
  simp only
  split
  · rename_i family
    have less := (unread_getByte_lt family).trans_le before.1
    exact ⟨less.le, fun _ => less⟩
  · exact ⟨byte.trans before.1, fun found => absurd rfl found⟩

/-! ## Runs -/

section Runs

variable (uninit : Nat → Byte)

mutual

/-- A run of `readKeyValues(in)`: the map it returns, and the stream it leaves. -/
inductive ReadsKeyValues : InputStream → KeyValueMap Bytes MsgPackAny → InputStream → Prop
  | noMap {is is' : InputStream} : Ends findMapBody none is none is' → ReadsKeyValues is [] is'
  | map {c : Byte} {is is' is'' : InputStream} {keyValues : KeyValueMap Bytes MsgPackAny} :
      Ends findMapBody none is (some c) is' →
      ReadsPairs (readTokensToRead c is').1 [] (readTokensToRead c is').2 keyValues is'' →
      ReadsKeyValues is keyValues is''

/-- A run of the loop over the entries of a map. -/
inductive ReadsPairs : Nat → KeyValueMap Bytes MsgPackAny → InputStream →
    KeyValueMap Bytes MsgPackAny → InputStream → Prop
  | done {keyValues : KeyValueMap Bytes MsgPackAny} {is : InputStream} :
      ReadsPairs 0 keyValues is keyValues is
  | scalar {tokensToRead : Nat} {value : MsgPackAny}
      {keyValues keyValues' : KeyValueMap Bytes MsgPackAny} {is is' is'' : InputStream} :
      getFormatFamily (getByte (readString uninit is).2).1 ≠ .map →
      readValue uninit (fun _ => none) (readString uninit is).2 = some (value, is') →
      ReadsPairs tokensToRead (keyValues.assign (readString uninit is).1 value) is'
        keyValues' is'' →
      ReadsPairs (tokensToRead + 1) keyValues is keyValues' is''
  | nested {tokensToRead : Nat} {keyValues nestedKeyValues keyValues' : KeyValueMap Bytes MsgPackAny}
      {is is' is'' : InputStream} :
      getFormatFamily (getByte (readString uninit is).2).1 = .map →
      ReadsKeyValues (getByte (readString uninit is).2).2.unget nestedKeyValues is' →
      ReadsPairs tokensToRead
        (keyValues.assign (readString uninit is).1 (.keyValues nestedKeyValues)) is'
        keyValues' is'' →
      ReadsPairs (tokensToRead + 1) keyValues is keyValues' is''

end

/-- A value that is not a map is read without a nested call, whatever such a call would do. -/
theorem readValue_scalar
    (readKeyValues : InputStream → Option (KeyValueMap Bytes MsgPackAny × InputStream))
    {is : InputStream} (family : getFormatFamily (getByte is).1 ≠ .map) :
    readValue uninit readKeyValues is = readValue uninit (fun _ => none) is := by
  rcases byte : getByte is with ⟨c, is₁⟩
  rw [byte] at family
  simp only [readValue, byte]
  cases format : getFormatFamily c with
  | map => exact absurd format family
  | bool | uint | int | float | str | unknown => rfl

theorem exists_readValue {is : InputStream} (family : getFormatFamily (getByte is).1 ≠ .map) :
    ∃ value is', readValue uninit (fun _ => none) is = some (value, is') ∧
      unread is' ≤ unread is := by
  have byte := unread_getByte is
  have back := unread_unget_getByte is
  have behind (n : Nat) := (unread_readBigEndian n (getByte is).2).trans byte
  rcases next : getByte is with ⟨c, is₁⟩
  rw [next] at family byte back behind
  simp only [readValue, next]
  cases format : getFormatFamily c with
  | map => exact absurd format family
  | bool | unknown => exact ⟨_, _, rfl, byte⟩
  | uint => exact ⟨_, _, rfl, (unread_readUint _).trans back⟩
  | int => exact ⟨_, _, rfl, (unread_readInt _).trans back⟩
  | str => exact ⟨_, _, rfl, (unread_readString uninit _).trans back⟩
  | float =>
      by_cases four : c = float
      · simp only [if_pos four]
        exact ⟨_, _, rfl, behind 4⟩
      · simp only [if_neg four]
        exact ⟨_, _, rfl, behind 8⟩

theorem readValue_map
    (readKeyValues : InputStream → Option (KeyValueMap Bytes MsgPackAny × InputStream))
    {is : InputStream} (family : getFormatFamily (getByte is).1 = .map) :
    readValue uninit readKeyValues is =
      (readKeyValues (getByte is).2.unget).map fun (m, is') => (.keyValues m, is') := by
  simp only [readValue, family]

/-- **The loop over the entries ends** if the nested calls on what is left of the stream do. -/
theorem readPairs_returns
    {readKeyValues : InputStream → Option (KeyValueMap Bytes MsgPackAny × InputStream)} {bound : Nat}
    (nested : ∀ is, unread is ≤ bound → ∃ keyValues is', readKeyValues is = some (keyValues, is') ∧
      ReadsKeyValues uninit is keyValues is' ∧ unread is' ≤ unread is) (tokensToRead : Nat) :
    ∀ (keyValues : KeyValueMap Bytes MsgPackAny) (is : InputStream), unread is ≤ bound →
      ∃ keyValues' is', readPairs uninit readKeyValues tokensToRead keyValues is =
          some (keyValues', is') ∧
        ReadsPairs uninit tokensToRead keyValues is keyValues' is' ∧ unread is' ≤ unread is := by
  induction tokensToRead with
  | zero => intro keyValues is _; exact ⟨keyValues, is, rfl, .done, le_rfl⟩
  | succ tokensToRead ih =>
      intro keyValues is small
      have key := unread_readString uninit is
      by_cases family : getFormatFamily (getByte (readString uninit is).2).1 = .map
      · have back := (unread_unget_getByte (readString uninit is).2).trans key
        obtain ⟨m, is₁, read, run, less⟩ := nested _ (back.trans small)
        have before := less.trans back
        obtain ⟨keyValues', is', others, runs, less'⟩ :=
          ih (keyValues.assign (readString uninit is).1 (.keyValues m)) is₁ (before.trans small)
        refine ⟨keyValues', is', ?_, .nested family run runs, less'.trans before⟩
        have value := readValue_map uninit readKeyValues family
        rw [read, Option.map_some] at value
        simp only [readPairs, value, others]
      · obtain ⟨value, is₁, read, less⟩ := exists_readValue uninit family
        have before := less.trans key
        obtain ⟨keyValues', is', others, runs, less'⟩ :=
          ih (keyValues.assign (readString uninit is).1 value) is₁ (before.trans small)
        refine ⟨keyValues', is', ?_, .scalar family read runs, less'.trans before⟩
        simp only [readPairs, readValue_scalar uninit readKeyValues family, read, others]

/-- **A call returns**, since it takes at least one byte before it calls itself. -/
theorem readKeyValues_returns (depth : Nat) :
    ∀ is : InputStream, unread is < depth →
      ∃ keyValues is', readKeyValues uninit depth is = some (keyValues, is') ∧
        ReadsKeyValues uninit is keyValues is' ∧ unread is' ≤ unread is := by
  induction depth with
  | zero => intro is small; exact absurd small (Nat.not_lt_zero _)
  | succ depth ih =>
      intro is small
      obtain ⟨atMost, taken⟩ := unread_findMap is
      have ends := ends_whileGood consumes_findMapBody none is
      change Ends findMapBody none is (findMap is).1 (findMap is).2 at ends
      rcases search : findMap is with ⟨found, is₁⟩
      rw [search] at atMost taken ends
      cases found with
      | none =>
          exact ⟨[], is₁, by rw [readKeyValues, search], .noMap ends, atMost⟩
      | some c =>
          have less : unread is₁ < unread is := taken (Option.some_ne_none c)
          have header := (unread_readTokensToRead c is₁).trans_lt less
          have nested (is₂ : InputStream) (small₂ : unread is₂ ≤ unread (readTokensToRead c is₁).2) :=
            ih is₂ (by omega)
          obtain ⟨keyValues, is', read, runs, less'⟩ :=
            readPairs_returns uninit nested (readTokensToRead c is₁).1 [] _ le_rfl
          refine ⟨keyValues, is', ?_, .map ends runs, less'.trans header.le⟩
          rw [readKeyValues, search]
          exact read

end Runs

/-! ## Every stream -/

/-- **Decoding ends for every stream**, whatever it announces: there is a run of
`readKeyValues(in)`, which finds no more nested maps than there are bytes, and `decodeFrom(in)`
stores its map. -/
theorem FromMsgPackVisitor.decodeFrom_terminates (uninit : Nat → Byte) (d : FromMsgPackVisitor)
    (is : InputStream) :
    ∃ keyValues is', ReadsKeyValues uninit is keyValues is' ∧
      d.decodeFrom uninit is = some ({ d with keyValues := keyValues }, is') := by
  have small : unread is < is.rest.length + 1 := by
    rw [unread]
    split
    · exact Nat.lt_succ_self _
    · exact Nat.succ_pos _
  obtain ⟨keyValues, is', read, runs, _⟩ := readKeyValues_returns uninit _ is small
  refine ⟨keyValues, is', runs, ?_⟩
  rw [decodeFrom, read]
  rfl

end Cluon
