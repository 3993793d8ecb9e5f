import Cluon.Library.ByteOrder

/-!
# Input streams

A seekable character input stream in the sense of the C++ standard library: the
underlying bytes, the read position, and the two error bits a read can set. A
stream is good while neither bit is set. Reading past the end sets both bits,
and every operation on a stream that is not good reads nothing.

The only loops a decoder runs on a stream are of the form
`while (in.good()) { body }`, possibly left by a `break`. `whileGood` is that
loop. It is defined by structural recursion on a bound that is never reached
when the body consumes input (`whileGood_unfold`, `ends_whileGood`). What holds before every
round is found round by round (`forall_reaches_iff`).
-/

set_option autoImplicit false

namespace Cluon.Library

/-- A seekable input stream: its bytes, the read position, and the error bits. -/
structure InputStream where
  data : Bytes
  pos : Nat
  eofbit : Bool
  failbit : Bool
  deriving DecidableEq, Repr

namespace InputStream

/-- A fresh stream over the given bytes. -/
def ofBytes (bytes : Bytes) : InputStream := ⟨bytes, 0, false, false⟩

/-- No error bit is set. -/
def good (is : InputStream) : Bool := !is.eofbit && !is.failbit

/-- The bytes not yet read. -/
def rest (is : InputStream) : Bytes := is.data.drop is.pos

/-- The stream after a read that ran into the end. -/
def exhausted (is : InputStream) : InputStream :=
  { is with pos := is.pos + is.rest.length, eofbit := true, failbit := true }

/-- The stream with the read position moved forward. -/
def advance (is : InputStream) (n : Nat) : InputStream := { is with pos := is.pos + n }

/-- `in.get()`: the next byte, or nothing at the end of the stream. -/
def get (is : InputStream) : Option Byte × InputStream :=
  if is.good then
    match is.rest with
    | [] => (none, is.exhausted)
    | b :: _ => (some b, is.advance 1)
  else (none, { is with failbit := true })

/-- `in.read(buffer, n)`: the bytes extracted; their number is `in.gcount()`. -/
def read (is : InputStream) (n : Nat) : Bytes × InputStream :=
  if is.good then
    if n ≤ is.rest.length then (is.rest.take n, is.advance n) else (is.rest, is.exhausted)
  else ([], { is with failbit := true })

/-- `in.unget()`: clears the end-of-file bit and steps back by one byte. -/
def unget (is : InputStream) : InputStream :=
  let cleared := { is with eofbit := false }
  if cleared.good && decide (0 < is.pos) then { cleared with pos := is.pos - 1 }
  else { cleared with failbit := true }

/-- `in.clear()`: resets the error bits. -/
def clear (is : InputStream) : InputStream := { is with eofbit := false, failbit := false }

/-- `in.seekg(p)`: clears the end-of-file bit and, unless the stream has failed, moves the
read position. Behind the end of a file there is nothing left to read. -/
def seekg (is : InputStream) (p : Nat) : InputStream :=
  if is.failbit then { is with eofbit := false } else { is with eofbit := false, pos := p }

/-- `in.tellg()`: the read position, or `-1` on a failed stream. -/
def tellg (is : InputStream) : Int := if is.failbit then -1 else is.pos

@[simp] theorem good_ofBytes (bytes : Bytes) : (ofBytes bytes).good = true := rfl

@[simp] theorem rest_ofBytes (bytes : Bytes) : (ofBytes bytes).rest = bytes := rfl

@[simp] theorem good_advance (is : InputStream) (n : Nat) : (is.advance n).good = is.good := rfl

theorem good_advance_of {is : InputStream} (hg : is.good) (n : Nat) : (is.advance n).good := hg

@[simp] theorem good_exhausted (is : InputStream) : is.exhausted.good = false := rfl

@[simp] theorem rest_advance (is : InputStream) (n : Nat) :
    (is.advance n).rest = is.rest.drop n := by
  simp [advance, rest, List.drop_drop]

@[simp] theorem advance_zero (is : InputStream) : is.advance 0 = is := rfl

@[simp] theorem advance_advance (is : InputStream) (m n : Nat) :
    (is.advance m).advance n = is.advance (m + n) := by
  simp [advance, Nat.add_assoc]

@[simp] theorem data_advance (is : InputStream) (n : Nat) : (is.advance n).data = is.data := rfl

@[simp] theorem pos_advance (is : InputStream) (n : Nat) : (is.advance n).pos = is.pos + n := rfl

theorem exhausted_advance {is : InputStream} {n : Nat} (h : n ≤ is.rest.length) :
    (is.advance n).exhausted = is.exhausted := by
  simp only [exhausted, rest_advance, List.length_drop]
  simp only [advance, InputStream.mk.injEq, and_self, and_true, true_and]
  omega

theorem rest_advance_append {is : InputStream} {a t : Bytes} (h : is.rest = a ++ t) :
    (is.advance a.length).rest = t := by
  rw [rest_advance, h, List.drop_left]

theorem get_cons {is : InputStream} {b : Byte} {t : Bytes} (hg : is.good)
    (h : is.rest = b :: t) : is.get = (some b, is.advance 1) := by
  simp [get, hg, h]

theorem get_nil {is : InputStream} (hg : is.good) (h : is.rest = []) :
    is.get = (none, is.exhausted) := by
  simp [get, hg, h]

theorem read_append {is : InputStream} {a t : Bytes} (hg : is.good) (h : is.rest = a ++ t) :
    is.read a.length = (a, is.advance a.length) := by
  simp [read, hg, h]

theorem read_of_le {is : InputStream} {n : Nat} (hg : is.good) (h : n ≤ is.rest.length) :
    is.read n = (is.rest.take n, is.advance n) := by
  simp [read, hg, h]

theorem read_short {is : InputStream} {n : Nat} (hg : is.good) (h : is.rest.length < n) :
    is.read n = (is.rest, is.exhausted) := by
  simp [read, hg, Nat.not_le.mpr h]

/-- A read of a good stream, whether or not there are enough bytes. -/
theorem read_of_good {is : InputStream} (hg : is.good) (n : Nat) :
    is.read n =
      (is.rest.take n, if n ≤ is.rest.length then is.advance n else is.exhausted) := by
  by_cases enough : n ≤ is.rest.length
  · rw [read_of_le hg enough, if_pos enough]
  · rw [read_short hg (Nat.not_le.mp enough), if_neg enough, List.take_of_length_le (by omega)]

theorem read_spoiled {is : InputStream} {n : Nat} (h : is.good = false) :
    is.read n = ([], { is with failbit := true }) := by
  simp [InputStream.read, h]

/-- Putting back the byte just read restores the stream. -/
theorem unget_advance_one {is : InputStream} (hg : is.good) : (is.advance 1).unget = is := by
  simp only [good, Bool.and_eq_true, Bool.not_eq_true'] at hg
  obtain ⟨he, hf⟩ := hg
  cases is
  simp_all [advance, unget, good]

/-! ## Numbers in big-endian order -/

/-- `read` into an integer that is zero before, and the conversion from big-endian order. -/
def readBigEndian (n : Nat) (is : InputStream) : Nat × InputStream :=
  let (bytes, is') := is.read n
  (ofBeBytes (bytes ++ List.replicate (n - bytes.length) 0), is')

/-- Reading a word that was written in big-endian order. -/
theorem readBigEndian_beBytes {w : Nat} (n : Nat) (hw : 2 ^ w = 256 ^ n) (v : BitVec w)
    {is : InputStream} {t : Bytes} (hg : is.good) (hr : is.rest = beBytes n v.toNat ++ t) :
    (readBigEndian n is).2 = is.advance n ∧ BitVec.ofNat w (readBigEndian n is).1 = v := by
  have read := read_append hg hr
  rw [beBytes_length] at read
  simp only [readBigEndian, read, beBytes_length, Nat.sub_self, List.replicate_zero,
    List.append_nil, true_and]
  exact word_beBytes n hw v

/-! ## Reading into memory -/

/-- The memory after `bytes` were written to it from `position` on. -/
def overwrite (memory : Bytes) (position : Nat) (bytes : Bytes) : Bytes :=
  memory.take position ++ bytes ++ memory.drop (position + bytes.length)

/-- `in.read(&memory[position], n)`: the memory, `in.gcount()`, and the stream. There is no
result unless the `n` bytes from `position` on are all in the memory. -/
def readInto (is : InputStream) (memory : Bytes) (position n : Nat) :
    Option (Bytes × Nat × InputStream) :=
  if position + n ≤ memory.length then
    let (bytes, is') := is.read n
    some (overwrite memory position bytes, bytes.length, is')
  else none

/-- The bytes a read can extract; a stream that is not good has none. -/
def available (is : InputStream) : Bytes := if is.good then is.rest else []

theorem overwrite_zero (memory bytes : Bytes) :
    overwrite memory 0 bytes = bytes ++ memory.drop bytes.length := by
  rw [overwrite, List.take_zero, List.nil_append, Nat.zero_add]

/-- Writing right behind what has been written from the beginning of a memory on. -/
theorem overwrite_behind (written memory bytes : Bytes) :
    overwrite (written ++ memory.drop written.length) written.length bytes =
      (written ++ bytes) ++ memory.drop (written ++ bytes).length := by
  rw [overwrite, List.take_left, ← List.drop_drop, List.drop_left, List.drop_drop,
    List.length_append]

theorem available_of_good {is : InputStream} (hg : is.good) : is.available = is.rest :=
  if_pos hg

theorem available_of_spoiled {is : InputStream} (h : is.good = false) : is.available = [] := by
  rw [available, h, if_neg Bool.false_ne_true]

/-! ## Loops that run while a stream is good -/

section Loop

variable {σ : Type}

/-- A loop body: whether to go on, the new loop state, and the stream. -/
abbrev Body (σ : Type) := σ → InputStream → Bool × σ × InputStream

/-- At most `fuel` rounds of `while (in.good())`. -/
def rounds (body : Body σ) : Nat → σ → InputStream → σ × InputStream
  | 0, s, is => (s, is)
  | fuel + 1, s, is =>
      if is.good then
        match body s is with
        | (true, s', is') => rounds body fuel s' is'
        | (false, s', is') => (s', is')
      else (s, is)

/-- `while (in.good()) { body }`, where a body that returns `false` leaves the loop. -/
def whileGood (body : Body σ) (s : σ) (is : InputStream) : σ × InputStream :=
  rounds body (is.rest.length + 1) s is

/-- A body that is to be run again has read something or spoiled the stream. -/
def Consumes (body : Body σ) : Prop :=
  ∀ s is, is.good → (body s is).1 = true → (body s is).2.2.good →
    (body s is).2.2.rest.length < is.rest.length

theorem rounds_of_not_good (body : Body σ) (fuel : Nat) (s : σ) {is : InputStream}
    (h : is.good = false) : rounds body fuel s is = (s, is) := by
  cases fuel with
  | zero => rfl
  | succ fuel => simp [rounds, h]

/-- Rounds beyond the number of unread bytes make no difference. -/
theorem rounds_fuel {body : Body σ} (consumes : Consumes body) :
    ∀ (n m : Nat) (s : σ) (is : InputStream), is.rest.length < n → is.rest.length < m →
      rounds body n s is = rounds body m s is
  | 0, _, _, _, hn, _ => absurd hn (Nat.not_lt_zero _)
  | _, 0, _, _, _, hm => absurd hm (Nat.not_lt_zero _)
  | n + 1, m + 1, s, is, hn, hm => by
      by_cases hg : is.good
      · simp only [rounds, hg, if_true]
        have progress := consumes s is hg
        rcases hb : body s is with ⟨again, s', is'⟩
        rw [hb] at progress
        cases again with
        | false => rfl
        | true =>
            by_cases hg' : is'.good
            · have shorter : is'.rest.length < is.rest.length := progress rfl hg'
              exact rounds_fuel consumes n m s' is' (by omega) (by omega)
            · have spoiled : is'.good = false := by simpa using hg'
              simp only [rounds_of_not_good body _ s' spoiled]
      · have spoiled : is.good = false := by simpa using hg
        simp only [rounds_of_not_good body _ s spoiled]

/-- **One round of a consuming loop.** -/
theorem whileGood_unfold {body : Body σ} (consumes : Consumes body) (s : σ) (is : InputStream) :
    whileGood body s is =
      if is.good then
        match body s is with
        | (true, s', is') => whileGood body s' is'
        | (false, s', is') => (s', is')
      else (s, is) := by
  by_cases hg : is.good
  · have progress := consumes s is hg
    rw [if_pos hg, whileGood, rounds, if_pos hg]
    rcases hb : body s is with ⟨again, s', is'⟩
    rw [hb] at progress
    cases again with
    | false => rfl
    | true =>
        by_cases hg' : is'.good
        · have shorter : is'.rest.length < is.rest.length := progress rfl hg'
          exact rounds_fuel consumes _ _ s' is' (by omega) (by omega)
        · have spoiled : is'.good = false := by simpa using hg'
          simp only [whileGood, rounds_of_not_good body _ s' spoiled]
  · rw [if_neg hg]
    exact rounds_of_not_good body _ s (by simpa using hg)

/-- A round that goes on. -/
theorem whileGood_again {body : Body σ} (consumes : Consumes body) {s s' : σ}
    {is is' : InputStream} (hg : is.good) (h : body s is = (true, s', is')) :
    whileGood body s is = whileGood body s' is' := by
  rw [whileGood_unfold consumes, if_pos hg, h]

/-- A round that leaves the loop. -/
theorem whileGood_break {body : Body σ} (consumes : Consumes body) {s s' : σ}
    {is is' : InputStream} (hg : is.good) (h : body s is = (false, s', is')) :
    whileGood body s is = (s', is') := by
  rw [whileGood_unfold consumes, if_pos hg, h]

/-- The loop does nothing on a stream that is not good. -/
theorem whileGood_spoiled (body : Body σ) (s : σ) {is : InputStream} (h : is.good = false) :
    whileGood body s is = (s, is) :=
  rounds_of_not_good body _ s h

/-- **Invariant rule.** What one round preserves, the loop preserves. -/
theorem whileGood_invariant {body : Body σ} (P : σ → InputStream → Prop)
    (step : ∀ s is, is.good → P s is → P (body s is).2.1 (body s is).2.2) :
    ∀ {s : σ} {is : InputStream}, P s is →
      P (whileGood body s is).1 (whileGood body s is).2 := by
  have bounded : ∀ (n : Nat) (s : σ) (is : InputStream), P s is →
      P (rounds body n s is).1 (rounds body n s is).2 := by
    intro n
    induction n with
    | zero => intro s is h; exact h
    | succ n ih =>
        intro s is h
        simp only [rounds]
        by_cases hg : is.good
        · rw [if_pos hg]
          have next := step s is hg h
          rcases hb : body s is with ⟨again, s', is'⟩
          rw [hb] at next
          cases again with
          | false => exact next
          | true => exact ih s' is' next
        · rw [if_neg hg]
          exact h
  intro s is h
  exact bounded _ s is h

/-- **Simulation rule.** Loops whose rounds do the same with the stream and keep their states
related keep them related. -/
theorem whileGood_simulates {τ : Type} {body : Body σ} {body' : Body τ} (R : σ → τ → Prop)
    (step : ∀ s t is, R s t → (body s is).1 = (body' t is).1 ∧
      R (body s is).2.1 (body' t is).2.1 ∧ (body s is).2.2 = (body' t is).2.2) :
    ∀ {s : σ} {t : τ} (is : InputStream), R s t →
      R (whileGood body s is).1 (whileGood body' t is).1 ∧
        (whileGood body s is).2 = (whileGood body' t is).2 := by
  have bounded : ∀ (n : Nat) (s : σ) (t : τ) (is : InputStream), R s t →
      R (rounds body n s is).1 (rounds body' n t is).1 ∧
        (rounds body n s is).2 = (rounds body' n t is).2 := by
    intro n
    induction n with
    | zero => intro s t is h; exact ⟨h, rfl⟩
    | succ n ih =>
        intro s t is h
        simp only [rounds]
        by_cases hg : is.good
        · rw [if_pos hg, if_pos hg]
          obtain ⟨again, related, same⟩ := step s t is h
          rcases hb : body s is with ⟨more, s', is₁⟩
          rcases hb' : body' t is with ⟨more', t', is₂⟩
          rw [hb, hb'] at again related same
          simp only at again related same
          subst again same
          cases more with
          | false => exact ⟨related, rfl⟩
          | true => exact ih s' t' is₁ related
        · rw [if_neg hg, if_neg hg]
          exact ⟨h, rfl⟩
  intro s t is h
  exact bounded _ s t is h

/-- The states and streams before the rounds of a loop, its first one included. -/
inductive Reaches (body : Body σ) (s : σ) (is : InputStream) : σ → InputStream → Prop
  | start : Reaches body s is s is
  | round {s' : σ} {is' : InputStream} : Reaches body s is s' is' → is'.good →
      (body s' is').1 = true → Reaches body s is (body s' is').2.1 (body s' is').2.2

/-- What is reached behind the first round. -/
theorem Reaches.head {body : Body σ} {s s' : σ} {is is' : InputStream} (hg : is.good)
    (again : (body s is).1 = true)
    (reaches : Reaches body (body s is).2.1 (body s is).2.2 s' is') :
    Reaches body s is s' is' := by
  induction reaches with
  | start => exact .round .start hg again
  | round _ good more ih => exact .round ih good more

/-- **Round by round.** A condition holds before every round if it holds before the first one
and before every later one. -/
theorem forall_reaches_iff {body : Body σ} {P : σ → InputStream → Prop} {s s₁ : σ}
    {is is₁ : InputStream} (hg : is.good) (first : body s is = (true, s₁, is₁)) :
    (∀ s' is', Reaches body s is s' is' → is'.good → P s' is') ↔
      P s is ∧ ∀ s' is', Reaches body s₁ is₁ s' is' → is'.good → P s' is' := by
  have again : (body s is).1 = true := by rw [first]
  constructor
  · intro every
    refine ⟨every s is .start hg, fun s' is' later good => every s' is' ?_ good⟩
    apply Reaches.head hg again
    rw [first]
    exact later
  · rintro ⟨here, later⟩ s' is' reaches good
    have split : (s' = s ∧ is' = is) ∨ Reaches body s₁ is₁ s' is' := by
      clear good
      induction reaches with
      | start => exact .inl ⟨rfl, rfl⟩
      | @round s₂ is₂ _ good more ih =>
          rcases ih with ⟨rfl, rfl⟩ | behind
          · rw [first]
            exact .inr .start
          · exact .inr (.round behind good more)
    rcases split with ⟨rfl, rfl⟩ | behind
    · exact here
    · exact later s' is' behind good

/-- Nothing is reached behind a stream that is not good. -/
theorem Reaches.of_spoiled {body : Body σ} {s s' : σ} {is is' : InputStream}
    (spoiled : is.good = false) (reaches : Reaches body s is s' is') : is'.good = false := by
  induction reaches with
  | start => exact spoiled
  | round _ good _ ih => exact absurd good (by rw [ih]; exact Bool.false_ne_true)

/-- Behind a round that leaves the loop nothing is reached. -/
theorem Reaches.of_break {body : Body σ} {s s' : σ} {is is' : InputStream}
    (leaves : (body s is).1 = false) (reaches : Reaches body s is s' is') :
    s' = s ∧ is' = is := by
  induction reaches with
  | start => exact ⟨rfl, rfl⟩
  | round _ _ more ih =>
      obtain ⟨rfl, rfl⟩ := ih
      exact absurd more (by rw [leaves]; exact Bool.false_ne_true)

/-- The loop ends with the given state and stream. -/
inductive Ends (body : Body σ) : σ → InputStream → σ → InputStream → Prop
  | spoiled {s : σ} {is : InputStream} : is.good = false → Ends body s is s is
  | leaves {s s' : σ} {is is' : InputStream} : is.good → body s is = (false, s', is') →
      Ends body s is s' is'
  | again {s s' s'' : σ} {is is' is'' : InputStream} : is.good → body s is = (true, s', is') →
      Ends body s' is' s'' is'' → Ends body s is s'' is''

/-- **A consuming loop ends.** -/
theorem ends_whileGood {body : Body σ} (consumes : Consumes body) (s : σ) (is : InputStream) :
    Ends body s is (whileGood body s is).1 (whileGood body s is).2 := by
  have bounded : ∀ (n : Nat) (s : σ) (is : InputStream), is.rest.length < n →
      Ends body s is (whileGood body s is).1 (whileGood body s is).2 := by
    intro n
    induction n with
    | zero => intro s is h; exact absurd h (Nat.not_lt_zero _)
    | succ n ih =>
        intro s is h
        by_cases hg : is.good
        · have progress := consumes s is hg
          rcases hb : body s is with ⟨more, s', is'⟩
          rw [hb] at progress
          cases more with
          | false =>
              rw [whileGood_break consumes hg hb]
              exact .leaves hg hb
          | true =>
              rw [whileGood_again consumes hg hb]
              refine .again hg hb ?_
              by_cases hg' : is'.good
              · have shorter : is'.rest.length < is.rest.length := progress rfl hg'
                exact ih s' is' (by omega)
              · have spoiled : is'.good = false := by simpa using hg'
                rw [whileGood_spoiled body s' spoiled]
                exact .spoiled spoiled
        · have spoiled : is.good = false := by simpa using hg
          rw [whileGood_spoiled body s spoiled]
          exact .spoiled spoiled
  exact bounded _ s is (Nat.lt_succ_self _)

/-- A loop ends in one way only. -/
theorem ends_iff {body : Body σ} (consumes : Consumes body) {s s' : σ} {is is' : InputStream} :
    Ends body s is s' is' ↔ whileGood body s is = (s', is') := by
  constructor
  · intro ends
    induction ends with
    | spoiled h => exact whileGood_spoiled body _ h
    | leaves hg last => exact whileGood_break consumes hg last
    | again hg round _ ih => exact (whileGood_again consumes hg round).trans ih
  · intro result
    have ends := ends_whileGood consumes s is
    rw [result] at ends
    exact ends

/-- **The rule for a loop that ends.** What the rounds that go on preserve holds at its end,
which is a stream that is not good or a round that leaves the loop. -/
theorem Ends.invariant {body : Body σ} {P : σ → InputStream → Prop}
    (step : ∀ s is, is.good → P s is → (body s is).1 = true →
      P (body s is).2.1 (body s is).2.2)
    {s s' : σ} {is is' : InputStream} (ends : Ends body s is s' is') (start : P s is) :
    (is'.good = false ∧ P s' is') ∨
      ∃ s₁ is₁, is₁.good ∧ P s₁ is₁ ∧ body s₁ is₁ = (false, s', is') := by
  induction ends with
  | spoiled h => exact .inl ⟨h, start⟩
  | leaves hg last => exact .inr ⟨_, _, hg, start, last⟩
  | again hg round _ ih =>
      have next := step _ _ hg start
      rw [round] at next
      exact ih (next rfl)

end Loop

end InputStream

/-! ## Strings built from reserved memory -/

/-- The memory of a vector that is only ever reserved: its capacity, and the bytes written
to it from its beginning. -/
structure StringBuffer where
  capacity : Nat
  written : Bytes
  deriving DecidableEq, Repr

namespace StringBuffer

/-- `reserve(n)`: more capacity is new memory, into which nothing has been written. -/
def reserve (b : StringBuffer) (n : Nat) : StringBuffer :=
  if b.capacity < n then ⟨n, []⟩ else b

/-- The buffer after bytes were written at its beginning. -/
def write (b : StringBuffer) (bytes : Bytes) : StringBuffer :=
  { b with written := bytes ++ b.written.drop bytes.length }

/-- `std::string(data(), n)`: the first `n` bytes of the memory, as long as the capacity has as
many. Beyond it the behaviour is undefined; without any capacity `data()` is null, and a string of
more than no bytes throws an exception. -/
def str (uninit : Nat → Byte) (b : StringBuffer) (n : Nat) : Bytes :=
  b.written.take n ++
    (List.range (n - b.written.length)).map fun i => uninit (b.written.length + i)

theorem str_of_le (uninit : Nat → Byte) {b : StringBuffer} {n : Nat}
    (h : n ≤ b.written.length) : b.str uninit n = b.written.take n := by
  simp [str, Nat.sub_eq_zero_of_le h]

theorem length_str (uninit : Nat → Byte) (b : StringBuffer) (n : Nat) :
    (b.str uninit n).length = n := by
  rw [str, List.length_append, List.length_take, List.length_map, List.length_range]
  omega

end StringBuffer

end Cluon.Library
