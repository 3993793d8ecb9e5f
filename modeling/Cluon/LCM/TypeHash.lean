import Cluon.LCM.RoundTrip
import Mathlib.Data.BitVec
import Mathlib.Dynamics.PeriodicPts.Lemmas

/-!
# The hash of a message type

Encoder and decoder compute the hash of a message type with a `calculateHash(s)` of their own. Both
put the length of at most 255 characters in front, but the encoder then takes all characters of a
name, and the decoder the first 255 of them. So they agree on a type whose names have at most 255
characters (`hashesAgree`).

A single character changes the hash by an injective map, and so do all further ones, so that one
long name makes a difference unless the characters that only the encoder takes lead back to the same
hash. There are such characters for every name (`exists_tail`), so that the length of the names
alone does not decide about the hashes.
-/

set_option autoImplicit false

namespace Cluon

open Library InputStream

/-! ## One character -/

namespace LCM

/-- What a character is added to. -/
def mix (hash : BitVec 64) : BitVec 64 := (hash <<< 8) ^^^ (hash.sshiftRight 55)

theorem getLsbD_mix (hash : BitVec 64) {i : Nat} (lt : i < 64) :
    (mix hash).getLsbD i =
      ((decide (8 ≤ i) && hash.getLsbD (i - 8)) ^^ hash.getLsbD (min (i + 55) 63)) := by
  rw [mix, BitVec.getLsbD_xor, BitVec.getLsbD_shiftLeft, BitVec.getLsbD_sshiftRight,
    BitVec.msb_eq_getLsbD_last]
  have inside : ¬ 64 ≤ i := Nat.not_le.mpr lt
  by_cases low : 55 + i < 64
  · rw [if_pos low, Nat.min_eq_left (by omega), Nat.add_comm 55 i]
    simp [lt, inside]
    grind
  · rw [if_neg low, Nat.min_eq_right (by omega)]
    simp [lt, inside]
    grind

/-- **The bits of the hash can be recovered**: the highest ones first, and from them all others. -/
theorem mix_injective {hash hash' : BitVec 64} (same : mix hash = mix hash') : hash = hash' := by
  have bits {i : Nat} (lt : i < 64) := congrArg (fun x : BitVec 64 => x.getLsbD i) same
  have high {j : Nat} (le : 55 ≤ j) (lt : j < 63) : hash.getLsbD j = hash'.getLsbD j := by
    have here := bits (i := j - 55) (by omega)
    rw [getLsbD_mix hash (by omega), getLsbD_mix hash' (by omega)] at here
    have low : ¬ 8 ≤ j - 55 := by omega
    have index : min (j - 55 + 55) 63 = j := by omega
    simpa only [low, index, decide_false, Bool.false_and, Bool.false_xor] using here
  have above {j : Nat} (le : j ≤ 55) :
      (hash.getLsbD j ^^ hash.getLsbD (min (j + 63) 63)) =
        (hash'.getLsbD j ^^ hash'.getLsbD (min (j + 63) 63)) := by
    have here := bits (i := j + 8) (by omega)
    rw [getLsbD_mix hash (by omega), getLsbD_mix hash' (by omega)] at here
    have index : j + 8 + 55 = j + 63 := by omega
    simpa only [Nat.le_add_left, decide_true, Bool.true_and, Nat.add_sub_cancel, index] using here
  have sign : hash.getLsbD 63 = hash'.getLsbD 63 := by
    have here := above (j := 55) le_rfl
    rw [high le_rfl (by decide)] at here
    exact Bool.xor_right_inj.mp here
  apply BitVec.eq_of_getLsbD_eq
  intro j lt
  by_cases low : j ≤ 55
  · have here := above low
    rw [Nat.min_eq_right (by omega), sign] at here
    exact Bool.xor_left_inj.mp here
  · by_cases last : j = 63
    · rw [last, sign]
    · exact high (by omega) (by omega)

theorem calculateHashChar_injective (c : Byte) :
    Function.Injective fun hash => calculateHashChar hash c := by
  intro hash hash' same
  exact mix_injective (BitVec.add_left_inj (c.signExtend 64) |>.mp same)

theorem foldl_injective (s : Bytes) :
    Function.Injective fun hash => s.foldl calculateHashChar hash := by
  induction s with
  | nil => exact fun _ _ same => same
  | cons c s ih => exact fun _ _ same => calculateHashChar_injective c (ih same)

/-- **Whatever the hash is, a character that is repeated leads back to it.** -/
theorem exists_tail (hash : BitVec 64) (c : Byte) :
    ∃ n > 0, (List.replicate n c).foldl calculateHashChar hash = hash := by
  have repeated (n : Nat) : ∀ h : BitVec 64, (List.replicate n c).foldl calculateHashChar h =
      (fun h => calculateHashChar h c)^[n] h := by
    induction n with
    | zero => intro h; rfl
    | succ n ih => intro h; exact ih (calculateHashChar h c)
  have finite : Finite (BitVec 64) :=
    Finite.of_injective BitVec.toFin fun _ _ same => BitVec.eq_of_toFin_eq same
  obtain ⟨n, positive, periodic⟩ :=
    Function.Injective.mem_periodicPts (calculateHashChar_injective c) hash
  exact ⟨n, positive, (repeated n hash).trans periodic⟩

/-! ## Sums -/

theorem foldl_add (hashes : List (BitVec 64)) :
    ∀ hash : BitVec 64, hashes.foldl (· + ·) hash = hash + hashes.sum := by
  induction hashes with
  | nil => intro hash; exact (BitVec.add_zero hash).symm
  | cons h hashes ih =>
      intro hash
      rw [List.foldl_cons, ih, List.sum_cons, BitVec.add_assoc]

theorem hash_eq (ownHash : BitVec 64) (hashes : List (BitVec 64)) :
    hash ownHash hashes = hash (ownHash + hashes.sum) [] := by
  rw [hash, foldl_add, hash, List.foldl_nil]

theorem toNat_hash_nil (tmp : BitVec 64) :
    (hash tmp []).toNat =
      if tmp.toNat < 2 ^ 63 then 2 * tmp.toNat else 2 * tmp.toNat - (2 ^ 64 - 1) := by
  have lt := tmp.isLt
  have two : (tmp <<< 1).toNat = 2 * tmp.toNat % 2 ^ 64 := by
    rw [BitVec.toNat_shiftLeft, Nat.shiftLeft_eq, Nat.mul_comm, pow_one]
  have sign : (tmp.sshiftRight 63 &&& 1).toNat = tmp.toNat / 2 ^ 63 := by
    have last : (tmp.sshiftRight 63 &&& 1).toNat = (tmp.sshiftRight 63).toNat % 2 := by
      rw [BitVec.toNat_and]
      exact Nat.and_one_is_mod _
    have msb := BitVec.msb_eq_decide tmp
    rw [last]
    cases negative : tmp.msb with
    | false =>
        rw [BitVec.sshiftRight_eq_of_msb_false negative, BitVec.toNat_ushiftRight,
          Nat.shiftRight_eq_div_pow]
        omega
    | true =>
        rw [negative] at msb
        have large := of_decide_eq_true msb.symm
        rw [BitVec.sshiftRight_eq_of_msb_true negative, BitVec.toNat_not,
          BitVec.toNat_ushiftRight, Nat.shiftRight_eq_div_pow, BitVec.toNat_not]
        omega
  change (tmp <<< 1 + (tmp.sshiftRight 63 &&& 1)).toNat = _
  rw [BitVec.toNat_add, two, sign]
  split
  · rename_i small
    rw [Nat.div_eq_of_lt small, Nat.mod_eq_of_lt (by omega), Nat.add_zero,
      Nat.mod_eq_of_lt (by omega)]
  · rename_i large
    have one : tmp.toNat / 2 ^ 63 = 1 := by omega
    have twice : 2 * tmp.toNat % 2 ^ 64 = 2 * tmp.toNat - 2 ^ 64 := by omega
    rw [one, twice, Nat.mod_eq_of_lt (by omega)]
    omega

/-- The sum of all hashes can be recovered. -/
theorem sum_of_hash {ownHash ownHash' : BitVec 64} {hashes hashes' : List (BitVec 64)}
    (same : hash ownHash hashes = hash ownHash' hashes') :
    ownHash + hashes.sum = ownHash' + hashes'.sum := by
  rw [hash_eq ownHash, hash_eq ownHash'] at same
  have numbers := congrArg BitVec.toNat same
  rw [toNat_hash_nil, toNat_hash_nil] at numbers
  apply BitVec.eq_of_toNat_eq
  have lt := (ownHash + hashes.sum).isLt
  have lt' := (ownHash' + hashes'.sum).isLt
  split at numbers
  · split at numbers
    · omega
    · omega
  · split at numbers
    · omega
    · omega

end LCM

/-! ## The hashes of a message type -/

namespace Fields

section Hash

variable (calculateHash : BitVec 64 → Bytes → BitVec 64)

/-- The hash of the fields of a message, from the hash before. -/
def ownHash : Fields → BitVec 64 → BitVec 64
  | .nil, hash => hash
  | .scalar field t rest, hash =>
      rest.ownHash (LCM.calculateHashChar
        (calculateHash (calculateHash hash field.name) (LCM.hashedType t)) 0)
  | .nested field _ _ rest, hash =>
      rest.ownHash (LCM.calculateHashChar (calculateHash hash field.name) 0)

/-- The hashes of the nested messages. -/
def nestedHashes : Fields → List (BitVec 64)
  | .nil => []
  | .scalar _ _ rest => rest.nestedHashes
  | .nested _ _ inner rest =>
      LCM.hash (inner.ownHash calculateHash LCM.initialHash) inner.nestedHashes ::
        rest.nestedHashes

/-- The hash of a message with the given fields. -/
def lcmHash (fs : Fields) : BitVec 64 :=
  LCM.hash (fs.ownHash calculateHash LCM.initialHash) (fs.nestedHashes calculateHash)

end Hash

/-- The number of names with more than 255 characters. -/
def longNames : Fields → Nat
  | .nil => 0
  | .scalar field _ rest => (if 255 < field.name.length then 1 else 0) + rest.longNames
  | .nested field _ inner rest =>
      (if 255 < field.name.length then 1 else 0) + inner.longNames + rest.longNames

/-- The characters behind the first 255 of each name lead back to the hash before them. -/
def TailsKept : Fields → BitVec 64 → Prop
  | .nil, _ => True
  | .scalar field t rest, hash =>
      let named := FromLCMVisitor.calculateHash hash field.name
      (field.name.drop 255).foldl LCM.calculateHashChar named = named ∧
        rest.TailsKept (LCM.calculateHashChar
          (FromLCMVisitor.calculateHash named (LCM.hashedType t)) 0)
  | .nested field _ inner rest, hash =>
      let named := FromLCMVisitor.calculateHash hash field.name
      (field.name.drop 255).foldl LCM.calculateHashChar named = named ∧
        inner.TailsKept LCM.initialHash ∧ rest.TailsKept (LCM.calculateHashChar named 0)

end Fields

/-- A correct message is not reported as a mismatch: a decoder computes the hash that the encoder
has transmitted while a message of the same type accepts it, and, whatever it was used for before,
reports no mismatch. -/
structure HashesAgree (T : MessageType) : Prop where
  computed : ∀ (uninit : Nat → Byte) (m v : T.Values),
    let d := (FromLCMVisitor.init.decodeFrom
      (ofBytes ((ToLCMVisitor.encoded T m).encodedData true))).1
    let d' := ((T.visitable (FromLCMVisitor.visitor uninit)).accept v d).2
    LCM.hash d'.calculatedHash d'.hashes = ToLCMVisitor.transmittedHash T m
  unreported : ∀ (uninit : Nat → Byte) (m v : T.Values) (d : FromLCMVisitor),
    let d₁ := (d.decodeFrom (ofBytes ((ToLCMVisitor.encoded T m).encodedData true))).1
    ((T.visitable (FromLCMVisitor.visitor uninit)).accept v d₁).2.hashMismatches =
      d.hashMismatches

/-! ## What encoder and decoder compute -/

theorem Fields.accept_toLCM_hash (fs : Fields) :
    ∀ (m : fs.Values) (e : ToLCMVisitor),
      ((fs.visitable ToLCMVisitor.visitor).accept m e).2.hash =
          fs.ownHash ToLCMVisitor.calculateHash e.hash ∧
        ((fs.visitable ToLCMVisitor.visitor).accept m e).2.hashes =
          e.hashes ++ fs.nestedHashes ToLCMVisitor.calculateHash := by
  induction fs with
  | nil => intro m e; exact ⟨rfl, (List.append_nil _).symm⟩
  | scalar field t rest ih =>
      intro m e
      rw [accept_scalar]
      exact ih m.2 (ToLCMVisitor.visitor.visit field t m.1 e).2
  | nested field info inner rest ihInner ih =>
      intro m e
      obtain ⟨innerHash, innerHashes⟩ := ihInner m.1 ToLCMVisitor.init
      obtain ⟨own, nested⟩ := ih m.2 (ToLCMVisitor.visitor.visitMessage field
        ((MessageType.mk info inner).visitable ToLCMVisitor.visitor) m.1 e).2
      rw [accept_nested]
      refine ⟨own, nested.trans ?_⟩
      rw [nestedHashes, ← List.singleton_append, ← List.append_assoc]
      apply congrArg (e.hashes ++ [·] ++ rest.nestedHashes ToLCMVisitor.calculateHash)
      exact congrArg₂ LCM.hash innerHash innerHashes

theorem ToLCMVisitor.transmittedHash_eq (T : MessageType) (m : T.Values) :
    transmittedHash T m = T.fields.lcmHash calculateHash := by
  obtain ⟨own, nested⟩ := T.fields.accept_toLCM_hash m init
  exact congrArg₂ LCM.hash own nested

namespace FromLCMVisitor

variable (uninit : Nat → Byte)

/-- What the visits of the fields of a message do to the hashes of a decoder. -/
structure Hashed (fs : Fields) (d d' : FromLCMVisitor) : Prop where
  calculatedHash_eq : d'.calculatedHash = fs.ownHash calculateHash d.calculatedHash
  hashes_eq : d'.hashes = d.hashes ++ fs.nestedHashes calculateHash
  expectedHash_eq : d'.expectedHash = d.expectedHash
  hashMismatches_eq : d'.hashMismatches = d.hashMismatches

/-- A decoder of a nested message expects no hash, so that it reports no mismatch. -/
theorem accept_hashed (fs : Fields) :
    ∀ (v : fs.Values) (d : FromLCMVisitor),
      Hashed fs d ((fs.visitable (visitor uninit)).accept v d).2 := by
  induction fs with
  | nil => intro v d; exact ⟨rfl, (List.append_nil _).symm, rfl, rfl⟩
  | scalar field t rest ih =>
      intro v d
      obtain ⟨own, nested, expected, mismatches⟩ :=
        ih v.2 ((visitor uninit).visit field t v.1 d).2
      rw [Fields.accept_scalar]
      exact ⟨own, nested, expected, mismatches⟩
  | nested field info inner rest ihInner ih =>
      intro v d
      have within := ihInner v.1 (sharing d.buffer)
      have unhashed := acceptAll_of_expectedHash_eq_zero uninit info
        (inner.visitable (visitor uninit)).accept v.1 (d := sharing d.buffer) rfl
        within.expectedHash_eq
      have visited := visitMessage_eq uninit field
        ((MessageType.mk info inner).visitable (visitor uninit)) v.1 d
      rw [MessageType.accept_eq, unhashed] at visited
      obtain ⟨own, nested, expected, mismatches⟩ := ih v.2
        ((visitor uninit).visitMessage field
          ((MessageType.mk info inner).visitable (visitor uninit)) v.1 d).2
      rw [visited] at own nested expected mismatches
      rw [Fields.accept_nested, visited]
      refine ⟨own, nested.trans ?_, expected, mismatches.trans ?_⟩
      · rw [Fields.nestedHashes, ← List.singleton_append, ← List.append_assoc]
        apply congrArg (d.hashes ++ [·] ++ rest.nestedHashes calculateHash)
        exact congrArg₂ LCM.hash within.calculatedHash_eq within.hashes_eq
      · exact congrArg (d.hashMismatches + ·) within.hashMismatches_eq

theorem postVisit_hash (d : FromLCMVisitor) :
    LCM.hash d.postVisit.calculatedHash d.postVisit.hashes =
      LCM.hash d.calculatedHash d.hashes := by
  rw [postVisit]
  split
  · rfl
  · rfl

/-- A decoder that begins with the hash of no fields computes the one of the type, and compares it
with what it expects. -/
theorem accept_of_initialHash (T : MessageType) (v : T.Values) {d : FromLCMVisitor}
    (initial : d.preVisit.calculatedHash = LCM.initialHash) (none : d.preVisit.hashes = [])
    (expected : d.preVisit.expectedHash = d.expectedHash)
    (mismatches : d.preVisit.hashMismatches = d.hashMismatches) :
    let d' := ((T.visitable (visitor uninit)).accept v d).2
    LCM.hash d'.calculatedHash d'.hashes = T.fields.lcmHash calculateHash ∧
      (d.expectedHash = T.fields.lcmHash calculateHash → d'.hashMismatches = d.hashMismatches) := by
  intro d'
  have visited : d' =
      ((T.fields.visitable (visitor uninit)).accept v d.preVisit).2.postVisit := rfl
  have hashed := accept_hashed uninit T.fields v d.preVisit
  generalize ((T.fields.visitable (visitor uninit)).accept v d.preVisit).2 = d'' at visited hashed
  have computed : LCM.hash d''.calculatedHash d''.hashes = T.fields.lcmHash calculateHash := by
    rw [hashed.calculatedHash_eq, hashed.hashes_eq, initial, none, List.nil_append]
    rfl
  have expected' := hashed.expectedHash_eq.trans expected
  have mismatches' := hashed.hashMismatches_eq.trans mismatches
  rw [visited, postVisit_hash, computed, postVisit, expected', computed]
  refine ⟨rfl, fun same => ?_⟩
  rw [if_neg fun both => both.2 same, mismatches']

/-- A decoder that expects no hash reports no mismatch. -/
theorem accept_unhashed (T : MessageType) (v : T.Values) {d : FromLCMVisitor}
    (unhashed : d.expectedHash = 0) :
    ((T.visitable (visitor uninit)).accept v d).2.hashMismatches = d.hashMismatches := by
  have began : d.preVisit = d := if_neg (not_not.mpr unhashed)
  have hashed := accept_hashed uninit T.fields v d
  have kept := hashed.expectedHash_eq.trans unhashed
  rw [MessageType.accept_eq,
    acceptAll_of_expectedHash_eq_zero uninit T.info _ v unhashed kept]
  exact hashed.hashMismatches_eq

end FromLCMVisitor

/-- The hashes agree if encoder and decoder compute the same one. -/
theorem hashesAgree_iff_lcmHash (T : MessageType) :
    HashesAgree T ↔ T.fields.lcmHash ToLCMVisitor.calculateHash =
      T.fields.lcmHash FromLCMVisitor.calculateHash := by
  have decoded (m : T.Values) (d : FromLCMVisitor) :
      (d.decodeFrom (ofBytes ((ToLCMVisitor.encoded T m).encodedData true))).1 = _ :=
    FromLCMVisitor.decodeFrom_encodedData m d rfl rfl
  -- A new decoder begins with the hash of no fields, whether it expects a hash or not.
  have new (uninit : Nat → Byte) (m v : T.Values) :
      let d := (FromLCMVisitor.init.decodeFrom
        (ofBytes ((ToLCMVisitor.encoded T m).encodedData true))).1
      let d' := ((T.visitable (FromLCMVisitor.visitor uninit)).accept v d).2
      LCM.hash d'.calculatedHash d'.hashes = T.fields.lcmHash FromLCMVisitor.calculateHash := by
    simp only [decoded]
    by_cases unhashed : ToLCMVisitor.transmittedHash T m = 0
    · rw [unhashed]
      exact (FromLCMVisitor.accept_of_initialHash uninit T v rfl rfl rfl rfl).1
    · have began : FromLCMVisitor.preVisit { FromLCMVisitor.init with
          expectedHash := ToLCMVisitor.transmittedHash T m
          buffer := ⟨T.fields.lcmBytes m, 0, false, (T.fields.lcmBytes m).isEmpty⟩ } = _ :=
        if_pos unhashed
      refine (FromLCMVisitor.accept_of_initialHash uninit T v ?_ ?_ ?_ ?_).1
      all_goals rw [began]
  constructor
  · intro agree
    obtain ⟨m⟩ := T.fields.nonempty_values
    have same := (new (fun _ => 0) m m).symm.trans (agree.computed (fun _ => 0) m m)
    rw [same, ToLCMVisitor.transmittedHash_eq]
  · intro same
    refine ⟨fun uninit m v => ?_, fun uninit m v d => ?_⟩
    · intro d d'
      exact (new uninit m v).trans (same.symm.trans (ToLCMVisitor.transmittedHash_eq T m).symm)
    · simp only [decoded]
      have transmitted := (ToLCMVisitor.transmittedHash_eq T m).trans same
      by_cases unhashed : ToLCMVisitor.transmittedHash T m = 0
      · rw [unhashed]
        exact FromLCMVisitor.accept_unhashed uninit T v rfl
      · have began : FromLCMVisitor.preVisit { d with
            expectedHash := ToLCMVisitor.transmittedHash T m
            buffer := ⟨T.fields.lcmBytes m, 0, false, (T.fields.lcmBytes m).isEmpty⟩ } = _ :=
          if_pos unhashed
        refine (FromLCMVisitor.accept_of_initialHash uninit T v ?_ ?_ ?_ ?_).2 transmitted
        all_goals rw [began]

/-! ## Long names -/

theorem FromLCMVisitor.calculateHash_injective (s : Bytes) :
    Function.Injective fun hash => calculateHash hash s :=
  fun _ _ same => LCM.calculateHashChar_injective _ (LCM.foldl_injective (s.take 255) same)

/-- The encoder goes on with the characters that the decoder leaves out. -/
theorem ToLCMVisitor.calculateHash_eq (hash : BitVec 64) (s : Bytes) :
    calculateHash hash s = (s.drop 255).foldl LCM.calculateHashChar
      (FromLCMVisitor.calculateHash hash s) := by
  rw [calculateHash, FromLCMVisitor.calculateHash, ← List.foldl_append, List.take_append_drop]

/-- Without such characters they compute the same. -/
theorem ToLCMVisitor.calculateHash_of_short {s : Bytes} (short : s.length ≤ 255)
    (hash : BitVec 64) : calculateHash hash s = FromLCMVisitor.calculateHash hash s := by
  rw [calculateHash_eq, List.drop_of_length_le short]
  rfl

theorem ToLCMVisitor.calculateHash_hashedType (t : ScalarType) (hash : BitVec 64) :
    calculateHash hash (LCM.hashedType t) =
      FromLCMVisitor.calculateHash hash (LCM.hashedType t) := by
  refine calculateHash_of_short ?_ hash
  cases t
  all_goals decide

namespace Fields

theorem ownHash_injective (fs : Fields) :
    Function.Injective (fs.ownHash FromLCMVisitor.calculateHash) := by
  induction fs with
  | nil => exact fun _ _ same => same
  | scalar field t rest ih =>
      intro hash hash' same
      have typed := LCM.calculateHashChar_injective 0 (ih same)
      exact FromLCMVisitor.calculateHash_injective field.name
        (FromLCMVisitor.calculateHash_injective (LCM.hashedType t) typed)
  | nested field info inner rest _ ih =>
      intro hash hash' same
      exact FromLCMVisitor.calculateHash_injective field.name
        (LCM.calculateHashChar_injective 0 (ih same))

/-- **Where the characters behind the first 255 lead back, the hashes agree.** -/
theorem hashes_of_tailsKept (fs : Fields) :
    ∀ {hash : BitVec 64}, fs.TailsKept hash →
      fs.ownHash ToLCMVisitor.calculateHash hash =
          fs.ownHash FromLCMVisitor.calculateHash hash ∧
        fs.nestedHashes ToLCMVisitor.calculateHash =
          fs.nestedHashes FromLCMVisitor.calculateHash := by
  induction fs with
  | nil => intro hash _; exact ⟨rfl, rfl⟩
  | scalar field t rest ih =>
      rintro hash ⟨kept, others⟩
      obtain ⟨own, nested⟩ := ih others
      refine ⟨?_, nested⟩
      rw [ownHash, ToLCMVisitor.calculateHash_hashedType, ToLCMVisitor.calculateHash_eq, kept]
      exact own
  | nested field info inner rest ihInner ih =>
      rintro hash ⟨kept, within, others⟩
      obtain ⟨own, nested⟩ := ih others
      obtain ⟨innerOwn, innerNested⟩ := ihInner within
      constructor
      · rw [ownHash, ToLCMVisitor.calculateHash_eq, kept]
        exact own
      · rw [nestedHashes, innerOwn, innerNested, nested]
        rfl

theorem tailsKept_of_short (fs : Fields) :
    fs.longNames = 0 → ∀ hash : BitVec 64, fs.TailsKept hash := by
  have kept {field : FieldInfo} (none : (if 255 < field.name.length then 1 else 0) = 0)
      (named : BitVec 64) :
      (field.name.drop 255).foldl LCM.calculateHashChar named = named := by
    have short : field.name.length ≤ 255 := by
      by_contra long
      rw [if_pos (Nat.not_le.mp long)] at none
      cases none
    rw [List.drop_of_length_le short]
    rfl
  induction fs with
  | nil => intro _ hash; trivial
  | scalar field t rest ih =>
      intro none hash
      rw [longNames, Nat.add_eq_zero_iff] at none
      exact ⟨kept none.1 _, ih none.2 _⟩
  | nested field info inner rest ihInner ih =>
      intro none hash
      rw [longNames, Nat.add_eq_zero_iff, Nat.add_eq_zero_iff] at none
      exact ⟨kept none.1.1 _, ihInner none.1.2 _, ih none.2 _⟩

theorem longNames_eq_zero (fs : Fields) :
    fs.All (fun field => field.name.length ≤ 255) → fs.longNames = 0 := by
  induction fs with
  | nil => intro _; rfl
  | scalar field t rest ih =>
      rintro ⟨short, others⟩
      rw [longNames, if_neg (Nat.not_lt.mpr short), ih others]
  | nested field info inner rest ihInner ih =>
      rintro ⟨short, within, others⟩
      rw [longNames, if_neg (Nat.not_lt.mpr short), ihInner within, ih others]

/-- The sum of all hashes that go into the hash of a message. -/
def sumOfHashes (calculateHash : BitVec 64 → Bytes → BitVec 64) (fs : Fields)
    (hash : BitVec 64) : BitVec 64 :=
  fs.ownHash calculateHash hash + (fs.nestedHashes calculateHash).sum

/-- **With one long name the hashes agree only if its characters lead back.** -/
theorem tailsKept_of_sum (fs : Fields) :
    fs.longNames ≤ 1 → ∀ {hash : BitVec 64},
      fs.sumOfHashes ToLCMVisitor.calculateHash hash =
        fs.sumOfHashes FromLCMVisitor.calculateHash hash → fs.TailsKept hash := by
  induction fs with
  | nil => intro _ hash _; trivial
  | scalar field t rest ih =>
      intro one hash same
      rw [longNames] at one
      by_cases long : 255 < field.name.length
      · rw [if_pos long] at one
        have short : rest.longNames = 0 := by omega
        have others (h : BitVec 64) := rest.hashes_of_tailsKept (rest.tailsKept_of_short short h)
        rw [sumOfHashes, sumOfHashes, nestedHashes, nestedHashes, (others 0).2,
          BitVec.add_left_inj, ownHash, ownHash, (others _).1,
          ToLCMVisitor.calculateHash_hashedType, ToLCMVisitor.calculateHash_eq] at same
        have typed := LCM.calculateHashChar_injective 0 (rest.ownHash_injective same)
        exact ⟨FromLCMVisitor.calculateHash_injective (LCM.hashedType t) typed,
          rest.tailsKept_of_short short _⟩
      · have short := Nat.not_lt.mp long
        rw [if_neg long, Nat.zero_add] at one
        rw [sumOfHashes, ownHash, ToLCMVisitor.calculateHash_hashedType,
          ToLCMVisitor.calculateHash_of_short short] at same
        refine ⟨?_, ih one same⟩
        rw [List.drop_of_length_le short]
        rfl
  | nested field info inner rest ihInner ih =>
      intro one hash same
      rw [longNames] at one
      rw [sumOfHashes, sumOfHashes, nestedHashes, nestedHashes, List.sum_cons, List.sum_cons,
        ownHash, ownHash] at same
      by_cases long : 255 < field.name.length
      · rw [if_pos long] at one
        have shortInner : inner.longNames = 0 := by omega
        have shortRest : rest.longNames = 0 := by omega
        have within := inner.tailsKept_of_short shortInner LCM.initialHash
        obtain ⟨innerOwn, innerNested⟩ := inner.hashes_of_tailsKept within
        have others (h : BitVec 64) :=
          rest.hashes_of_tailsKept (rest.tailsKept_of_short shortRest h)
        rw [innerOwn, innerNested, (others 0).2, BitVec.add_left_inj, (others _).1,
          ToLCMVisitor.calculateHash_eq] at same
        exact ⟨LCM.calculateHashChar_injective 0 (rest.ownHash_injective same), within,
          rest.tailsKept_of_short shortRest _⟩
      · have short := Nat.not_lt.mp long
        have kept (named : BitVec 64) :
            (field.name.drop 255).foldl LCM.calculateHashChar named = named := by
          rw [List.drop_of_length_le short]
          rfl
        rw [if_neg long, Nat.zero_add] at one
        rw [ToLCMVisitor.calculateHash_of_short short] at same
        by_cases shortInner : inner.longNames = 0
        · have within := inner.tailsKept_of_short shortInner LCM.initialHash
          obtain ⟨innerOwn, innerNested⟩ := inner.hashes_of_tailsKept within
          rw [innerOwn, innerNested,
            BitVec.add_comm _ (rest.nestedHashes ToLCMVisitor.calculateHash).sum,
            BitVec.add_comm _ (rest.nestedHashes FromLCMVisitor.calculateHash).sum,
            ← BitVec.add_assoc, ← BitVec.add_assoc, BitVec.add_left_inj] at same
          exact ⟨kept _, within, ih (by omega) same⟩
        · have shortRest : rest.longNames = 0 := by omega
          have others (h : BitVec 64) :=
            rest.hashes_of_tailsKept (rest.tailsKept_of_short shortRest h)
          rw [(others _).1, (others 0).2, BitVec.add_right_inj, BitVec.add_left_inj] at same
          exact ⟨kept _, ihInner (by omega) (LCM.sum_of_hash same),
            rest.tailsKept_of_short shortRest _⟩

end Fields

/-- **The hashes of a type whose names have at most 255 characters agree.** With a single longer
name they do exactly if the characters behind the first 255 of it lead back to the hash before. -/
theorem hashesAgree (T : MessageType) :
    (T.fields.All (fun field => field.name.length ≤ 255) → HashesAgree T) ∧
      (T.fields.longNames ≤ 1 → (HashesAgree T ↔ T.fields.TailsKept LCM.initialHash)) := by
  have of_kept (kept : T.fields.TailsKept LCM.initialHash) : HashesAgree T := by
    obtain ⟨own, nested⟩ := T.fields.hashes_of_tailsKept kept
    exact (hashesAgree_iff_lcmHash T).mpr (congrArg₂ LCM.hash own nested)
  constructor
  · intro short
    exact of_kept (T.fields.tailsKept_of_short (T.fields.longNames_eq_zero short) _)
  · intro one
    refine ⟨fun agree => ?_, of_kept⟩
    exact T.fields.tailsKept_of_sum one (LCM.sum_of_hash ((hashesAgree_iff_lcmHash T).mp agree))

theorem hashesAgree_timeStamp :
    HashesAgree TimeStamp ∧ TimeStamp.fields.TailsKept LCM.initialHash := by
  have short : TimeStamp.fields.All fun field => field.name.length ≤ 255 :=
    ⟨by decide, by decide, trivial⟩
  have agree := (hashesAgree TimeStamp).1 short
  exact ⟨agree, ((hashesAgree TimeStamp).2 (by decide)).mp agree⟩

/-- A type with a name of 256 characters. -/
def longName : MessageType :=
  ⟨⟨1, asciiBytes "LongName", asciiBytes "LongName"⟩,
    .scalar ⟨1, asciiBytes "uint8", List.replicate 256 0x61⟩ .uint8 .nil⟩

/-- **The last of 256 characters goes into the hash of the encoder only.** -/
theorem not_hashesAgree : ¬ HashesAgree longName := by
  intro agree
  have same := (hashesAgree_iff_lcmHash longName).mp agree
  have differ : longName.fields.lcmHash ToLCMVisitor.calculateHash ≠
      longName.fields.lcmHash FromLCMVisitor.calculateHash := by decide +kernel
  exact differ same

end Cluon
