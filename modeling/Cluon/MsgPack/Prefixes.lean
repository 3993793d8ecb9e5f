import Cluon.Message.Genuine
import Cluon.MsgPack.Lost
import Cluon.MsgPack.Truncated

/-!
# Beginnings of MsgPack data

A decoder that gets only the beginning of an encoded message takes what it makes up for the rest
for values of the message. It leaves all fields of every target genuine exactly if these
happen to be right (`decode_beginning_iff`, `Fields.CutRightly`): where the data ends within a name, the
field with the name that has been made up is no signed integer or is zero; likewise behind a
name; and where the data ends within a value, the missing bytes are zero or, in a string, the
same in the memory.
-/

set_option autoImplicit false

namespace Cluon

open Library InputStream

/-! ## Made-up values that are right -/

/-- A signed integer is zero. -/
def ScalarType.ZeroIfSigned : (t : ScalarType) → t.Value → Prop
  | .int8, v => v = (0 : BitVec 8)
  | .int16, v => v = (0 : BitVec 16)
  | .int32, v => v = (0 : BitVec 32)
  | .int64, v => v = (0 : BitVec 64)
  | _, _ => True

/-- The bytes that are missing of a value are the ones that are made up: in a string those in
the memory, in a number zeros. -/
def ScalarType.RightIfCut (uninit : Nat → Byte) : (t : ScalarType) → t.Value → Nat → Prop
  | .char, v, n => cutString uninit [v] n = [v]
  | .bytes, s, n | .string, s, n => cutString uninit s n = s
  | t, v, n => ∀ b ∈ (ToMsgPackVisitor.encode t v).drop n, b = 0

namespace Fields

/-- The signed integer field of a name, if there is one, is zero. -/
def ZeroAt (k : Bytes) : (fs : Fields) → fs.Values → Prop
  | .nil, _ => True
  | .scalar field t rest, m => (field.name = k → t.ZeroIfSigned m.1) ∧ rest.ZeroAt k m.2
  | .nested _ _ _ rest, m => rest.ZeroAt k m.2

/-- What is made up for the entry in which the first `n` bytes of the entries of some fields of
a message end is right. -/
def CutRightly (uninit : Nat → Byte) :
    (all : Fields) → all.Values → (fs : Fields) → fs.Values → Nat → Prop
  | _, _, .nil, _, _ => True
  | all, M, .scalar field t rest, m, n =>
      let name := (ToMsgPackVisitor.encodeString field.name).length
      let length := name + (ToMsgPackVisitor.encode t m.1).length
      if length ≤ n then CutRightly uninit all M rest m.2 (n - length)
      else if n < name then all.ZeroAt (cutString uninit field.name n) M
      else if n = name then t.ZeroIfSigned m.1
      else t.RightIfCut uninit m.1 (n - name)
  | all, M, .nested field _ inner rest, m, n =>
      let name := (ToMsgPackVisitor.encodeString field.name).length
      let header := (ToMsgPackVisitor.mapHeader (BitVec.ofNat 32 inner.length)).length
      let length := name + (inner.msgPackBytes m.1).length
      if length ≤ n then CutRightly uninit all M rest m.2 (n - length)
      else if n < name then all.ZeroAt (cutString uninit field.name n) M
      else CutRightly uninit inner m.1 inner m.1 (n - name - header)

end Fields

/-! ## Numbers -/

/-- The first bytes of a number, the others being zero, are the number less the others. -/
theorem ofBeBytes_zeroBehind_add (n : Nat) (bytes : Bytes) :
    ofBeBytes (zeroBehind n bytes) + ofBeBytes (bytes.drop n) = ofBeBytes bytes := by
  have zeros : ofBeBytes (List.replicate (bytes.length - n) 0) = 0 :=
    (ofBeBytes_eq_zero_iff _).mpr fun b hb => List.eq_of_mem_replicate hb
  conv_rhs => rw [← List.take_append_drop n bytes, ofBeBytes_append, List.length_drop]
  rw [zeroBehind, ofBeBytes_append, zeros, List.length_replicate, Nat.add_zero]

/-- It is a multiple of what the others have room for. -/
theorem pow_dvd_zeroBehind (n : Nat) (bytes : Bytes) :
    256 ^ (bytes.length - n) ∣ ofBeBytes (zeroBehind n bytes) := by
  have zeros : ofBeBytes (List.replicate (bytes.length - n) 0) = 0 :=
    (ofBeBytes_eq_zero_iff _).mpr fun b hb => List.eq_of_mem_replicate hb
  rw [zeroBehind, ofBeBytes_append, zeros, List.length_replicate, Nat.add_zero]
  exact Dvd.intro_left _ rfl

/-- A word of which some bytes are missing is right exactly if these are zero. -/
theorem ofNat_zeroBehind_iff {w : Nat} {v : BitVec w} {bytes : Bytes}
    (same : ofBeBytes bytes = v.toNat) (n : Nat) :
    BitVec.ofNat w (ofBeBytes (zeroBehind n bytes)) = v ↔ ∀ b ∈ bytes.drop n, b = 0 := by
  have parts := ofBeBytes_zeroBehind_add n bytes
  have range := v.isLt
  rw [← ofBeBytes_eq_zero_iff, ← BitVec.toNat_inj, BitVec.toNat_ofNat,
    Nat.mod_eq_of_lt (by omega)]
  omega

theorem cutUint_iff {w : Nat} (hw : w ≤ 64) (v : BitVec w) {n : Nat} (positive : 0 < n)
    (short : n < (ToMsgPackVisitor.encodeUint (v.setWidth 64)).length) :
    ∃ u, cutNumber (ToMsgPackVisitor.encodeUint (v.setWidth 64)) n = .uint64 u ∧
      (u.setWidth w = v ↔
        ∀ b ∈ (ToMsgPackVisitor.encodeUint (v.setWidth 64)).drop n, b = 0) := by
  obtain ⟨k, rfl⟩ : ∃ k, n = k + 1 := ⟨n - 1, by omega⟩
  obtain ⟨c, hs, bytes, family, ⟨rfl, _⟩ | ⟨few, told, _⟩⟩ := readUint_encodeUint (v.setWidth 64)
  · rw [bytes] at short
    simp at short
  rw [bytes]
  refine ⟨_, by rw [cutNumber, numberOf, List.headD_cons, family], ?_⟩
  have range : ofBeBytes hs < 2 ^ 64 := by
    refine (ofBeBytes_lt hs).trans_le ?_
    calc 256 ^ hs.length ≤ 256 ^ 8 := Nat.pow_le_pow_right (by norm_num) few
      _ = 2 ^ 64 := by norm_num
  have same : ofBeBytes hs = v.toNat := by
    have words := congrArg BitVec.toNat told
    rwa [uintOf, BitVec.toNat_ofNat, Nat.mod_eq_of_lt range, BitVec.toNat_setWidth,
      Nat.mod_eq_of_lt (v.isLt.trans_le (Nat.pow_le_pow_right (by norm_num) hw))] at words
  rw [uintOf, BitVec.setWidth_ofNat_of_le hw, List.tail_cons, Nat.add_sub_cancel,
    List.drop_succ_cons, ofNat_zeroBehind_iff same]

theorem cutInt_iff {w : Nat} (hw : w ≤ 64) {v : BitVec w} (negative : v.toInt < 0) {n : Nat}
    (positive : 0 < n) (short : n < (ToMsgPackVisitor.encodeInt (v.signExtend 64)).length) :
    ∃ i, cutNumber (ToMsgPackVisitor.encodeInt (v.signExtend 64)) n = .int64 i ∧
      (i.setWidth w = v ↔
        ∀ b ∈ (ToMsgPackVisitor.encodeInt (v.signExtend 64)).drop n, b = 0) := by
  obtain ⟨k, rfl⟩ : ∃ k, n = k + 1 := ⟨n - 1, by omega⟩
  obtain ⟨c, hs, bytes, family, ⟨rfl, _⟩ | ⟨few, told, _⟩⟩ :=
    readInt_encodeInt (v := v.signExtend 64) (by rwa [BitVec.toInt_signExtend_of_le hw])
  · rw [bytes] at short
    simp at short
  rw [bytes] at short ⊢
  refine ⟨_, by rw [cutNumber, numberOf, List.headD_cons, family], ?_⟩
  rw [length_zeroBehind, List.tail_cons, Nat.add_sub_cancel, List.drop_succ_cons,
    ← ofBeBytes_eq_zero_iff]
  have parts := ofBeBytes_zeroBehind_add k hs
  -- The low bits that the number in the bytes and the value have in common.
  set M := min (8 * hs.length) w with common
  have low (y : Nat) : ((intOf hs.length y).setWidth w).setWidth M = BitVec.ofNat M y := by
    rw [BitVec.setWidth_setWidth_of_le _ (min_le_right _ _),
      ← BitVec.setWidth_setWidth_of_le _ (min_le_left _ _ : M ≤ 8 * hs.length), intOf,
      setWidth_signExtend (by omega), BitVec.setWidth_ofNat_of_le (min_le_left _ _)]
  have value : v.setWidth M = BitVec.ofNat M (ofBeBytes hs) := by
    rw [← low, told, setWidth_signExtend hw]
  constructor
  · intro same
    have low' := low (ofBeBytes (zeroBehind k hs))
    rw [same] at low'
    have equal := congrArg BitVec.toNat (low'.symm.trans value)
    rw [BitVec.toNat_ofNat, BitVec.toNat_ofNat, ← parts] at equal
    have dvd : 2 ^ M ∣ ofBeBytes (hs.drop k) := by
      have difference := Nat.sub_mod_eq_zero_of_mod_eq equal.symm
      rw [Nat.add_sub_cancel_left] at difference
      exact Nat.dvd_of_mod_eq_zero difference
    have room : 2 ^ (8 * (hs.length - k)) = 256 ^ (hs.length - k) := by
      rw [pow_mul]
      norm_num
    by_cases fits : 8 * (hs.length - k) ≤ M
    · refine Nat.eq_zero_of_dvd_of_lt dvd ((ofBeBytes_lt _).trans_le ?_)
      rw [List.length_drop, ← room]
      exact Nat.pow_le_pow_right (by norm_num) fits
    · -- All bits of the value are missing, but it is not zero.
      have all : M = w := by omega
      have zero : 2 ^ M ∣ ofBeBytes (zeroBehind k hs) :=
        (Nat.pow_dvd_pow 2 (by omega)).trans (room ▸ pow_dvd_zeroBehind k hs)
      have none := congrArg BitVec.toNat low'
      rw [BitVec.toNat_ofNat, Nat.mod_eq_zero_of_dvd zero, BitVec.toNat_setWidth, all,
        Nat.mod_eq_of_lt v.isLt] at none
      rw [BitVec.toInt_eq_toNat_cond, none] at negative
      simp at negative
  · intro zero
    rw [zero, Nat.add_zero] at parts
    rw [parts, told, setWidth_signExtend hw]

theorem cutSigned_iff {w : Nat} (hw : w ≤ 64) (v : BitVec w) {n : Nat} (positive : 0 < n)
    (short : n < (ToMsgPackVisitor.encodeSigned v).length) :
    ∃ x, (cutNumber (ToMsgPackVisitor.encodeSigned v) n).castToSigned w = .ok x ∧
      (x = v ↔ ∀ b ∈ (ToMsgPackVisitor.encodeSigned v).drop n, b = 0) := by
  rw [ToMsgPackVisitor.encodeSigned] at *
  by_cases negative : v.toInt < 0
  · rw [if_pos negative] at short ⊢
    obtain ⟨i, cut, right⟩ := cutInt_iff hw negative positive short
    exact ⟨_, by rw [cut, MsgPackAny.castToSigned], right⟩
  · rw [if_neg negative] at short ⊢
    obtain ⟨u, cut, right⟩ := cutUint_iff hw v positive short
    exact ⟨_, by rw [cut, MsgPackAny.castToSigned], right⟩

/-- The bytes of a floating-point number behind its first byte. -/
theorem cutWord_iff {w : Nat} (bytes : Nat) (hw : 2 ^ w = 256 ^ bytes) (v : BitVec w) {n : Nat}
    (positive : 0 < n) (c : Byte) :
    BitVec.ofNat w (ofBeBytes (zeroBehind (n - 1) (beBytes bytes v.toNat))) = v ↔
      ∀ b ∈ (c :: beBytes bytes v.toNat).drop n, b = 0 := by
  obtain ⟨k, rfl⟩ : ∃ k, n = k + 1 := ⟨n - 1, by omega⟩
  rw [Nat.add_sub_cancel, List.drop_succ_cons, ofNat_zeroBehind_iff]
  rw [ofBeBytes_beBytes, ← hw, Nat.mod_eq_of_lt v.isLt]

/-- **A value that ends too early** is right exactly if what is made up for it is. -/
theorem gives_cutScalar_iff (uninit : Nat → Byte) (t : ScalarType) (v : t.Value) {n : Nat}
    (positive : 0 < n) (short : n < (ToMsgPackVisitor.encode t v).length) :
    MsgPackAny.kind.Gives t (cutScalar uninit t v n) v ↔ t.RightIfCut uninit v n := by
  have ok {t : ScalarType} {entry : MsgPackAny} {x v : t.Value} {P : Prop}
      (cast : entry.castTo t = .ok x) (right : x = v ↔ P) :
      MsgPackAny.kind.Gives t entry v ↔ P := by
    change entry.castTo t = .ok v ∨ entry.castTo t = .error .badAnyCast ↔ P
    rw [cast, ← right]
    simp
  cases t with
  | bool =>
      have one : n < 1 := short
      omega
  | char =>
      have two : n < 2 := short
      obtain rfl : n = 1 := by omega
      have memory : cutString uninit [v] 1 = [uninit 0] := rfl
      apply ok (x := uninit 0) rfl
      rw [ScalarType.RightIfCut, memory, List.cons.injEq, and_iff_left rfl]
  | bytes | string => exact ok (x := cutString uninit v n) rfl Iff.rfl
  | uint8 | uint16 | uint32 =>
      obtain ⟨u, cut, right⟩ := cutUint_iff (by omega) v positive short
      change MsgPackAny.kind.Gives _
        (cutNumber (ToMsgPackVisitor.encodeUint (BitVec.setWidth 64 v)) n) v ↔ _
      rw [cut]
      exact ok rfl right
  | uint64 =>
      have short' : n < (ToMsgPackVisitor.encodeUint (BitVec.setWidth 64 v)).length := by
        rwa [BitVec.setWidth_eq]
      obtain ⟨u, cut, right⟩ := cutUint_iff le_rfl v positive short'
      change MsgPackAny.kind.Gives _ (cutNumber (ToMsgPackVisitor.encodeUint v) n) v ↔ _
      rw [BitVec.setWidth_eq] at cut right
      rw [cut]
      exact ok rfl (by rwa [BitVec.setWidth_eq])
  | int8 | int16 | int32 | int64 =>
      obtain ⟨x, cast, right⟩ := cutSigned_iff (by omega) v positive short
      exact ok cast right
  | float => exact ok rfl (cutWord_iff 4 (by norm_num) v positive MsgPackConstants.float)
  | double => exact ok rfl (cutWord_iff 8 (by norm_num) v positive MsgPackConstants.double)

/-! ## The condition -/

/-- An integer that is made up is right exactly if the field is no signed integer or zero. -/
theorem gives_zero_iff (t : ScalarType) (v : t.Value) :
    MsgPackAny.kind.Gives t (.int64 0) v ↔ t.ZeroIfSigned v := by
  have signed {w : Nat} (v : BitVec w) :
      (MsgPackAny.int64 0).castToSigned w = .ok v ∨
        (MsgPackAny.int64 0).castToSigned w = .error .badAnyCast ↔ v = 0#w := by
    have zero : (0 : BitVec 64).setWidth w = 0#w := BitVec.setWidth_zero ..
    rw [MsgPackAny.castToSigned, zero, Except.ok.injEq, or_iff_left (by simp)]
    exact eq_comm
  cases t with
  | int8 | int16 | int32 | int64 => exact signed v
  | bool | char | uint8 | uint16 | uint32 | uint64 | float | double | bytes | string =>
      exact iff_of_true (.inr rfl) trivial

namespace Fields

/-- Every field at any depth has a name. -/
abbrev Named (fs : Fields) : Prop := fs.All fun field => field.name ≠ []

theorem notMem_of_named (fs : Fields) : fs.Named → [] ∉ fs.keys FieldInfo.name := by
  induction fs with
  | nil => intro _ h; cases h
  | scalar field t rest ih =>
      rintro ⟨some, named⟩ h
      rcases List.mem_cons.mp h with first | later
      · exact some first.symm
      · exact ih named later
  | nested field info inner rest _ ih =>
      rintro ⟨some, _, named⟩ h
      rcases List.mem_cons.mp h with first | later
      · exact some first.symm
      · exact ih named later

theorem takes_zero_iff (k : Bytes) (fs : Fields) : ∀ m : fs.Values,
    fs.Takes MsgPackAny.kind k (.int64 0) m ↔ fs.ZeroAt k m := by
  induction fs with
  | nil => intro _; exact Iff.rfl
  | scalar field t rest ih =>
      intro m
      rw [Takes, ZeroAt, ih m.2, gives_zero_iff]
  | nested field info inner rest _ ih =>
      intro m
      rw [Takes, ZeroAt, ih m.2]
      exact and_iff_right fun _ => nofun

theorem zeroAt_of_notMem {k : Bytes} (fs : Fields) (new : k ∉ fs.keys FieldInfo.name)
    (m : fs.Values) : fs.ZeroAt k m :=
  (takes_zero_iff k fs m).mp (takes_of_notMem fs new)

variable (uninit : Nat → Byte)

/-- If nothing has arrived, nothing wrong is made up. -/
theorem cutRightly_zero {all : Fields} (named : [] ∉ all.keys FieldInfo.name) (M : all.Values)
    (fs : Fields) (m : fs.Values) : CutRightly uninit all M fs m 0 := by
  cases fs with
  | nil => trivial
  | scalar field t rest =>
      have positive := encodeString_length_pos field.name
      rw [CutRightly]
      simp only [if_neg (by omega : ¬ (ToMsgPackVisitor.encodeString field.name).length +
        (ToMsgPackVisitor.encode t m.1).length ≤ 0), if_pos positive, cutString_zero]
      exact zeroAt_of_notMem all named M
  | nested field info inner rest =>
      have positive := encodeString_length_pos field.name
      rw [CutRightly]
      simp only [if_neg (by omega : ¬ (ToMsgPackVisitor.encodeString field.name).length +
        (inner.msgPackBytes m.1).length ≤ 0), if_pos positive, cutString_zero]
      exact zeroAt_of_notMem all named M

/-- Entries without names make no difference. -/
theorem agrees_unnamed {all : Fields} (named : [] ∉ all.keys FieldInfo.name) {M : all.Values}
    (any : MsgPackAny) (n : Nat) : ∀ keyValues : KeyValueMap Bytes MsgPackAny,
      (all.Agrees MsgPackAny.kind M (keyValues.assignAll (List.replicate n ([], any))) ↔
        all.Agrees MsgPackAny.kind M keyValues) := by
  induction n with
  | zero => intro _; exact Iff.rfl
  | succ n ih =>
      intro keyValues
      rw [List.replicate_succ, KeyValueMap.assignAll_cons, ih, agrees_assign_of_notMem all named]

/-- What is read for a map that ends too early agrees with the message if the entries do that
have arrived. -/
theorem agrees_cutMap_iff {all : Fields} (named : [] ∉ all.keys FieldInfo.name) {M : all.Values}
    {header : Bytes} {entries : Nat → List (Bytes × MsgPackAny)}
    (agrees : ∀ k, all.Agrees MsgPackAny.kind M (KeyValueMap.assignAll [] (entries k)) ↔
      CutRightly uninit all M all M k) (n : Nat) :
    all.Agrees MsgPackAny.kind M (cutMap header entries n) ↔
      CutRightly uninit all M all M (n - header.length) := by
  rw [cutMap]
  by_cases inHeader : n < header.length
  · rw [if_pos inHeader, agrees_unnamed named, Nat.sub_eq_zero_of_le inHeader.le]
    exact iff_of_true (agrees_nil all M) (cutRightly_zero uninit named M all M)
  · rw [if_neg inHeader]
    exact agrees _

/-- The entry in which the data ends, and the ones behind it. -/
theorem agrees_cutEntry_iff {all : Fields} (named : [] ∉ all.keys FieldInfo.name) {M : all.Values}
    {before : KeyValueMap Bytes MsgPackAny} (agrees : all.Agrees MsgPackAny.kind M before)
    (name : Bytes) (value : Nat → MsgPackAny) (n others : Nat) :
    all.Agrees MsgPackAny.kind M (before.assignAll
        (cutEntry uninit name value n :: List.replicate others ([], .int64 0))) ↔
      if n < (ToMsgPackVisitor.encodeString name).length then all.ZeroAt (cutString uninit name n) M
      else all.Takes MsgPackAny.kind name
        (value (n - (ToMsgPackVisitor.encodeString name).length)) M := by
  rw [KeyValueMap.assignAll_cons, agrees_unnamed named, agrees_assign_iff all agrees, cutEntry]
  by_cases inName : n < (ToMsgPackVisitor.encodeString name).length
  · simp only [if_pos inName]
    exact takes_zero_iff _ all M
  · simp only [if_neg inName]

/-- **What is read agrees with the message** exactly if what is made up is right. -/
theorem agrees_told_iff (fs : Fields) :
    fs.DistinctNames → fs.Named → ∀ {all : Fields} {M : all.Values} {m : fs.Values},
      [] ∉ all.keys FieldInfo.name → all.Contains MsgPackAny.kind M fs m →
      ∀ {before : KeyValueMap Bytes MsgPackAny}, all.Agrees MsgPackAny.kind M before → ∀ n,
        (all.Agrees MsgPackAny.kind M (before.assignAll (fs.told uninit m n)) ↔
          CutRightly uninit all M fs m n) := by
  induction fs with
  | nil => intro _ _ all M m _ _ before agrees n; exact iff_of_true agrees trivial
  | scalar field t rest ih =>
      rintro ⟨_, distinct⟩ ⟨_, namedRest⟩ all M m named ⟨here, contains⟩ before agrees n
      rw [told, CutRightly]
      by_cases whole : (ToMsgPackVisitor.encodeString field.name).length +
          (ToMsgPackVisitor.encode t m.1).length ≤ n
      · rw [if_pos whole, if_pos whole, KeyValueMap.assignAll_cons]
        refine ih distinct namedRest named contains ?_ _
        rw [agrees_assign_iff all agrees, here]
        exact .inl (MsgPackAny.castTo_ofValue t m.1)
      · rw [if_neg whole, if_neg whole, agrees_cutEntry_iff uninit named agrees]
        by_cases inName : n < (ToMsgPackVisitor.encodeString field.name).length
        · rw [if_pos inName, if_pos inName]
        · rw [if_neg inName, if_neg inName, here, cutValue]
          by_cases behind : n = (ToMsgPackVisitor.encodeString field.name).length
          · rw [if_pos (by omega), if_pos behind, gives_zero_iff]
          · rw [if_neg (by omega), if_neg behind,
              gives_cutScalar_iff uninit t m.1 (by omega) (by omega)]
  | nested field info inner rest ihInner ih =>
      rintro ⟨_, distinctInner, distinct⟩ ⟨_, namedInner, namedRest⟩ all M m named
        ⟨here, contains⟩ before agrees n
      have inside (k : Nat) := ihInner distinctInner namedInner (inner.notMem_of_named namedInner)
        (contains_self inner distinctInner m.1) (agrees_nil inner m.1) k
      rw [told, CutRightly]
      by_cases whole : (ToMsgPackVisitor.encodeString field.name).length +
          (inner.msgPackBytes m.1).length ≤ n
      · rw [if_pos whole, if_pos whole, KeyValueMap.assignAll_cons]
        refine ih distinct namedRest named contains ?_ _
        rw [agrees_assign_iff all agrees, here]
        rintro nested kind
        obtain rfl := Option.some.inj kind
        exact Held.agrees inner (held_assignAll (fun _ => rfl) distinctInner
          (.of_forall MsgPackAny.castTo_ofValue inner m.1))
      · rw [if_neg whole, if_neg whole, agrees_cutEntry_iff uninit named agrees]
        by_cases inName : n < (ToMsgPackVisitor.encodeString field.name).length
        · rw [if_pos inName, if_pos inName]
        · rw [if_neg inName, if_neg inName, here,
            ← agrees_cutMap_iff uninit (inner.notMem_of_named namedInner) inside]
          by_cases behind : n - (ToMsgPackVisitor.encodeString field.name).length = 0
          · rw [if_pos behind, behind]
            have isEmpty := cutRightly_zero uninit (inner.notMem_of_named namedInner) m.1 inner m.1
            apply iff_of_true (fun _ none => by cases none)
            rw [agrees_cutMap_iff uninit (inner.notMem_of_named namedInner) inside, Nat.zero_sub]
            exact isEmpty
          · rw [if_neg behind]
            exact ⟨fun all => all _ rfl, fun agrees nested kind => Option.some.inj kind ▸ agrees⟩

end Fields

/-! ## Decoding -/

namespace MessageType

/-- The part of a message that has arrived with its first `n` bytes is readable. -/
def ReadableIn (T : MessageType) (m : T.Values) (n : Nat) : Prop :=
  (0 < n → T.fields.length < 2 ^ 32 ∧ T.fields.length ≠ 15) ∧
    T.fields.ReadableIn m
      (n - (ToMsgPackVisitor.mapHeader (BitVec.ofNat 32 T.fields.length)).length)

/-- What is made up for the entry in which the first `n` bytes of a message end is right. -/
def CutRightly (uninit : Nat → Byte) (T : MessageType) (m : T.Values) (n : Nat) : Prop :=
  T.fields.CutRightly uninit m T.fields m
    (n - (ToMsgPackVisitor.mapHeader (BitVec.ofNat 32 T.fields.length)).length)

end MessageType

namespace FromMsgPackVisitor

variable (uninit : Nat → Byte)

/-- **The beginning of a message.** If the part of the message that has arrived is readable, the
decoder stops no program and leaves every field of every target as it was or with the value of
the message, if and only if what it makes up for the entry in which the data ends is right. -/
theorem decode_beginning_iff {T : MessageType} (distinct : T.fields.DistinctNames)
    (named : T.fields.Named) {m : T.Values} {p : Bytes}
    (isPrefix : p <+: ToMsgPackVisitor.encoded T m) (proper : p ≠ ToMsgPackVisitor.encoded T m)
    (readable : T.ReadableIn m p.length) {d : FromMsgPackVisitor} (running : d.terminated = false) :
    (∀ v, ∃ w d', decode uninit T d p v = some (w, d') ∧ d'.terminated = false ∧
      T.fields.Genuine m v w) ↔ T.CutRightly uninit m p.length := by
  rw [ToMsgPackVisitor.encoded_eq] at isPrefix proper
  have start : (ofBytes p).rest = (T.fields.msgPackBytes m).take p.length := by
    rw [← List.prefix_iff_eq_take.mp isPrefix]
    rfl
  have short : p.length < (T.fields.msgPackBytes m).length :=
    isPrefix.length_le.lt_of_ne fun same => proper (isPrefix.eq_of_length same)
  have size := T.fields.length_msgPackBytes m
  have read : ∃ is, readKeyValues uninit ((ofBytes p).rest.length + 1) (ofBytes p) =
      some (cutMap (ToMsgPackVisitor.mapHeader (BitVec.ofNat 32 T.fields.length))
        (T.fields.told uninit m) p.length, is) ∧ is.good = false := by
    refine readKeyValues_cut uninit readable.1 (fun {is k} long hg hr => ?_) rfl start
    have arrived := readable.2
    rw [long, Nat.add_sub_cancel_left] at arrived
    exact readPairs_cut uninit T.fields arrived (by omega) (by rw [rest_ofBytes]; omega) [] hg hr
  obtain ⟨is, read, _⟩ := read
  have agrees : T.fields.Agrees MsgPackAny.kind m
      (cutMap (ToMsgPackVisitor.mapHeader (BitVec.ofNat 32 T.fields.length))
        (T.fields.told uninit m) p.length) ↔ T.CutRightly uninit m p.length :=
    Fields.agrees_cutMap_iff uninit (T.fields.notMem_of_named named)
      (fun k => Fields.agrees_told_iff uninit T.fields distinct named
        (T.fields.notMem_of_named named) (T.fields.contains_self distinct m)
        (T.fields.agrees_nil m) k) p.length
  rw [← agrees, ← KeyValueVisitor.genuine_accept_iff]
  apply forall_congr'
  intro v
  rw [decode_eq uninit running read]
  constructor
  · rintro ⟨w, ⟨keyValues, terminated⟩, decoded, on, genuine⟩
    obtain rfl : terminated = false := on
    have accepted := Option.some.inj decoded
    have kept := congrArg (fun r => r.2.keyValues) accepted
    rw [visitor, KeyValueVisitor.keyValues_accept] at kept
    obtain rfl : _ = keyValues := kept
    exact ⟨w, accepted, genuine⟩
  · rintro ⟨w, accepted, genuine⟩
    exact ⟨w, _, congrArg some accepted, rfl, genuine⟩

theorem decode_beginning_timeStamp :
    let p : Bytes := 0x82 :: 0xA7 :: asciiBytes "seconds" ++ [0xCD, 0x04, 0xD2]
    (∀ v, ∃ w d', decode (fun _ => 0) TimeStamp init p v = some (w, d') ∧ d'.terminated = false ∧
      TimeStamp.fields.Genuine (TimeStamp.of 1234 (-5)) v w) ↔
      TimeStamp.CutRightly (fun _ => 0) (TimeStamp.of 1234 (-5)) p.length := by
  have distinct : TimeStamp.fields.DistinctNames := by
    simp [TimeStamp, Fields.Distinct, Fields.keys, FieldInfo.declared, asciiBytes]
  have named : TimeStamp.fields.Named := by
    simp [TimeStamp, Fields.Named, Fields.All, FieldInfo.declared, asciiBytes]
  have readable : TimeStamp.fields.MsgPackReadable (TimeStamp.of 1234 (-5)) := by
    simp [TimeStamp, Fields.MsgPackReadable, ReadableString, ScalarType.MsgPackReadable,
      FieldInfo.declared, asciiBytes]
  exact decode_beginning_iff (fun _ => 0) distinct named (m := TimeStamp.of 1234 (-5))
    (d := init) (by decide) (by decide) ⟨fun _ => by decide, readable.readableIn _ _⟩ rfl

/-- **The end of the data is taken for a value**: behind the name of the seconds of a time stamp
it makes them zero, which they were neither before nor in the message. -/
theorem decode_beginning_ne :
    let p : Bytes := 0x82 :: 0xA7 :: asciiBytes "seconds"
    (p <+: ToMsgPackVisitor.encoded TimeStamp (TimeStamp.of 1 2) ∧
      p ≠ ToMsgPackVisitor.encoded TimeStamp (TimeStamp.of 1 2)) ∧
    (decode (fun _ => 0) TimeStamp init p (TimeStamp.of 7 8)).map Prod.fst =
      some (TimeStamp.of 0 8) ∧
    ¬ TimeStamp.fields.Genuine (TimeStamp.of 1 2) (TimeStamp.of 7 8) (TimeStamp.of 0 8) := by
  refine ⟨by decide, rfl, fun genuine => ?_⟩
  exact absurd genuine.1 (by decide)

end FromMsgPackVisitor

end Cluon
