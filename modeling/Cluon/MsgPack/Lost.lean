import Cluon.MsgPack.RoundTrip

/-!
# Messages that MsgPack loses

A decoder reads as many entries as a map announces, each with one name, so it cannot find all
fields of a message once an entry has not been the one of its field
(`Held.head_of_readPairs`). A name or a string of 31 bytes and a nested message of fifteen
fields are such entries, because the decoder does not know their first bytes. Hence a message
that a decoder gives to every target has none of them (`readable_of_held`), and
`decode_msgPack` puts both directions together.
-/

set_option autoImplicit false

namespace Cluon

open Library InputStream MsgPackConstants

namespace Fields

/-- A message as the encoder expects it: no name is empty, no nested message is without fields,
and the sizes of names and of nested messages fit 32 bits. -/
def MsgPackRegular : (fs : Fields) → fs.Values → Prop
  | .nil, _ => True
  | .scalar field _ rest, m =>
      (field.name ≠ [] ∧ field.name.length < 2 ^ 32) ∧ rest.MsgPackRegular m.2
  | .nested field _ inner rest, m =>
      (field.name ≠ [] ∧ field.name.length < 2 ^ 32) ∧
        (0 < inner.length ∧ inner.length < 2 ^ 32 ∧ (inner.msgPackBytes m.1).length < 2 ^ 32 ∧
          inner.MsgPackRegular m.1) ∧
        rest.MsgPackRegular m.2

end Fields

/-! ## What is read -/

section Read

variable (uninit : Nat → Byte)

section Pairs

variable (readKeyValues : InputStream → Option (KeyValueMap Bytes MsgPackAny × InputStream))

theorem readValue_31 {s : Bytes} (unreadable : s.length = 31) {is : InputStream} {t : Bytes}
    (hg : is.good) (hr : is.rest = ToMsgPackVisitor.encodeString s ++ t) :
    readValue uninit readKeyValues is = some (.empty, is.advance 1) := by
  rw [encodeString_31 unreadable, List.cons_append] at hr
  rw [readValue_cons uninit readKeyValues hg hr, getFormatFamily_fixstrEnd]

/-- A string that is read back is readable: a longer one is cut off. -/
theorem readable_of_readValue_encodeString {s : Bytes} {any : MsgPackAny}
    {is is' : InputStream} {t : Bytes} (hg : is.good)
    (hr : is.rest = ToMsgPackVisitor.encodeString s ++ t)
    (read : readValue uninit readKeyValues is = some (any, is'))
    (cast : any.castToString = .ok s) : ReadableString s := by
  set s' := s.take (BitVec.ofNat 32 s.length).toNat with cut
  have short : s'.length < 2 ^ 32 := by
    rw [cut, List.length_take]
    exact (min_le_left _ _).trans_lt (BitVec.isLt _)
  have length : s'.length = s.length % 2 ^ 32 := by
    rw [cut, List.length_take, BitVec.toNat_ofNat]
    exact min_eq_left (Nat.mod_le _ _)
  have written : ToMsgPackVisitor.encodeString s = ToMsgPackVisitor.encodeString s' := by
    rw [encodeString_eq short, length, ToMsgPackVisitor.encodeString, ← cut]
    congr 2
    exact BitVec.eq_of_toNat_eq (by simp)
  rw [written] at hr
  by_cases unreadable : s'.length = 31
  · rw [readValue_31 uninit readKeyValues unreadable hg hr] at read
    obtain ⟨rfl, _⟩ := Prod.mk.inj (Option.some.inj read)
    cases cast
  · have readable : ReadableString s' := ⟨short, unreadable⟩
    rw [readValue_encodeString uninit readKeyValues readable hg hr] at read
    obtain ⟨rfl, _⟩ := Prod.mk.inj (Option.some.inj read)
    have same : s' = s := Except.ok.inj cast
    rwa [same] at readable

/-- **A scalar that is read back is readable.** -/
theorem readable_of_readValue (t : ScalarType) {v : t.Value} {any : MsgPackAny}
    {is is' : InputStream} {after : Bytes} (hg : is.good)
    (hr : is.rest = ToMsgPackVisitor.encode t v ++ after)
    (read : readValue uninit readKeyValues is = some (any, is')) (cast : any.castTo t = .ok v) :
    t.MsgPackReadable v := by
  cases t with
  | bytes | string =>
      apply readable_of_readValue_encodeString uninit readKeyValues hg hr read
      cases any <;> exact cast
  | bool | char | int8 | int16 | int32 | int64 | uint8 | uint16 | uint32 | uint64 | float
  | double => trivial

/-- The entries that are read are assigned one after the other. -/
theorem readPairs_assignAll (n : Nat) :
    ∀ {before keyValues : KeyValueMap Bytes MsgPackAny} {is is' : InputStream},
      readPairs uninit readKeyValues n before is = some (keyValues, is') →
      ∃ entries : List (Bytes × MsgPackAny), entries.length = n ∧
        keyValues = before.assignAll entries := by
  induction n with
  | zero =>
      intro before keyValues is is' read
      obtain ⟨rfl, _⟩ := Prod.mk.inj (Option.some.inj read)
      exact ⟨[], rfl, rfl⟩
  | succ n ih =>
      intro before keyValues is is' read
      simp only [readPairs] at read
      split at read
      · cases read
      · rename_i value is₂ _
        obtain ⟨entries, length, rfl⟩ := ih read
        refine ⟨((readString uninit is).1, value) :: entries, ?_, rfl⟩
        rw [List.length_cons, length]

/-- **If all fields are found, the first entry is one of theirs, and it is not overwritten.** -/
theorem first_of_readPairs {keys : List Bytes} (distinct : keys.Nodup) {n : Nat}
    (all : keys.length = n + 1) {before keyValues : KeyValueMap Bytes MsgPackAny}
    (new : ∀ k ∈ keys, before.find k = none) {is is₁ is' : InputStream} {key : Bytes}
    (keyRead : readString uninit is = (key, is₁))
    (read : readPairs uninit readKeyValues (n + 1) before is = some (keyValues, is'))
    (found : ∀ k ∈ keys, (keyValues.find k).isSome) :
    key ∈ keys ∧ ∃ value is₂, readValue uninit readKeyValues is₁ = some (value, is₂) ∧
      keyValues.find key = some value ∧
      readPairs uninit readKeyValues n (before.assign key value) is₂ = some (keyValues, is') := by
  rw [readPairs, keyRead] at read
  cases valueRead : readValue uninit readKeyValues is₁ with
  | none =>
      simp only [valueRead] at read
      cases read
  | some entry =>
      obtain ⟨value, is₂⟩ := entry
      simp only [valueRead] at read
      obtain ⟨entries, length, same⟩ := readPairs_assignAll uninit readKeyValues n read
      have fewer : entries.length < keys.length := by rw [length, all]; exact Nat.lt_succ_self n
      obtain ⟨k, hk, left⟩ :=
        KeyValueMap.find_assignAll_of_fewer (before.assign key value) distinct fewer
      rw [← same, KeyValueMap.find_assign, new k hk] at left
      have present := found k hk
      rw [left] at present
      split at present
      · rename_i here
        subst here
        rw [if_pos rfl] at left
        exact ⟨hk, value, is₂, rfl, left, read⟩
      · cases present

/-- The first entry is the one of the first field, whose name has been readable. -/
theorem head_of_readPairs {name : Bytes} (some : name ≠ []) (short : name.length < 2 ^ 32)
    {others : List Bytes} (distinct : (name :: others).Nodup) (named : [] ∉ others)
    {before keyValues : KeyValueMap Bytes MsgPackAny}
    (new : ∀ k ∈ name :: others, before.find k = none) {is is' : InputStream} {t : Bytes}
    (hg : is.good) (hr : is.rest = ToMsgPackVisitor.encodeString name ++ t)
    (read : readPairs uninit readKeyValues (others.length + 1) before is = .some (keyValues, is'))
    (found : ∀ k ∈ name :: others, (keyValues.find k).isSome) :
    ReadableString name ∧ ∃ value is₂, readValue uninit readKeyValues
        (is.advance (ToMsgPackVisitor.encodeString name).length) = .some (value, is₂) ∧
      keyValues.find name = .some value ∧
      readPairs uninit readKeyValues others.length (before.assign name value) is₂ =
        .some (keyValues, is') := by
  by_cases unreadable : name.length = 31
  · obtain ⟨empty, _⟩ := first_of_readPairs uninit readKeyValues distinct rfl new
      (readString_31 uninit unreadable hg hr) read found
    rcases List.mem_cons.mp empty with first | later
    · exact absurd first.symm some
    · exact absurd later named
  · have readable : ReadableString name := ⟨short, unreadable⟩
    obtain ⟨_, entry⟩ := first_of_readPairs uninit readKeyValues distinct rfl new
      (readString_encodeString uninit readable hg hr) read found
    exact ⟨readable, entry⟩

end Pairs

end Read

/-! ## Lost messages -/

namespace Fields

theorem MsgPackRegular.filled (fs : Fields) :
    ∀ {m : fs.Values}, fs.MsgPackRegular m → fs.Filled := by
  induction fs with
  | nil => intro _ _; trivial
  | scalar field t rest ih => intro _ regular; exact ih regular.2
  | nested field info inner rest ihInner ih =>
      rintro m ⟨_, ⟨some, _, _, regularInner⟩, regular⟩
      exact ⟨⟨some, ihInner regularInner⟩, ih regular⟩

theorem MsgPackRegular.named (fs : Fields) :
    ∀ {m : fs.Values}, fs.MsgPackRegular m → [] ∉ fs.keys FieldInfo.name := by
  induction fs with
  | nil => intro _ _ h; cases h
  | scalar field t rest ih =>
      rintro m ⟨⟨some, _⟩, regular⟩ h
      rcases List.mem_cons.mp h with first | later
      · exact some first.symm
      · exact ih regular later
  | nested field info inner rest _ ih =>
      rintro m ⟨⟨some, _⟩, _, regular⟩ h
      rcases List.mem_cons.mp h with first | later
      · exact some first.symm
      · exact ih regular later

end Fields

section Read

variable (uninit : Nat → Byte)

/-- A nested message with fifteen fields is not even read as a map. -/
theorem readValue_mapHeader_15
    (readKeyValues : InputStream → Option (KeyValueMap Bytes MsgPackAny × InputStream))
    {is : InputStream} {t : Bytes} (hg : is.good)
    (hr : is.rest = ToMsgPackVisitor.mapHeader (BitVec.ofNat 32 15) ++ t) :
    readValue uninit readKeyValues is = some (.empty, is.advance 1) := by
  have header : ToMsgPackVisitor.mapHeader (BitVec.ofNat 32 15) = [fixmapEnd] := by decide
  rw [header, List.cons_append] at hr
  rw [readValue_cons uninit readKeyValues hg hr, getFormatFamily_fixmapEnd]

/-- The entries of a nested message that is read as a map. -/
theorem readPairs_of_readValue {inner : Fields} (small : inner.length < 2 ^ 32)
    {x : inner.Values} {depth : Nat} {nested : KeyValueMap Bytes MsgPackAny}
    {is is₂ : InputStream} {t : Bytes} (hg : is.good) (hr : is.rest = inner.msgPackBytes x ++ t)
    (read : readValue uninit (readKeyValues uninit depth) is = some (.keyValues nested, is₂)) :
    inner.length ≠ 15 ∧ ∃ depth' is₁, depth = depth' + 1 ∧ is₁.good ∧
      is₁.rest = inner.msgPackEntries x ++ t ∧
      readPairs uninit (readKeyValues uninit depth') inner.length [] is₁ = some (nested, is₂) := by
  rw [Fields.msgPackBytes, List.append_assoc] at hr
  have not15 : inner.length ≠ 15 := by
    intro is15
    rw [is15] at hr
    rw [readValue_mapHeader_15 uninit _ hg hr] at read
    cases read
  refine ⟨not15, ?_⟩
  obtain ⟨c, hs, header, family, count⟩ := readTokensToRead_mapHeader small not15
  rw [header, List.cons_append] at hr
  have behind := rest_advance_one hr
  rw [readValue_cons uninit _ hg hr, family] at read
  cases depth with
  | zero => cases read
  | succ depth' =>
      simp only [readKeyValues, findMap_cons family hg hr,
        count.complete (good_advance_of hg 1) behind, Option.map_eq_some_iff] at read
      obtain ⟨⟨keyValues, is'⟩, pairs, same⟩ := read
      obtain ⟨value, rfl⟩ := Prod.mk.inj same
      obtain rfl := MsgPackAny.keyValues.inj value
      exact ⟨depth', _, rfl, good_advance_of (good_advance_of hg 1) hs.length,
        rest_advance_append behind, pairs⟩

theorem MsgPackAny.eq_keyValues_of_kind {any : MsgPackAny} {nested : KeyValueMap Bytes MsgPackAny}
    (kind : MsgPackAny.kind.nested any = some nested) : any = .keyValues nested := by
  cases any with
  | keyValues m => exact congrArg MsgPackAny.keyValues (Option.some.inj kind)
  | empty | bool | uint64 | int64 | float | double | string => cases kind

/-- **A message whose values are all found is readable.** -/
theorem readable_of_held (fs : Fields) :
    fs.DistinctNames → ∀ {m : fs.Values}, fs.MsgPackRegular m → ∀ {depth : Nat}
      {before keyValues : KeyValueMap Bytes MsgPackAny} {is is' : InputStream} {t : Bytes},
      is.good → is.rest = fs.msgPackEntries m ++ t →
      (∀ k ∈ fs.keys FieldInfo.name, before.find k = none) →
      readPairs uninit (readKeyValues uninit depth) fs.length before is = some (keyValues, is') →
      fs.Held MsgPackAny.kind m keyValues → fs.MsgPackReadable m ∧ fs.depth ≤ depth := by
  induction fs with
  | nil => intro _ _ _ _ _ _ _ _ _ _ _ _ _ _; exact ⟨trivial, Nat.zero_le _⟩
  | scalar field t rest ih =>
      intro distinct m regular depth before keyValues is is' after hg hr new read held
      have named := Fields.MsgPackRegular.named rest regular.2
      rw [Fields.msgPackEntries, List.append_assoc, List.append_assoc] at hr
      rw [Fields.length, ← rest.length_keys FieldInfo.name] at read
      obtain ⟨name, value, is₂, valueRead, found, others⟩ := head_of_readPairs uninit _
        regular.1.1 regular.1.2 ((Fields.scalar field t rest).nodup_keys distinct) named new hg hr
        read fun k hk => held.find_isSome _ hk
      obtain ⟨⟨any, foundAny, cast⟩, held⟩ := held
      obtain rfl := Option.some.inj (found.symm.trans foundAny)
      have atValue := rest_advance_append hr
      have readable :=
        readable_of_readValue uninit _ t (good_advance_of hg _) atValue valueRead cast
      rw [readValue_encode uninit _ t m.1 readable (good_advance_of hg _) atValue] at valueRead
      obtain ⟨_, rfl⟩ := Prod.mk.inj (Option.some.inj valueRead)
      rw [rest.length_keys] at others
      have stillNew := KeyValueMap.find_assign_eq_none distinct.1 new value
      obtain ⟨readableRest, deep⟩ := ih distinct.2 regular.2
        (good_advance_of (good_advance_of hg _) _) (rest_advance_append atValue) stillNew others
        held
      exact ⟨⟨name, readable, readableRest⟩, deep⟩
  | nested field info inner rest ihInner ih =>
      intro distinct m regular depth before keyValues is is' after hg hr new read held
      obtain ⟨sizes, ⟨_, small, short, regularInner⟩, regular⟩ := regular
      have named := Fields.MsgPackRegular.named rest regular
      rw [Fields.msgPackEntries_nested m short, List.append_assoc, List.append_assoc] at hr
      rw [Fields.length, ← rest.length_keys FieldInfo.name] at read
      obtain ⟨name, value, is₂, valueRead, found, others⟩ := head_of_readPairs uninit _
        sizes.1 sizes.2 ((Fields.nested field info inner rest).nodup_keys distinct) named new hg hr
        read fun k hk => held.find_isSome _ hk
      obtain ⟨⟨any, nested, foundNested, kind, heldInner⟩, held⟩ := held
      obtain rfl := Option.some.inj (found.symm.trans foundNested)
      obtain rfl := MsgPackAny.eq_keyValues_of_kind kind
      have atValue := rest_advance_append hr
      obtain ⟨not15, depth, is₁, rfl, hg₁, hr₁, pairs⟩ :=
        readPairs_of_readValue uninit small (good_advance_of hg _) atValue valueRead
      obtain ⟨readable, deepInner⟩ := ihInner distinct.2.1 regularInner hg₁ hr₁
        (fun _ _ => rfl) pairs heldInner
      rw [readValue_msgPackBytes uninit small not15 (readPairs_entries uninit inner readable
        deepInner []) (good_advance_of hg _) atValue] at valueRead
      obtain ⟨_, rfl⟩ := Prod.mk.inj (Option.some.inj valueRead)
      rw [rest.length_keys] at others
      have stillNew := KeyValueMap.find_assign_eq_none distinct.1 new (.keyValues nested)
      obtain ⟨readableRest, deep⟩ := ih distinct.2.2 regular
        (good_advance_of (good_advance_of hg _) _) (rest_advance_append atValue) stillNew others
        held
      exact ⟨⟨name, ⟨small, not15, short, readable⟩, readableRest⟩,
        max_le (Nat.succ_le_succ deepInner) deep⟩

end Read

/-! ## The round trip -/

/-- A message that the decoder reads back from the bytes of the encoder: neither it nor a
nested message has fifteen fields, no name and no string has 31 bytes, and all sizes fit 32
bits. -/
def MessageType.MsgPackReadable (T : MessageType) (m : T.Values) : Prop :=
  T.fields.length < 2 ^ 32 ∧ T.fields.length ≠ 15 ∧ T.fields.MsgPackReadable m

namespace FromMsgPackVisitor

variable (uninit : Nat → Byte)

/-- A message that every target gets from its encoding is readable. -/
theorem readable_of_decode {T : MessageType} (distinct : T.fields.DistinctNames)
    (small : T.fields.length < 2 ^ 32) (not15 : T.fields.length ≠ 15) {m : T.Values}
    (regular : T.fields.MsgPackRegular m) {d : FromMsgPackVisitor}
    (running : d.terminated = false)
    (same : ∀ v, ∃ d', decode uninit T d (ToMsgPackVisitor.encoded T m) v = some (m, d')) :
    T.MsgPackReadable m := by
  set bytes := ToMsgPackVisitor.encoded T m with written
  rw [ToMsgPackVisitor.encoded_eq] at written
  obtain ⟨c, hs, header, family, count⟩ := readTokensToRead_mapHeader small not15
  have first : (ofBytes bytes).rest = c :: (hs ++ (T.fields.msgPackEntries m ++ [])) := by
    rw [List.append_nil, ← List.cons_append, ← header]
    exact written
  have hg : (ofBytes bytes).good := rfl
  have behind := rest_advance_one first
  have content := rest_advance_append behind
  obtain ⟨_, decoded⟩ := same m
  cases read : readKeyValues uninit ((ofBytes bytes).rest.length + 1) (ofBytes bytes) with
  | none =>
      rw [decode, decodeFrom, read] at decoded
      cases decoded
  | some result =>
      obtain ⟨keyValues, is'⟩ := result
      have accepted : ∀ v, ((T.fields.visitable visitor).accept v ⟨keyValues, false⟩).1 = m := by
        intro v
        obtain ⟨d', decoded⟩ := same v
        rw [decode_eq uninit running read] at decoded
        exact congrArg Prod.fst (Option.some.inj decoded)
      have held := KeyValueVisitor.held_of_accept T.fields (Fields.MsgPackRegular.filled _ regular)
        accepted
      rw [readKeyValues, findMap_cons family hg first] at read
      simp only [count.complete (good_advance_of hg 1) behind] at read
      have readable := readable_of_held uninit T.fields distinct regular
        (good_advance_of (good_advance_of hg 1) _) content (fun _ _ => rfl) read held
      exact ⟨small, not15, readable.1⟩

/-- **MsgPack round trip.** Whatever a target held before, decoding the bytes of a readable
message makes it equal to the message. Conversely, only a readable message is given to every
target, unless fifteen fields of the outermost message hide its own header. -/
theorem decode_msgPack {T : MessageType} (distinct : T.fields.DistinctNames) (m : T.Values)
    {d : FromMsgPackVisitor} (running : d.terminated = false) :
    (T.MsgPackReadable m → ∀ v, ∃ d',
      decode uninit T d (ToMsgPackVisitor.encoded T m) v = some (m, d') ∧
        d'.terminated = false) ∧
    (T.fields.length < 2 ^ 32 → T.fields.length ≠ 15 → T.fields.MsgPackRegular m →
      (∀ v, ∃ d', decode uninit T d (ToMsgPackVisitor.encoded T m) v = some (m, d')) →
      T.MsgPackReadable m) := by
  constructor
  · rintro ⟨small, not15, readable⟩ v
    exact decode_readable uninit distinct small not15 readable running v
  · intro small not15 regular same
    exact readable_of_decode uninit distinct small not15 regular running same

theorem decode_msgPack_timeStamp :
    let m := TimeStamp.of 1234 (-5)
    (∀ v, ∃ d', decode (fun _ => 0) TimeStamp init (ToMsgPackVisitor.encoded TimeStamp m) v =
      some (m, d') ∧ d'.terminated = false) ∧ TimeStamp.MsgPackReadable m := by
  have distinct : TimeStamp.fields.DistinctNames := by
    simp [TimeStamp, Fields.Distinct, Fields.keys, FieldInfo.declared, asciiBytes]
  have both := decode_msgPack (fun _ => 0) distinct (TimeStamp.of 1234 (-5)) (d := init) rfl
  have readable : TimeStamp.MsgPackReadable (TimeStamp.of 1234 (-5)) := by
    simp [MessageType.MsgPackReadable, TimeStamp, Fields.length, Fields.MsgPackReadable,
      ReadableString, ScalarType.MsgPackReadable, FieldInfo.declared, asciiBytes]
  have regular : TimeStamp.fields.MsgPackRegular (TimeStamp.of 1234 (-5)) := by
    simp [TimeStamp, Fields.MsgPackRegular, FieldInfo.declared, asciiBytes]
  have decoded := both.1 readable
  refine ⟨decoded, both.2 (by decide) (by decide) regular fun v => ?_⟩
  obtain ⟨d', same, _⟩ := decoded v
  exact ⟨d', same⟩

/-- **The decoder loses strings of 31 bytes, fields whose names have 31 bytes, and messages of
fifteen fields**: the targets keep what they held. -/
theorem decode_msgPack_ne :
    let decoded (fields : Fields) (m v : fields.Values) :=
      let T : MessageType := ⟨⟨1, asciiBytes "M", asciiBytes "M"⟩, fields⟩
      (decode (fun _ => 0) T init (ToMsgPackVisitor.encoded T m) v).map Prod.fst
    let text : Fields := .scalar (.declared "std::string" "text" 1) .string .nil
    let long : Fields := .scalar (.declared "int32_t" "abcdefghijklmnopqrstuvwxyz01234" 1) .int32 .nil
    let digit (n : Nat) (rest : Fields) : Fields :=
      .scalar ⟨BitVec.ofNat 32 n, asciiBytes "int32_t", [BitVec.ofNat 8 (n + 64)]⟩ .int32 rest
    let many : Fields := digit 1 (digit 2 (digit 3 (digit 4 (digit 5 (digit 6 (digit 7 (digit 8
      (digit 9 (digit 10 (digit 11 (digit 12 (digit 13 (digit 14 (digit 15 .nil))))))))))))))
    decoded text (List.replicate 31 0x78, ()) ([], ()) = some ([], ()) ∧
    decoded long (5, ()) (0, ()) = some (0, ()) ∧
    decoded many (1, 1, 1, 1, 1, 1, 1, 1, 1, 1, 1, 1, 1, 1, 1, ())
      (0, 0, 0, 0, 0, 0, 0, 0, 0, 0, 0, 0, 0, 0, 0, ()) =
        some (0, 0, 0, 0, 0, 0, 0, 0, 0, 0, 0, 0, 0, 0, 0, ()) :=
  ⟨by decide, by decide, rfl⟩

end FromMsgPackVisitor

end Cluon
