import Cluon.JSON.Rounds
import Cluon.Message.Foreign
import Cluon.MsgPack.FromMsgPackVisitor

/-!
# Foreign data in MsgPack and JSON format

What the decoders for MsgPack and for JSON have read may be accepted by a message of any type. The
program goes on, and fields whose data is of another kind stay as they are, exactly if no `char`
field finds an empty string and, in JSON format, no string field finds a text whose length has more
than 32 bits (`tolerates_foreign_iff`). If a number that is out of the range of the field counts as
data that does not fit, then no field may find such a number either, unless in MsgPack format it has
already the value that the number is cast to. In JSON format such a cast is undefined.

The exception that `at(0)` throws for an empty string is not the one that the `visit` methods
catch (`not_tolerates_foreign`).
-/

set_option autoImplicit false

namespace Cluon

open Library InputStream JSON stringtoolbox

/-! ## Numbers and fields -/

namespace ScalarType

/-- The type represents the number. -/
def InRange (n : ℤ) : ScalarType → Prop
  | .int8 => -2 ^ 7 ≤ n ∧ n < 2 ^ 7
  | .uint8 => 0 ≤ n ∧ n < 2 ^ 8
  | .int16 => -2 ^ 15 ≤ n ∧ n < 2 ^ 15
  | .uint16 => 0 ≤ n ∧ n < 2 ^ 16
  | .int32 => -2 ^ 31 ≤ n ∧ n < 2 ^ 31
  | .bool | .uint32 => 0 ≤ n ∧ n < 2 ^ 32
  | .int64 => -2 ^ 63 ≤ n ∧ n < 2 ^ 63
  | .uint64 => 0 ≤ n ∧ n < 2 ^ 64
  | _ => True

/-- The value that a number is cast to, modulo a power of two. -/
def Congruent (n : ℤ) : (t : ScalarType) → t.Value → Prop
  | .bool, v => v = decide (BitVec.ofInt 32 n = 1)
  | .int8, v | .uint8, v => v = BitVec.ofInt 8 n
  | .int16, v | .uint16, v => v = BitVec.ofInt 16 n
  | .int32, v | .uint32, v => v = BitVec.ofInt 32 n
  | .int64, v | .uint64, v => v = BitVec.ofInt 64 n
  | _, _ => False

end ScalarType

/-! ## Entries of the MsgPack decoder -/

namespace MsgPackAny

/-- The entry is of the kind of the field. -/
def OfKind : ScalarType → MsgPackAny → Prop
  | .bool, any => ∃ v, any = .bool v
  | .char, any | .bytes, any | .string, any => ∃ s, any = .string s
  | .int8, any | .int16, any | .int32, any | .int64, any =>
      (∃ v, any = .int64 v) ∨ ∃ v, any = .uint64 v
  | .uint8, any | .uint16, any | .uint32, any | .uint64, any => ∃ v, any = .uint64 v
  | .float, any => ∃ v, any = .float v
  | .double, any => ∃ v, any = .double v

/-- The number that is stored. -/
def integer : MsgPackAny → Option ℤ
  | .uint64 v => some v.toNat
  | .int64 v => some v.toInt
  | _ => none

/-- The entry is of the kind of the field, and its number is in the range of the field. -/
def Fits (t : ScalarType) (any : MsgPackAny) : Prop :=
  OfKind t any ∧ ∀ n, any.integer = some n → t.InRange n

/-- A `char` field finds an empty string. -/
def Stops (t : ScalarType) (any : MsgPackAny) : Prop := t = .char ∧ any = .string []

/-- An entry of the kind of the field has a number in the range of the field, or the field has
already the value that the number is cast to. -/
def Keeps (t : ScalarType) (v : t.Value) (any : MsgPackAny) : Prop :=
  OfKind t any → ∀ n, any.integer = some n → t.InRange n ∨ t.Congruent n v

theorem casts : kind.Casts OfKind Stops where
  stops := by
    rintro t any ⟨rfl, rfl⟩
    exact .inl rfl
  gives := by
    intro t any goesOn ofKind
    cases t with
    | char =>
        obtain ⟨s, rfl⟩ := ofKind
        cases s with
        | nil => exact absurd ⟨rfl, rfl⟩ goesOn
        | cons c s => exact ⟨c, rfl⟩
    | int8 | int16 | int32 | int64 =>
        obtain ⟨v, rfl⟩ | ⟨v, rfl⟩ := ofKind
        all_goals exact ⟨_, rfl⟩
    | _ =>
        obtain ⟨v, rfl⟩ := ofKind
        exact ⟨_, rfl⟩
  fails := by
    intro t any other
    cases t
    all_goals cases any
    all_goals first | rfl | exact absurd (by simp [OfKind]) other

theorem setWidth_eq_ofInt (w : Nat) (v : BitVec 64) : v.setWidth w = BitVec.ofInt w v.toNat := by
  rw [BitVec.ofInt_natCast, BitVec.ofNat_toNat]

theorem castToSigned_of_integer {w : Nat} (le : w ≤ 64) {any : MsgPackAny} {n : ℤ}
    (number : any.integer = some n) : any.castToSigned w = .ok (BitVec.ofInt w n) := by
  cases any with
  | uint64 v =>
      obtain rfl := Option.some.inj number
      exact congrArg Except.ok (setWidth_eq_ofInt w v)
  | int64 v =>
      obtain rfl := Option.some.inj number
      exact congrArg Except.ok (BitVec.signExtend_eq_setWidth_of_le v le).symm
  | _ => cases number

theorem castToUnsigned_of_uint64 (w : Nat) (v : BitVec 64) :
    (uint64 v).castToUnsigned w = .ok (BitVec.ofInt w v.toNat) :=
  congrArg Except.ok (setWidth_eq_ofInt w v)

/-- The value that a number is cast to. -/
theorem castTo_eq_ok_iff {t : ScalarType} {any : MsgPackAny} (ofKind : OfKind t any) {n : ℤ}
    (number : any.integer = some n) (v : t.Value) : castTo t any = .ok v ↔ t.Congruent n v := by
  have of_eq {w : Nat} {a : Except VisitError (BitVec w)} {v : BitVec w}
      (cast : a = .ok (BitVec.ofInt w n)) : a = .ok v ↔ v = BitVec.ofInt w n := by
    rw [cast, Except.ok.injEq, eq_comm]
  cases t with
  | int8 | int16 | int32 | int64 => exact of_eq (castToSigned_of_integer (by decide) number)
  | uint8 | uint16 | uint32 | uint64 =>
      obtain ⟨u, rfl⟩ := ofKind
      obtain rfl := Option.some.inj number
      exact of_eq (castToUnsigned_of_uint64 _ u)
  | _ =>
      obtain ⟨u, rfl⟩ := ofKind
      cases number

theorem fits_or_cast_iff (t : ScalarType) (v : t.Value) (any : MsgPackAny) :
    (OfKind t any → Fits t any ∨ castTo t any = .ok v) ↔ Keeps t v any := by
  apply imp_congr_right
  intro ofKind
  rw [Fits, and_iff_right ofKind]
  cases number : any.integer with
  | none => exact iff_of_true (.inl fun n h => nomatch h) fun n h => nomatch h
  | some n =>
      simp only [castTo_eq_ok_iff ofKind number, Option.some.injEq, forall_eq']

end MsgPackAny

/-! ## Entries of the JSON decoder -/

namespace JSONValue

variable (F : FloatFormat)

/-- The entry is of the kind of the field. -/
def OfKind : ScalarType → JSONValue → Prop
  | .bool, any => (∃ v, any = .bool v) ∨ ∃ q, any = .number q
  | .char, any | .bytes, any | .string, any => ∃ s, any = .string s
  | _, any => ∃ q, any = .number q

/-- The type represents the number, up to its fraction. -/
def InRange (q : ℚ) : ScalarType → Prop
  | .float => |q| ≤ (2 ^ 24 - 1) * 2 ^ 104
  | .double => |q| ≤ (2 ^ 53 - 1) * 2 ^ 971
  | t => t.InRange (truncate q)

/-- The entry is of the kind of the field, and its number is in the range of the field. -/
def Fits (t : ScalarType) (any : JSONValue) : Prop :=
  OfKind t any ∧ ∀ q, any = .number q → InRange q t

/-- A `char` field finds an empty string, or a string field one whose length has more than 32
bits. -/
def Stops (t : ScalarType) (any : JSONValue) : Prop :=
  t = .char ∧ any = .string [] ∨
    (t = .bytes ∨ t = .string) ∧ ∃ s, any = .string s ∧ 2 ^ 32 ≤ s.length

/-- An entry of the kind of the field has a number in the range of the field. What is stored for a
number out of range is undefined. -/
def Keeps (t : ScalarType) (any : JSONValue) : Prop :=
  OfKind t any → ∀ q, any = .number q → InRange q t

variable {F}

theorem castToBytes_string (s : Bytes) :
    (string s).castToBytes =
      if s.length < 2 ^ 32 then .ok (decodeBase64Groups s) else .error .endless := by
  rw [castToBytes_eq_elim, decodeBase64]
  by_cases short : s.length < 2 ^ 32
  · rw [if_pos short, if_pos short, Option.elim]
  · rw [if_neg short, if_neg short, Option.elim]

theorem casts : (kind F).Casts OfKind Stops where
  stops := by
    rintro t any (⟨rfl, rfl⟩ | ⟨rfl | rfl, s, rfl, long⟩)
    · exact .inl rfl
    all_goals exact .inr ((castToBytes_string s).trans (if_neg (Nat.not_lt.mpr long)))
  gives := by
    intro t any goesOn ofKind
    cases t with
    | bool =>
        obtain ⟨v, rfl⟩ | ⟨q, rfl⟩ := ofKind
        all_goals exact ⟨_, rfl⟩
    | char =>
        obtain ⟨s, rfl⟩ := ofKind
        cases s with
        | nil => exact absurd (.inl ⟨rfl, rfl⟩) goesOn
        | cons c s => exact ⟨c, rfl⟩
    | bytes | string =>
        obtain ⟨s, rfl⟩ := ofKind
        have short : s.length < 2 ^ 32 := by
          by_contra long
          exact goesOn (.inr ⟨by simp, s, rfl, Nat.not_lt.mp long⟩)
        exact ⟨_, (castToBytes_string s).trans (if_pos short)⟩
    | _ =>
        obtain ⟨q, rfl⟩ := ofKind
        exact ⟨_, rfl⟩
  fails := by
    intro t any other
    cases t
    all_goals cases any
    all_goals first | rfl | exact absurd (by simp [OfKind]) other

/-- Every number out of range is cast to the given bits. -/
def outOfRangeTo (bit : Bool) : FloatFormat where
  printFloat _ := []
  printDouble _ := []
  toFloat _ := if bit then 1 else 0
  toDouble _ := if bit then 1 else 0
  castOutOfRange _ _ := if bit then 1 else 0

theorem castToInt_outOfRangeTo {signed : Bool} {w : Nat} {q : ℚ}
    (out : ¬ IsInteger signed w (truncate q)) (bit : Bool) :
    castToInt (outOfRangeTo bit) signed w q = if bit then 1 else 0 := if_neg out

theorem isInteger_of_castToInt {signed : Bool} {w : Nat} {q : ℚ} (wide : 0 < w)
    (same : castToInt (outOfRangeTo false) signed w q = castToInt (outOfRangeTo true) signed w q) :
    IsInteger signed w (truncate q) := by
  by_contra out
  rw [castToInt_outOfRangeTo out, castToInt_outOfRangeTo out] at same
  have zero : (0#w).toNat = (1#w).toNat := congrArg BitVec.toNat same
  rw [BitVec.toNat_zero, BitVec.toNat_one wide] at zero
  exact absurd zero Nat.zero_ne_one

/-- A value that a number is cast to in any case is that of a number in range. -/
theorem inRange_of_castTo {t : ScalarType} {q : ℚ} (ofKind : OfKind t (number q)) {v : t.Value}
    (cast : ∀ F, castTo F t (number q) = .ok v) : InRange q t := by
  have same := (cast (outOfRangeTo false)).trans (cast (outOfRangeTo true)).symm
  cases t with
  | char | bytes | string => exact absurd ofKind (by simp [OfKind])
  | float =>
      have differs : (0 : BitVec 32) = 1 := Except.ok.inj same
      exact absurd differs (by decide)
  | double =>
      have differs : (0 : BitVec 64) = 1 := Except.ok.inj same
      exact absurd differs (by decide)
  | bool =>
      by_contra out
      have differs : decide (castToInt (outOfRangeTo false) false 32 q = 1) =
          decide (castToInt (outOfRangeTo true) false 32 q = 1) := Except.ok.inj same
      have out' : ¬ IsInteger false 32 (truncate q) := out
      rw [castToInt_outOfRangeTo out', castToInt_outOfRangeTo out'] at differs
      exact absurd differs (by decide)
  | int8 | int16 | int32 | int64 => exact isInteger_of_castToInt (by decide) (Except.ok.inj same)
  | uint8 | uint16 | uint32 | uint64 =>
      exact isInteger_of_castToInt (by decide) (Except.ok.inj same)

theorem fits_or_casts_iff (t : ScalarType) (v : t.Value) (any : JSONValue) :
    (∀ F, OfKind t any → Fits t any ∨ castTo F t any = .ok v) ↔ Keeps t any := by
  constructor
  · rintro each ofKind q rfl
    by_contra out
    refine out (inRange_of_castTo ofKind fun F => (each F ofKind).resolve_left fun fits => ?_)
    exact out (fits.2 q rfl)
  · exact fun keeps F ofKind => .inl ⟨ofKind, keeps ofKind⟩

end JSONValue

/-! ## The messages that accept the decoders -/

theorem FromMsgPackVisitor.decodeFrom_terminated {uninit : Nat → Byte}
    {d d' : FromMsgPackVisitor} {is is' : InputStream}
    (decoded : d.decodeFrom uninit is = some (d', is')) : d'.terminated = d.terminated := by
  obtain ⟨⟨keyValues, rest⟩, -, same⟩ := Option.map_eq_some_iff.mp decoded
  exact (congrArg (fun r => r.1.terminated) same).symm

theorem FromJSONVisitor.decodeFrom_terminated {rounds : Nat} {d d' : FromJSONVisitor}
    {text : Bytes} (decoded : d.decodeFrom rounds text = .ok d') :
    d'.terminated = d.terminated := by
  rw [decodeFrom] at decoded
  cases read : readKeyValues rounds [] [] (text.filter fun c => !isSpace c) with
  | error e =>
      rw [read] at decoded
      cases decoded
  | ok r =>
      rw [read] at decoded
      cases decoded
      rfl

/-- What a message makes of the key/values of a decoder. -/
theorem EntryKind.Casts.tolerates_iff {α : Type} {K : EntryKind α}
    {OfKind Stops : ScalarType → α → Prop} (casts : K.Casts OfKind Stops)
    (Fits : ScalarType → α → Prop) {d : KeyValueVisitor α} (goesOn : d.terminated = false)
    (T : MessageType) (v : T.Values) :
    KeyValueVisitor.Tolerates K Fits d T v ↔
      T.fields.EachFound K
        (fun t v any => ¬ Stops t any ∧ (OfKind t any → Fits t any ∨ K.castTo t any = .ok v)) v
        d.keyValues := by
  rw [KeyValueVisitor.tolerates_iff Fits goesOn]
  exact Fields.EachFound.congr (casts.harmless_iff Fits) T.fields

/-- What a message makes of them if every number fits. -/
theorem EntryKind.Casts.tolerates_ofKind_iff {α : Type} {K : EntryKind α}
    {OfKind Stops : ScalarType → α → Prop} (casts : K.Casts OfKind Stops)
    {d : KeyValueVisitor α} (goesOn : d.terminated = false) (T : MessageType) (v : T.Values) :
    KeyValueVisitor.Tolerates K OfKind d T v ↔
      T.fields.EachFound K (fun t _ any => ¬ Stops t any) v d.keyValues := by
  rw [casts.tolerates_iff OfKind goesOn]
  exact Fields.EachFound.congr (fun t v any => and_iff_left .inl) T.fields

/-- **Foreign data is tolerated** by a message of any type, unless a `char` field finds an empty
string or, in JSON format, a string field finds a text that is too long; and, if numbers have to be
in the range of their fields, unless a field finds one that is not and, in MsgPack format, that
changes it. In JSON format it is undefined what a field gets from such a number. -/
theorem tolerates_foreign_iff (T : MessageType) (v : T.Values) :
    (∀ (uninit : Nat → Byte) (d d' : FromMsgPackVisitor) (is is' : InputStream),
      d.terminated = false → d.decodeFrom uninit is = some (d', is') →
      (KeyValueVisitor.Tolerates MsgPackAny.kind MsgPackAny.OfKind d' T v ↔
          T.fields.EachFound MsgPackAny.kind (fun t _ any => ¬ MsgPackAny.Stops t any) v
            d'.keyValues) ∧
        (KeyValueVisitor.Tolerates MsgPackAny.kind MsgPackAny.Fits d' T v ↔
          T.fields.EachFound MsgPackAny.kind
            (fun t v any => ¬ MsgPackAny.Stops t any ∧ MsgPackAny.Keeps t v any) v
            d'.keyValues)) ∧
    (∀ (rounds : Nat) (d d' : FromJSONVisitor) (text : Bytes),
      d.terminated = false → d.decodeFrom rounds text = .ok d' →
      (∀ F, KeyValueVisitor.Tolerates (JSONValue.kind F) JSONValue.OfKind d' T v ↔
          T.fields.EachFound (JSONValue.kind F) (fun t _ any => ¬ JSONValue.Stops t any) v
            d'.keyValues) ∧
        ((∀ F, KeyValueVisitor.Tolerates (JSONValue.kind F) JSONValue.Fits d' T v) ↔
          ∀ F, T.fields.EachFound (JSONValue.kind F)
            (fun t _ any => ¬ JSONValue.Stops t any ∧ JSONValue.Keeps t any) v
            d'.keyValues)) := by
  constructor
  · intro uninit d d' is is' goesOn decoded
    have goesOn' := (FromMsgPackVisitor.decodeFrom_terminated decoded).trans goesOn
    refine ⟨MsgPackAny.casts.tolerates_ofKind_iff goesOn' T v, ?_⟩
    rw [MsgPackAny.casts.tolerates_iff MsgPackAny.Fits goesOn']
    refine Fields.EachFound.congr (fun t v any => and_congr_right fun _ => ?_) T.fields
    exact MsgPackAny.fits_or_cast_iff t v any
  · intro rounds d d' text goesOn decoded
    have goesOn' := (FromJSONVisitor.decodeFrom_terminated decoded).trans goesOn
    refine ⟨fun F => JSONValue.casts.tolerates_ofKind_iff goesOn' T v, ?_⟩
    -- The kinds for the results of undefined casts differ in nothing else.
    have each (F : FloatFormat) :
        (∀ F', KeyValueVisitor.Tolerates (JSONValue.kind F') JSONValue.Fits d' T v) ↔
          T.fields.EachFound (JSONValue.kind F)
            (fun t _ any => ¬ JSONValue.Stops t any ∧ JSONValue.Keeps t any) v d'.keyValues := by
      simp only [JSONValue.casts.tolerates_iff JSONValue.Fits goesOn']
      have nested (F' : FloatFormat) : (JSONValue.kind F').nested = (JSONValue.kind F).nested := rfl
      have some : Nonempty FloatFormat := ⟨F⟩
      rw [Fields.forall_eachFound_iff nested T.fields]
      refine Fields.EachFound.congr (fun t v any => ?_) T.fields
      rw [← JSONValue.fits_or_casts_iff t v any, forall_and, forall_const]
      exact Iff.rfl
    exact ⟨fun tolerates F => (each F).mp tolerates, fun found F => (each F).mpr (found F) F⟩

/-- A message with a single character. -/
def letter : MessageType :=
  ⟨⟨1, asciiBytes "Letter", asciiBytes "Letter"⟩,
    .scalar ⟨1, asciiBytes "char", asciiBytes "letter"⟩ .char .nil⟩

/-- Behind the colon, the pattern matches no more than a quote. -/
theorem decodeFrom_letter : FromJSONVisitor.init.decodeFrom 2
    (asciiBytes "\x7b\"letter\":\"!\"\x7d") =
      .ok ⟨[(asciiBytes "letter", .string [])], false⟩ := by
  have filtered : (asciiBytes "\x7b\"letter\":\"!\"\x7d").filter (fun c => !isSpace c) =
      asciiBytes "\x7b\"letter\":\"!\"\x7d" := by decide
  have found : MATCH_JSON.search (asciiBytes "\x7b\"letter\":\"!\"\x7d") =
      some (asciiBytes "\"letter\":\"", asciiBytes "!\"\x7d") := by decide +kernel
  have first : roundOf (asciiBytes "\x7b\"letter\":\"!\"\x7d") =
      .value (asciiBytes "letter") (.string []) (asciiBytes "!\"\x7d") := by
    rw [roundOf, found]
    rfl
  have notFound : MATCH_JSON.search (asciiBytes "!\"\x7d") = none := by decide +kernel
  have last : roundOf (asciiBytes "!\"\x7d") = .noMatch := by
    rw [roundOf, notFound]
  have read : FromJSONVisitor.readKeyValues 2 [] [] (asciiBytes "\x7b\"letter\":\"!\"\x7d") =
      .ok ([(asciiBytes "letter", .string [])], asciiBytes "!\"\x7d") := by
    rw [readKeyValues_succ, first]
    simp only
    rw [if_pos (by decide), readKeyValues_succ, last]
    rfl
  rw [FromJSONVisitor.decodeFrom, filtered, read]
  rfl

/-- A letter that is there, and one that is not. -/
theorem tolerates_foreign_iff_letter :
    KeyValueVisitor.Tolerates MsgPackAny.kind MsgPackAny.Fits
        ⟨[(asciiBytes "letter", .string (asciiBytes "a"))], false⟩ letter (0x78, ()) ∧
      ¬ ∀ F, KeyValueVisitor.Tolerates (JSONValue.kind F) JSONValue.Fits
        ⟨[(asciiBytes "letter", .string [])], false⟩ letter (0x78, ()) := by
  have messages := tolerates_foreign_iff letter (0x78, ())
  constructor
  · refine (messages.1 (fun _ => 0) FromMsgPackVisitor.init _
      (ofBytes ([0x81] ++ [0xA6] ++ asciiBytes "letter" ++ [0xA1] ++ asciiBytes "a")) _ rfl
      rfl).2.mpr ⟨fun any found => ?_, trivial⟩
    obtain rfl := Option.some.inj found
    exact ⟨fun stops => (nomatch stops.2), fun _ n number => nomatch number⟩
  · intro tolerates
    have harmless := ((messages.2 2 FromJSONVisitor.init _ _ rfl decodeFrom_letter).2.mp
      tolerates (JSONValue.outOfRangeTo false)).1 _ rfl
    exact harmless.1 (.inl ⟨rfl, rfl⟩)

theorem not_tolerates_foreign :
    (∃ d is, FromMsgPackVisitor.init.decodeFrom (fun _ => 0)
        (ofBytes ([0x81] ++ [0xA6] ++ asciiBytes "letter" ++ [0xA0])) = some (d, is) ∧
      ¬ KeyValueVisitor.Tolerates MsgPackAny.kind MsgPackAny.OfKind d letter (0x78, ())) ∧
    ∃ d, FromJSONVisitor.init.decodeFrom 2 (asciiBytes "\x7b\"letter\":\"!\"\x7d") = .ok d ∧
      ∀ F, ¬ KeyValueVisitor.Tolerates (JSONValue.kind F) JSONValue.OfKind d letter (0x78, ()) := by
  constructor
  · refine ⟨⟨[(asciiBytes "letter", .string [])], false⟩, _, rfl, fun tolerates => ?_⟩
    have stopped := ((MsgPackAny.casts.tolerates_ofKind_iff rfl _ _).mp tolerates).1
      (.string []) rfl
    exact stopped ⟨rfl, rfl⟩
  · refine ⟨_, decodeFrom_letter, fun F tolerates => ?_⟩
    have stopped := ((JSONValue.casts.tolerates_ofKind_iff rfl _ _).mp tolerates).1
      (.string []) rfl
    exact stopped (.inl ⟨rfl, rfl⟩)

end Cluon
