import Cluon.JSON.StringToolbox
import Cluon.JSON.ToJSONVisitor
import Cluon.Library.Regex
import Cluon.Message.KeyValueVisitor

/-!
# Decoding messages from JSON format

`FromJSONVisitor` first reads a map from names to values (`readKeyValues`): it searches the
text for a key, a colon, and a value, again and again behind the previous match. If the value is
empty, a nested object is taken to begin, and the rest of the text is read in the same way. A
map is complete when a value is followed by a closing brace, or when there is no further match.
A message that accepts the decoder afterwards finds its values in the map.
-/

set_option autoImplicit false

namespace Cluon

open Library JSON stringtoolbox

/-! ## The pattern -/

namespace JSON

/-- The white space of the C locale. -/
def isSpace (c : Byte) : Bool := decide (c = 0x20 ∨ 0x09 ≤ c ∧ c ≤ 0x0D)

/-- A quote of either kind. -/
def quotePattern : Regex Byte :=
  .alt (.chr quote) (.chr apostrophe)

/-- `[0-9a-zA-Z\+\-\,\.\$\ \=]`. -/
def isPlain (c : Byte) : Bool :=
  decide (0x30 ≤ c ∧ c ≤ 0x39 ∨ 0x61 ≤ c ∧ c ≤ 0x7A ∨ 0x41 ≤ c ∧ c ≤ 0x5A) ||
    decide (c ∈ asciiBytes "+-,.$ =")

/-- `[\-]{0,1}`. -/
def minusPattern : Regex Byte := .opt (.chr 0x2D)

/-- `[\-]{0,1}[0-9]+[\.][0-9]+`. -/
def decimalPattern : Regex Byte :=
  .seq minusPattern <| .seq (.set isDigit) <| .seq (.star isDigit) <|
    .seq (.chr 0x2E) (.plus isDigit)

/-- `[\-]{0,1}[0-9]+`. -/
def integerPattern : Regex Byte := .seq minusPattern (.plus isDigit)

/-- The alternatives for a value, without its quotes. -/
def contentPattern : Regex Byte :=
  .alt (.word (asciiBytes "true")) <| .alt (.word (asciiBytes "false")) <|
    .alt decimalPattern <| .alt integerPattern (.star isPlain)

/-- The part of `MATCH_JSON` behind the colon and its white space. -/
def valuePattern : Regex Byte := .seq (.opt quotePattern) (.seq contentPattern (.opt quotePattern))

/-- `MATCH_JSON`. -/
def MATCH_JSON : Regex Byte :=
  .seq quotePattern <| .seq (.star fun c => decide (c ≠ quote)) <| .seq quotePattern <|
    .seq (.look (.chr colon)) <| .seq (.chr colon) <| .seq (.star isSpace) valuePattern

end JSON

/-- What a `JSONKeyValue` holds: `m_value`, from which `m_type` can be seen. -/
inductive JSONValue where
  | bool (v : Bool)
  | number (v : ℚ)
  | string (s : Bytes)
  | object (m : List (Bytes × JSONValue))

/-! ## Reading -/

/-- Why the text is not read to its end: an element behind the end of a vector is accessed, so
that the behaviour is undefined, or the given number of rounds is not enough. -/
inductive ReadError where
  | outOfRange
  | endless
  deriving DecidableEq, Repr

/-- The value of a key, from the text behind its colon. -/
def JSONValue.ofText (second : Bytes) : JSONValue :=
  if second.head? = some quote then .string (second.drop 1)
  else if second = asciiBytes "false" ∨ second = asciiBytes "true" then
    .bool (decide (second = asciiBytes "true"))
  else .number (readDouble second)

/-- The second element of a vector. -/
def secondPart : List Bytes → Except ReadError Bytes
  | _ :: part :: _ => .ok part
  | _ => .error .outOfRange

/-- The rest of the loop of `readKeyValues(input)`, which also is all of the function for an
empty `result` and an empty `oldInput`. It gives the map and the input that is left. A
nested map is read with the same number of rounds. -/
def FromJSONVisitor.readKeyValues : (rounds : Nat) → (result : KeyValueMap Bytes JSONValue) →
    (oldInput input : Bytes) → Except ReadError (KeyValueMap Bytes JSONValue × Bytes)
  | 0, _, _, _ => .error .endless
  | rounds + 1, result, oldInput, input =>
      match MATCH_JSON.search input with
      | none => .ok (result, input)
      | some (found, suffix) =>
          match split found colon with
          | [first, second] =>
              if trim second = [] then do
                let keyOfNestedObject ← secondPart (split (trim first) quote)
                let (mapOfNestedValues, left) ← readKeyValues rounds [] [] (trim suffix)
                let result := result.assign keyOfNestedObject (.object mapOfNestedValues)
                if input ≠ left then readKeyValues rounds result input left
                else .ok (result, left)
              else do
                let key ← secondPart (split (trim first) quote)
                let result := result.assign key (.ofText (trim second))
                let left := trim suffix
                -- Nested payload complete; return.
                if left.head? = some closeBrace then .ok (result, left)
                else if input ≠ left then readKeyValues rounds result input left
                else .ok (result, left)
          | _ =>
              if oldInput ≠ input then readKeyValues rounds result oldInput input
              else .ok (result, input)

/-! ## Base64 -/

/-- The position of a character in `ALPHABET`, which is 64 for all others. -/
def base64Value (c : Byte) : BitVec 8 := BitVec.ofNat 8 (base64Alphabet.idxOf c)

/-- The bytes that four characters stand for. -/
def decodeBase64Group (b₀ b₁ b₂ b₃ : BitVec 8) : Bytes :=
  [(b₀ <<< 2) + (b₁ >>> 4)] ++
    (if b₂ ≠ 64 then [(b₁ <<< 4) + (b₂ >>> 2)] else []) ++
    (if b₃ ≠ 64 then [(b₂ <<< 6) + b₃] else [])

/-- The loop of `decodeBase64(input)`; up to three characters at the end are left over. -/
def decodeBase64Groups : Bytes → Bytes
  | c₀ :: c₁ :: c₂ :: c₃ :: s =>
      decodeBase64Group (base64Value c₀) (base64Value c₁) (base64Value c₂) (base64Value c₃) ++
        decodeBase64Groups s
  | _ => []

/-- `decodeBase64(input)`. The index of the loop has 32 bits, so that it never reaches the end of
a longer input. -/
def decodeBase64 (input : Bytes) : Option Bytes :=
  if input.length < 2 ^ 32 then some (decodeBase64Groups input) else none

/-! ## The decoder -/

namespace JSONValue

/-- The integers of `w` bits, with or without a sign. -/
def IsInteger : (signed : Bool) → Nat → ℤ → Prop
  | true, w, n => -2 ^ (w - 1) ≤ n ∧ n < 2 ^ (w - 1)
  | false, w, n => 0 ≤ n ∧ n < 2 ^ w

instance : (signed : Bool) → (w : Nat) → (n : ℤ) → Decidable (IsInteger signed w n)
  | true, w, n => inferInstanceAs (Decidable (-2 ^ (w - 1) ≤ n ∧ n < 2 ^ (w - 1)))
  | false, w, n => inferInstanceAs (Decidable (0 ≤ n ∧ n < 2 ^ w))

/-- `static_cast` of a floating-point number to an integer, which is undefined out of range. -/
def castToInt (F : FloatFormat) (signed : Bool) (w : Nat) (v : ℚ) : BitVec w :=
  if IsInteger signed w (truncate v) then BitVec.ofInt w (truncate v) else F.castOutOfRange w v

/-- The number of an entry. -/
def castToNumber : JSONValue → Except VisitError ℚ
  | .number v => .ok v
  | _ => .error .badAnyCast

/-- The string of an entry. -/
def castToString : JSONValue → Except VisitError Bytes
  | .string s => .ok s
  | _ => .error .badAnyCast

/-- The value of a string field from the text of an entry. -/
def castToBytes (any : JSONValue) : Except VisitError Bytes := do
  let s ← any.castToString
  match decodeBase64 s with
  | some v => .ok v
  | none => .error .endless

theorem castToBytes_eq_elim (s : Bytes) :
    (string s).castToBytes = (decodeBase64 s).elim (.error .endless) .ok := by
  simp only [castToBytes, castToString, bind, Except.bind]
  cases decodeBase64 s with
  | none => rfl
  | some v => rfl

/-- The value of a scalar field from an entry of the map; an entry of another type leaves the
field as it is. -/
def castTo (F : FloatFormat) : (t : ScalarType) → JSONValue → Except VisitError t.Value
  | .bool, .bool v => .ok v
  | .bool, any => return decide (castToInt F false 32 (← any.castToNumber) = 1)
  | .char, any => do
      match ← any.castToString with
      | [] => .error .outOfRange
      | c :: _ => .ok c
  | .int8, any => return castToInt F true 8 (← any.castToNumber)
  | .uint8, any => return castToInt F false 8 (← any.castToNumber)
  | .int16, any => return castToInt F true 16 (← any.castToNumber)
  | .uint16, any => return castToInt F false 16 (← any.castToNumber)
  | .int32, any => return castToInt F true 32 (← any.castToNumber)
  | .uint32, any => return castToInt F false 32 (← any.castToNumber)
  | .int64, any => return castToInt F true 64 (← any.castToNumber)
  | .uint64, any => return castToInt F false 64 (← any.castToNumber)
  | .float, any => return F.toFloat (← any.castToNumber)
  | .double, any => return F.toDouble (← any.castToNumber)
  | .bytes, any => any.castToBytes
  | .string, any => any.castToBytes

/-- What the entries of the map give. -/
def kind (F : FloatFormat) : EntryKind JSONValue where
  castTo := castTo F
  nested
    | .object m => some m
    | _ => none

end JSONValue

/-- The decoder. -/
abbrev FromJSONVisitor := KeyValueVisitor JSONValue

namespace FromJSONVisitor

/-- A newly constructed decoder. -/
def init : FromJSONVisitor := ⟨[], false⟩

/-- `decodeFrom(in)`: extracting characters from a stream skips white space. -/
def decodeFrom (rounds : Nat) (d : FromJSONVisitor) (text : Bytes) :
    Except ReadError FromJSONVisitor := do
  let s := text.filter fun c => !isSpace c
  let (keyValues, _) ← readKeyValues rounds [] [] s
  return { d with keyValues := keyValues }

/-- The visitor: a message looks its fields up in the key/values. -/
def visitor (F : FloatFormat) : Visitor FromJSONVisitor :=
  KeyValueVisitor.visitor (JSONValue.kind F)

/-- `decodeFrom(in)` followed by `v.accept(decoder)`. -/
def decode (F : FloatFormat) (T : MessageType) (rounds : Nat) (d : FromJSONVisitor)
    (text : Bytes) (v : T.Values) : Except ReadError (T.Values × FromJSONVisitor) := do
  let d' ← d.decodeFrom rounds text
  return (T.visitable (visitor F)).accept v d'

end FromJSONVisitor

end Cluon
