import Cluon.Library.ByteOrder

/-!
# The Protobuf wire format under a schema

A schema names message types and gives every field of a message a number and a type. The bytes
of a message are a sequence of records, each made of a tag and a payload, and a reader that has
the schema takes from the records with the number of a field the value of the field's type: the
last one for a scalar, and for a nested message the records of all payloads one after the other
(`Schema.read`). Payloads of another wire type than the one of the field's type are skipped, as
are fields that the schema does not know.

A schema is one a reader can use when each name stands for one message type and each number for
one field of a message (`Schema.Valid`).
-/

set_option autoImplicit false

namespace Cluon.Library.Protobuf

/-! ## Schemas -/

/-- The types of fields; groups have no payload of their own. -/
inductive FieldType where
  | double | float | int32 | int64 | uint32 | uint64 | sint32 | sint64
  | fixed32 | fixed64 | sfixed32 | sfixed64 | bool | string | bytes | group
  | message (name : Bytes)
  deriving DecidableEq, Repr

/-- The names of the types that are not messages. -/
def keywords : List (Bytes × FieldType) :=
  [(asciiBytes "double", .double), (asciiBytes "float", .float), (asciiBytes "int32", .int32),
    (asciiBytes "int64", .int64), (asciiBytes "uint32", .uint32), (asciiBytes "uint64", .uint64),
    (asciiBytes "sint32", .sint32), (asciiBytes "sint64", .sint64),
    (asciiBytes "fixed32", .fixed32), (asciiBytes "fixed64", .fixed64),
    (asciiBytes "sfixed32", .sfixed32), (asciiBytes "sfixed64", .sfixed64),
    (asciiBytes "bool", .bool), (asciiBytes "string", .string), (asciiBytes "bytes", .bytes),
    (asciiBytes "group", .group)]

/-- A text is the name of a type that is not a message. -/
def IsKeyword (text : Bytes) : Prop := text ∈ keywords.map Prod.fst

instance (text : Bytes) : Decidable (IsKeyword text) :=
  inferInstanceAs (Decidable (text ∈ keywords.map Prod.fst))

/-- The type that a text in a schema stands for. -/
def FieldType.ofText (text : Bytes) : FieldType :=
  match keywords.find? fun entry => entry.1 = text with
  | some entry => entry.2
  | none => .message text

/-- A field of a message type. -/
structure Field where
  number : Nat
  type : FieldType
  deriving DecidableEq, Repr

/-- A message type. -/
structure Message where
  name : Bytes
  fields : List Field
  deriving DecidableEq, Repr

/-- The message types of a schema. -/
abbrev Schema := List Message

/-- Each name stands for one message type, and each number for one field of a message. -/
def Schema.Valid (schema : Schema) : Prop :=
  (schema.map Message.name).Nodup ∧ ∀ m ∈ schema, (m.fields.map Field.number).Nodup

instance (schema : Schema) : Decidable schema.Valid :=
  inferInstanceAs (Decidable ((schema.map Message.name).Nodup ∧
    ∀ m ∈ schema, (m.fields.map Field.number).Nodup))

/-- The names of the types that are not messages stand for no message. -/
theorem FieldType.ofText_keyword {text : Bytes} (h : IsKeyword text) (name : Bytes) :
    FieldType.ofText text ≠ .message name := by
  obtain ⟨entry, member, same⟩ := List.mem_map.mp h
  have isScalar : ∀ entry ∈ keywords, ∀ name, entry.2 ≠ .message name := by
    simp [keywords]
  rw [FieldType.ofText]
  rcases found : keywords.find? fun entry => entry.1 = text with _ | other
  · have := List.find?_eq_none.mp found entry member
    simp [same] at this
  · rw [found]
    exact isScalar other (List.mem_of_find?_eq_some found) name

/-- All other texts stand for messages. -/
theorem FieldType.ofText_message {text : Bytes} (h : ¬ IsKeyword text) :
    FieldType.ofText text = .message text := by
  have none : keywords.find? (fun entry => entry.1 = text) = none := by
    refine List.find?_eq_none.mpr fun entry member => ?_
    simp only [decide_eq_true_eq]
    rintro rfl
    exact h (List.mem_map.mpr ⟨entry, member, rfl⟩)
  rw [FieldType.ofText, none]

/-! ## Records -/

/-- The payload of a record, by its wire type. -/
inductive Payload where
  | varint (v : Nat)
  | i64 (v : Nat)
  | len (s : Bytes)
  | i32 (v : Nat)
  deriving DecidableEq, Repr

/-- A number of at most `n` groups of seven bits, lowest group first, at the start of bytes. -/
def readVarint : Nat → Bytes → Option (Nat × Bytes)
  | 0, _ => none
  | _ + 1, [] => none
  | n + 1, b :: bs =>
      if b.toNat < 128 then some (b.toNat, bs)
      else (readVarint n bs).map fun (v, rest) => (b.toNat - 128 + 128 * v, rest)

/-- A given number of bytes at the start of bytes. -/
def readBytes (n : Nat) (bytes : Bytes) : Option (Bytes × Bytes) :=
  if n ≤ bytes.length then some (bytes.take n, bytes.drop n) else none

/-- The payload of the given wire type at the start of bytes. -/
def readPayload (wireType : Nat) (bytes : Bytes) : Option (Payload × Bytes) :=
  match wireType with
  | 0 => (readVarint 10 bytes).map fun (v, rest) => (.varint v, rest)
  | 1 => (readBytes 8 bytes).map fun (v, rest) => (.i64 (ofLeBytes v), rest)
  | 2 => (readVarint 10 bytes).bind fun (n, rest) =>
      (readBytes n rest).map fun (s, rest) => (.len s, rest)
  | 5 => (readBytes 4 bytes).map fun (v, rest) => (.i32 (ofLeBytes v), rest)
  | _ => none

/-- The number of a field and its payload at the start of bytes. -/
def readRecord (bytes : Bytes) : Option ((Nat × Payload) × Bytes) :=
  (readVarint 10 bytes).bind fun (tag, rest) =>
    if tag / 8 = 0 then none
    else (readPayload (tag % 8) rest).map fun (payload, rest) => ((tag / 8, payload), rest)

/-- The records that bytes consist of, if there are at most `n`. -/
def readRecords : Nat → Bytes → Option (List (Nat × Payload))
  | _, [] => some []
  | 0, _ :: _ => none
  | n + 1, b :: bs =>
      (readRecord (b :: bs)).bind fun (record, rest) => (readRecords n rest).map (record :: ·)

theorem readBytes_append {n : Nat} {s : Bytes} (h : s.length = n) (rest : Bytes) :
    readBytes n (s ++ rest) = some (s, rest) := by
  subst h
  rw [readBytes, if_pos (by simp), List.take_left, List.drop_left]

theorem readPayload_varint {bytes rest : Bytes} {v : Nat}
    (h : readVarint 10 bytes = some (v, rest)) : readPayload 0 bytes = some (.varint v, rest) := by
  rw [readPayload, h, Option.map_some]

theorem readPayload_i64 {s : Bytes} (h : s.length = 8) (rest : Bytes) :
    readPayload 1 (s ++ rest) = some (.i64 (ofLeBytes s), rest) := by
  rw [readPayload, readBytes_append h, Option.map_some]

theorem readPayload_i32 {s : Bytes} (h : s.length = 4) (rest : Bytes) :
    readPayload 5 (s ++ rest) = some (.i32 (ofLeBytes s), rest) := by
  rw [readPayload, readBytes_append h, Option.map_some]

theorem readPayload_len {bytes s rest : Bytes}
    (h : readVarint 10 bytes = some (s.length, s ++ rest)) :
    readPayload 2 bytes = some (.len s, rest) := by
  simp only [readPayload, h, Option.bind_some, readBytes_append rfl, Option.map_some]

/-- Reading a record that is followed by other bytes. -/
theorem readRecord_append {key payload rest : Bytes} {tag : Nat} {p : Payload}
    (readKey : readVarint 10 (key ++ (payload ++ rest)) = some (tag, payload ++ rest))
    (positive : tag / 8 ≠ 0)
    (readPayload : readPayload (tag % 8) (payload ++ rest) = some (p, rest)) :
    readRecord (key ++ payload ++ rest) = some ((tag / 8, p), rest) := by
  rw [List.append_assoc, readRecord, readKey]
  simp only [Option.bind_some, if_neg positive, readPayload, Option.map_some]

/-- Reading records of which the first is followed by the others. -/
theorem readRecords_append {n : Nat} {bytes rest : Bytes} {record : Nat × Payload}
    (nonempty : bytes ≠ []) (first : readRecord (bytes ++ rest) = some (record, rest)) :
    readRecords (n + 1) (bytes ++ rest) = (readRecords n rest).map (record :: ·) := by
  obtain ⟨b, bs, rfl⟩ := List.exists_cons_of_ne_nil nonempty
  rw [List.cons_append] at first ⊢
  rw [readRecords, first, Option.bind_some]

/-! ## Values -/

/-- The value of a field; a message has one value for each field of its type, in order. -/
inductive Value where
  | absent
  | integer (v : Int)
  | bool (v : Bool)
  | float (v : BitVec 32)
  | double (v : BitVec 64)
  | string (s : Bytes)
  | message (values : List Value)

/-- The signed number of a ZigZag number. -/
def fromZigZag (n : Nat) : Int := if n % 2 = 0 then (n / 2 : Nat) else -((n / 2 : Nat) + 1)

/-- The value of a payload under a type that is not a message, if the wire types agree. -/
def FieldType.read : FieldType → Payload → Option Value
  | .double, .i64 v => some (.double (BitVec.ofNat 64 v))
  | .float, .i32 v => some (.float (BitVec.ofNat 32 v))
  | .int32, .varint v => some (.integer (BitVec.ofNat 32 v).toInt)
  | .int64, .varint v => some (.integer (BitVec.ofNat 64 v).toInt)
  | .uint32, .varint v => some (.integer (v % 2 ^ 32 : Nat))
  | .uint64, .varint v => some (.integer (v % 2 ^ 64 : Nat))
  | .sint32, .varint v => some (.integer (fromZigZag (v % 2 ^ 32)))
  | .sint64, .varint v => some (.integer (fromZigZag (v % 2 ^ 64)))
  | .fixed32, .i32 v => some (.integer v)
  | .fixed64, .i64 v => some (.integer v)
  | .sfixed32, .i32 v => some (.integer (BitVec.ofNat 32 v).toInt)
  | .sfixed64, .i64 v => some (.integer (BitVec.ofNat 64 v).toInt)
  | .bool, .varint v => some (.bool (v % 2 ^ 64 ≠ 0))
  | .string, .len s => some (.string s)
  | .bytes, .len s => some (.string s)
  | _, _ => none

/-- The bytes of a payload that has a length. -/
def Payload.bytes : Payload → Option Bytes
  | .len s => some s
  | _ => none

/-- The payloads of the records with the number of a field. -/
def payloadsOf (number : Nat) (records : List (Nat × Payload)) : List Payload :=
  (records.filter fun record => record.1 = number).map Prod.snd

/-- The value of a field; `nested` reads messages of a given name. -/
def Field.read (nested : Bytes → Bytes → Option (List Value)) (f : Field)
    (payloads : List Payload) : Option Value :=
  match f.type with
  | .message name =>
      match payloads.filterMap Payload.bytes with
      | [] => some .absent
      | s :: more => (nested name (s ++ more.flatten)).map .message
  | type => some ((payloads.filterMap type.read).getLast?.getD .absent)

/-- The values of the fields of a message whose messages are nested less than `n` deep. -/
def Schema.readMessage (schema : Schema) : Nat → Bytes → Bytes → Option (List Value)
  | 0, _, _ => none
  | n + 1, name, bytes =>
      (schema.find? fun m => m.name = name).bind fun m =>
        (readRecords bytes.length bytes).bind fun records =>
          m.fields.mapM fun f => f.read (schema.readMessage n) (payloadsOf f.number records)

/-- The values of the fields of a message of the given name, under a valid schema. -/
def Schema.read (schema : Schema) (name bytes : Bytes) : Option (List Value) :=
  if schema.Valid then schema.readMessage (bytes.length + 1) name bytes else none

/-! ## Fields with one record -/

/-- The records with a number that only the first of them has. -/
theorem payloadsOf_cons {number : Nat} {payload : Payload} {records : List (Nat × Payload)}
    (once : number ∉ records.map Prod.fst) :
    payloadsOf number ((number, payload) :: records) = [payload] := by
  have others : records.filter (fun record => record.1 = number) = [] := by
    apply List.filter_eq_nil_iff.mpr
    intro record member
    simp only [decide_eq_true_eq]
    rintro rfl
    exact once (List.mem_map_of_mem member)
  rw [payloadsOf, List.filter_cons_of_pos (by simp), others, List.map_cons, List.map_nil]

/-- The records with another number than the first. -/
theorem payloadsOf_cons_ne {number other : Nat} (h : other ≠ number) (payload : Payload)
    (records : List (Nat × Payload)) :
    payloadsOf number ((other, payload) :: records) = payloadsOf number records := by
  rw [payloadsOf, payloadsOf, List.filter_cons_of_neg (by simpa using h)]

/-- A field whose type is not a message never has a message as its value. -/
theorem Field.read_ne_message (nested : Bytes → Bytes → Option (List Value)) {f : Field}
    (scalar : ∀ name, f.type ≠ .message name) (payloads : List Payload) (values : List Value) :
    f.read nested payloads ≠ some (.message values) := by
  have noMessage : ∀ (t : FieldType) (p : Payload) (v : Value), t.read p = some v →
      v ≠ .message values := by
    intro t p v h
    cases t <;> cases p <;> simp [FieldType.read] at h <;> subst h <;> simp
  have last : ∀ t : FieldType,
      (payloads.filterMap t.read).getLast?.getD .absent ≠ .message values := by
    intro t
    rcases found : (payloads.filterMap t.read).getLast? with _ | v
    · simp
    · obtain ⟨p, _, isValue⟩ := List.mem_filterMap.mp (List.mem_of_getLast? found)
      exact noMessage t p v isValue
  intro h
  rw [Field.read] at h
  split at h
  case h_1 name isMessage => exact scalar name isMessage
  case h_2 => exact last _ (Option.some.inj h)

/-- A field whose type is not a message and that has one record. -/
theorem Field.read_single_iff (nested : Bytes → Bytes → Option (List Value)) {f : Field}
    (scalar : ∀ name, f.type ≠ .message name) {payload : Payload} {v : Value}
    (present : v ≠ .absent) : f.read nested [payload] = some v ↔ f.type.read payload = some v := by
  rw [Field.read]
  split
  case h_1 name isMessage => exact absurd isMessage (scalar name)
  case h_2 =>
      rcases read : f.type.read payload with _ | found
      · simp [read, present.symm]
      · simp [read]

/-- A field whose type is a message and that has one record. -/
theorem Field.read_message (nested : Bytes → Bytes → Option (List Value)) {f : Field}
    {name : Bytes} (isMessage : f.type = .message name) (s : Bytes) :
    f.read nested [.len s] = (nested name s).map .message := by
  rw [Field.read]
  split
  case h_1 other same =>
      rw [isMessage] at same
      cases same
      simp [Payload.bytes]
  case h_2 other => exact absurd isMessage (other name)

/-- The values of fields as a list, one by one. -/
theorem mapM_cons_eq_some {α β : Type} {g : α → Option β} {a : α} {as : List α} {b : β}
    {bs : List β} : (a :: as).mapM g = some (b :: bs) ↔ g a = some b ∧ as.mapM g = some bs := by
  rw [List.mapM_cons]
  cases g a <;> cases as.mapM g <;> simp

end Cluon.Library.Protobuf
