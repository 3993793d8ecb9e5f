import Cluon.JSON.RoundTrip
import Cluon.Message.DataStructures

/-!
# Messages that JSON loses

If every target gets a message, its fields are found in the maps (`found_of_held`), so that the
tree of its items is exact (`ItemTree.exact_of_found`). Then every scalar is read from its own
item, which is possible for readable messages only (`readable_of_entries`). `decode_json` puts
both directions together.
-/

set_option autoImplicit false

namespace Cluon

open Library JSON stringtoolbox

/-! ## What the fields find -/

theorem JSONValue.weight_ofValue (t : ScalarType) (v : t.Value) :
    (JSONValue.ofValue t v).weight = 1 := by
  rw [ofValue]
  split
  · rw [weight]
  · rw [weight]

/-- A message with all of its values in a map has its fields found. -/
theorem found_of_held {F : FloatFormat} (fs : Fields) :
    ∀ {m : fs.Values} {keyValues : KeyValueMap Bytes JSONValue},
      fs.Held (JSONValue.kind F) m keyValues → (fs.itemTree m).Found keyValues := by
  induction fs with
  | nil => intro _ _ _; trivial
  | scalar field t rest ih =>
      rintro m keyValues ⟨⟨any, found, _⟩, held⟩
      exact ⟨Option.isSome_iff_exists.mpr ⟨any, found⟩, ih held⟩
  | nested field info inner rest ihInner ih =>
      rintro m keyValues ⟨⟨any, nested, found, kind, heldInner⟩, held⟩
      obtain rfl : any = .object nested := by
        cases any with
        | object m => exact congrArg JSONValue.object (Option.some.inj kind)
        | bool | number | string => cases kind
      exact ⟨⟨nested, found, ihInner heldInner⟩, ih held⟩

theorem Fields.flat_jsonItems (fs : Fields) : ∀ m : fs.Values, Flat (fs.jsonItems m) := by
  induction fs with
  | nil => intro _ name any closes inside; cases inside
  | scalar field t rest ih =>
      intro m name any closes inside
      rcases List.mem_cons.mp inside with same | later
      · obtain ⟨_, rfl, _⟩ := JSONItem.value.inj same
        exact JSONValue.weight_ofValue t m.1
      · exact ih m.2 name any closes later
  | nested field info inner rest ihInner ih =>
      intro m name any closes inside
      rcases List.mem_cons.mp inside with same | later
      · cases same
      · rcases List.mem_append.mp later with within | behind
        · exact ihInner m.1 name any closes within
        · exact ih m.2 name any closes behind

/-- The scalars that find their own values are readable. -/
theorem readable_of_entries {F : FloatFormat} (fs : Fields) :
    fs.DistinctNames → fs.AllTypes ScalarType.InJSON →
      ∀ {m : fs.Values} {keyValues : KeyValueMap Bytes JSONValue},
        (∀ e ∈ fs.jsonKeyValues m, keyValues.find e.1 = some e.2) →
        fs.Held (JSONValue.kind F) m keyValues →
        fs.AllValues (fun t v => t.JSONReadable v) m := by
  induction fs with
  | nil => intro _ _ _ _ _ _; trivial
  | scalar field t rest ih =>
      rintro distinct types m keyValues own ⟨⟨any, found, cast⟩, held⟩
      refine ⟨?_, ih distinct.2 types.2 (fun e he => own e (List.mem_cons_of_mem _ he)) held⟩
      have first := own (field.name, .ofValue t m.1) List.mem_cons_self
      obtain rfl := Option.some.inj (found.symm.trans first)
      exact (castTo_ofValue_iff F types.1 m.1).mp cast
  | nested field info inner rest ihInner ih =>
      rintro distinct types m keyValues own ⟨⟨any, nested, found, kind, heldInner⟩, held⟩
      refine ⟨?_, ih distinct.2.2 types.2 (fun e he => own e (List.mem_cons_of_mem _ he)) held⟩
      have first := own (field.name, .object (KeyValueMap.assignAll [] (inner.jsonKeyValues m.1)))
        List.mem_cons_self
      obtain rfl := Option.some.inj (found.symm.trans first)
      obtain rfl := Option.some.inj kind
      have names : ((inner.jsonKeyValues m.1).map Prod.fst).Nodup := by
        rw [Fields.jsonKeyValues, inner.keys_entries]
        exact inner.nodup_keys distinct.2.1
      refine ihInner distinct.2.1 types.1 (fun e he => ?_) heldInner
      exact KeyValueMap.find_assignAll _ names he []

/-! ## The round trip -/

namespace FromJSONVisitor

variable (F : FloatFormat)

/-- A message that every target gets is readable. -/
theorem readable_of_decode {T : MessageType} (inJSON : T.InJSON) (filled : T.fields.Filled)
    {m : T.Values} {rounds : Nat} (enough : (ToJSONVisitor.encoded F T m).length < rounds)
    {d : FromJSONVisitor} (running : d.terminated = false)
    (same : ∀ v, ∃ d', decode F T rounds d (ToJSONVisitor.encoded F T m) v = .ok (m, d')) :
    T.fields.JSONReadable False m := by
  obtain ⟨keyValues, left, collects⟩ := exists_collects _ (T.fields.jsonItems m) le_rfl []
  have accepted : ∀ v, ((T.fields.visitable (visitor F)).accept v ⟨keyValues, false⟩).1 = m := by
    intro v
    obtain ⟨d', decoded⟩ := same v
    rw [decode_of_collects F inJSON collects enough running] at decoded
    exact congrArg Prod.fst (Except.ok.inj decoded)
  have held := KeyValueVisitor.held_of_accept T.fields filled accepted
  have flat := T.fields.flat_jsonItems m
  have distinct := T.fields.distinct_itemTree inJSON.distinct m
  rw [← T.fields.items_itemTree] at collects flat
  have exact_ := ItemTree.exact_of_found distinct flat collects (found_of_held T.fields held)
  -- Every map has got its own entries, so each scalar was read from its own item.
  have nothing : (([] : List JSONItem) ≠ []) = False := by simp
  have own := (T.fields.itemTree m).collects_of_exact (nothing ▸ exact_) []
  rw [List.append_nil, T.fields.entries_itemTree] at own
  obtain ⟨rfl, _⟩ := collects.unique own
  have names : ((T.fields.jsonKeyValues m).map Prod.fst).Nodup := by
    rw [Fields.jsonKeyValues, T.fields.keys_entries]
    exact T.fields.nodup_keys inJSON.distinct
  have readable := readable_of_entries T.fields inJSON.distinct inJSON.types
    (fun e he => KeyValueMap.find_assignAll _ names he []) held
  exact ((T.fields.exact_itemTree_iff readable).mp exact_).1

/-- **JSON round trip.** Whatever a target held before, decoding the text of a readable message
makes it equal to the message. Conversely, only a readable message is given to every target,
unless a nested message is without fields. -/
theorem decode_json {T : MessageType} (inJSON : T.InJSON) (m : T.Values) {rounds : Nat}
    (enough : (ToJSONVisitor.encoded F T m).length < rounds) {d : FromJSONVisitor}
    (running : d.terminated = false) :
    (T.fields.JSONReadable False m → ∀ v, ∃ d',
      decode F T rounds d (ToJSONVisitor.encoded F T m) v = .ok (m, d') ∧
        d'.terminated = false) ∧
    (T.fields.Filled →
      (∀ v, ∃ d', decode F T rounds d (ToJSONVisitor.encoded F T m) v = .ok (m, d')) →
      T.fields.JSONReadable False m) := by
  constructor
  · intro readable v
    exact decode_readable F inJSON readable enough running v
  · intro filled same
    exact readable_of_decode F inJSON filled enough running same

/-- Floating-point numbers are not printed. -/
def noFloats : FloatFormat := ⟨fun _ => [], fun _ => [], fun _ => 0, fun _ => 0, fun _ _ => 0⟩

theorem decode_json_timeStamp :
    let m := TimeStamp.of 1234 (-5)
    (∀ v, ∃ d', decode noFloats TimeStamp 100 init (ToJSONVisitor.encoded noFloats TimeStamp m) v =
      .ok (m, d') ∧ d'.terminated = false) ∧ TimeStamp.fields.JSONReadable False m := by
  have inJSON : TimeStamp.InJSON := by
    constructor
    · simp [TimeStamp, Fields.All, FieldInfo.declared, asciiBytes, IsIdentifier, isLetter]
    · simp [TimeStamp, Fields.Distinct, Fields.keys, FieldInfo.declared, asciiBytes]
    · simp [TimeStamp, Fields.AllTypes, ScalarType.InJSON]
  have enough : (ToJSONVisitor.encoded noFloats TimeStamp (TimeStamp.of 1234 (-5))).length <
      100 := by decide
  have both := decode_json noFloats inJSON (TimeStamp.of 1234 (-5)) enough (d := init) rfl
  have readable : TimeStamp.fields.JSONReadable False (TimeStamp.of 1234 (-5)) := by
    simp [TimeStamp, Fields.JSONReadable, ScalarType.JSONReadable]
  have decoded := both.1 readable
  refine ⟨decoded, both.2 trivial fun v => ?_⟩
  obtain ⟨d', same, _⟩ := decoded v
  exact ⟨d', same⟩

/-- **The decoder loses strings whose base64 text has a slash or begins like a number or a
Boolean value, characters that the pattern does not know, and what follows a nested message
whose end it does not see**: a string gets a beginning of its bytes, a character stops the
program, and the other fields keep what they held. -/
theorem decode_json_ne :
    let decoded (fields : Fields) (m v : fields.Values) : Option (fields.Values × Bool) :=
      let T : MessageType := ⟨⟨1, asciiBytes "M", asciiBytes "M"⟩, fields⟩
      ((decode noFloats T 100 init (ToJSONVisitor.encoded noFloats T m) v).map
        fun r => (r.1, r.2.terminated)).toOption
    let text : Fields := .scalar (.declared "std::string" "text" 1) .string .nil
    let char (name : String) (rest : Fields) : Fields :=
      .scalar (.declared "char" name 1) .char rest
    let nested (inner rest : Fields) : Fields :=
      .nested (.declared "N" "n" 2) ⟨2, asciiBytes "N", asciiBytes "N"⟩ inner rest
    decoded text (asciiBytes "???", ()) (asciiBytes "x", ()) = some (([], ()), false) ∧
    decoded (char "c" .nil) (0x00, ()) (0x61, ()) = some ((0x61, ()), true) ∧
    decoded (nested (char "c" .nil) (char "d" .nil)) ((0x22, ()), 0x62, ()) ((0x61, ()), 0x61, ()) =
      some (((0x22, ()), 0x61, ()), false) ∧
    decoded (nested (nested (char "c" .nil) .nil) (char "d" .nil)) (((0x62, ()), ()), 0x62, ())
      (((0x61, ()), ()), 0x61, ()) = some ((((0x62, ()), ()), 0x61, ()), false) :=
  ⟨by decide, by decide, by decide, by decide⟩

end FromJSONVisitor

end Cluon
