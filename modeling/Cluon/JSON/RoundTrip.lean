import Cluon.JSON.Trees
import Cluon.JSON.Values
import Cluon.Message.DataStructures

/-!
# The JSON round trip

The text of a message spells one item for each of its fields (`spells_jsonBody`). The decoder
leaves a nested object only at a closing brace directly behind a value, so a nested message with
anything behind it must end with a scalar whose text is taken as a whole; then every value is
collected into the map of its own message (`collects_closed`, `collects_open`). If the scalars
are readable as well, the message is given back to every target (`decode_readable`).
-/

set_option autoImplicit false

namespace Cluon

open Library JSON stringtoolbox

/-! ## Items of a message -/

namespace Fields

/-- Whether a closing brace is found directly behind the value of a field. -/
def closes (t : ScalarType) (v : t.Value) (rest : Fields) : Bool :=
  decide ((t.leftover v ++ rest.before [comma] [closeBrace]).head? = some closeBrace)

/-- The items that the text of a message spells. -/
def jsonItems : (fs : Fields) → fs.Values → List JSONItem
  | .nil, _ => []
  | .scalar field t rest, m =>
      .value field.name (.ofValue t m.1) (closes t m.1 rest) :: rest.jsonItems m.2
  | .nested field _ inner rest, m =>
      .object field.name :: (inner.jsonItems m.1 ++ rest.jsonItems m.2)

/-- What the decoder stores for the fields of a message. -/
def jsonKeyValues (fs : Fields) (m : fs.Values) : List (Bytes × JSONValue) :=
  fs.entries JSONValue.ofValue .object m

end Fields

namespace JSON

theorem Remainder.append {junk p : Bytes} (remainder : Remainder junk) (plain : NoQuotes p) :
    Remainder (junk ++ p) := by
  cases remainder with
  | plain h =>
      refine .plain fun c hc => ?_
      rcases List.mem_append.mp hc with hc | hc
      · exact h c hc
      · exact plain c hc
  | stray ha hp =>
      rw [List.append_assoc, List.cons_append]
      refine .stray ha fun c hc => ?_
      rcases List.mem_append.mp hc with hc | hc
      · exact hp c hc
      · exact plain c hc

theorem noQuotes_brace {c : Byte} (h : c = openBrace ∨ c = closeBrace ∨ c = comma) :
    NoQuotes [c] := by
  intro d hd
  rw [List.mem_singleton.mp hd]
  rcases h with rfl | rfl | rfl
  · decide
  · decide
  · decide

theorem atKey_keyText {name : Bytes} (identifier : IsIdentifier name) (s : Bytes) :
    AtKey (ToJSONVisitor.keyText name ++ s) := by
  cases name with
  | nil => exact absurd identifier not_false
  | cons c name =>
      refine .inr ⟨c, _, rfl, ?_⟩
      exact ne_colon_of_isOrdinary (identifier.ordinary c List.mem_cons_self)

/-- The comma in front of the other members is skipped. -/
theorem before_comma (fs : Fields) (s : Bytes) :
    ∃ p, NoQuotes p ∧ fs.before [comma] s = p ++ s := by
  cases fs with
  | nil => exact ⟨[], fun _ h => absurd h List.not_mem_nil, rfl⟩
  | scalar field t rest => exact ⟨[comma], noQuotes_brace (.inr (.inr rfl)), rfl⟩
  | nested field info inner rest => exact ⟨[comma], noQuotes_brace (.inr (.inr rfl)), rfl⟩

/-- A brace is no value. -/
theorem first_valuePattern_object (s : Bytes) :
    valuePattern.first (openBrace :: s) = some (openBrace :: s) := by
  have number : numberRest (openBrace :: s) = none := rfl
  rw [first_valuePattern_unquoted (by decide)]
  · rfl
  · intro t h
    rw [number] at h
    cases h

/-- The key of an object is found alone. -/
theorem search_object {name s junk : Bytes} (ordinary : ∀ c ∈ name, isOrdinary c)
    (atKey : AtKey (ToJSONVisitor.keyText name ++ openBrace :: s)) (remainder : Remainder junk) :
    MATCH_JSON.search (junk ++ (ToJSONVisitor.keyText name ++ openBrace :: s)) =
      some (ToJSONVisitor.keyText name, openBrace :: s) := by
  have noSpace : ∀ c ∈ (openBrace :: s).head?, isSpace c = false := by
    intro c hc
    obtain rfl := Option.some.inj hc
    decide
  have found := search_keyText ordinary noSpace (first_valuePattern_object s)
    (List.nil_append _).symm
  rw [List.append_nil] at found
  rw [search_skip remainder atKey]
  exact found

end JSON

/-- **The text of a message spells its items**, whatever of a value is left in front of it. -/
theorem spells_jsonBody (F : FloatFormat) (fs : Fields) :
    fs.All (fun field => IsIdentifier field.name) → fs.AllTypes ScalarType.InJSON →
      ∀ (m : fs.Values) {more : List JSONItem} {after : Bytes}, after.head? = some closeBrace →
        (∀ {junk : Bytes}, Remainder junk → Spells more (junk ++ after)) →
        ∀ {junk : Bytes}, Remainder junk → Spells (fs.jsonItems m ++ more)
          (junk ++ fs.jsonBody [comma] (ToJSONVisitor.compactText F) m after) := by
  induction fs with
  | nil => intro _ _ _ _ _ _ spells _ remainder; exact spells remainder
  | scalar field t rest ih =>
      intro names types m more after close spells junk remainder
      set others := rest.jsonBody [comma] (ToJSONVisitor.compactText F) m.2 after with body
      have next : ∀ c ∈ (rest.before [comma] others).head?, c = comma ∨ c = closeBrace := by
        intro c hc
        cases rest with
        | nil =>
            rw [Fields.before, body, Fields.jsonBody, close] at hc
            exact .inr (Option.some.inj hc).symm
        | scalar | nested => exact .inl (Option.some.inj hc).symm
      have head : (t.leftover m.1 ++ rest.before [comma] others).head? =
          (t.leftover m.1 ++ rest.before [comma] [closeBrace]).head? := by
        cases t.leftover m.1 with
        | cons c s => rfl
        | nil =>
            cases rest with
            | nil => exact close
            | scalar | nested => rfl
      obtain ⟨second, whole, first, some, any, noSpace⟩ :=
        ScalarType.match_compactText F types.1 m.1 next
      have ordinary := names.1.ordinary
      refine ⟨ordinary, second, t.leftover m.1 ++ rest.before [comma] others, ?_, some, any, ?_,
        ?_⟩
      · rw [Fields.jsonBody, search_skip remainder (atKey_keyText names.1 _)]
        exact search_keyText ordinary noSpace first whole
      · rw [Fields.closes, decide_eq_true_iff, head]
      · obtain ⟨p, plain, split⟩ := before_comma rest others
        rw [split, ← List.append_assoc]
        exact ih names.2 types.2 m.2 close spells ((t.remainder_leftover m.1).append plain)
  | nested field info inner rest ihInner ih =>
      intro names types m more after close spells junk remainder
      set others := rest.jsonBody [comma] (ToJSONVisitor.compactText F) m.2 after with body
      have ordinary := names.1.ordinary
      refine ⟨ordinary, openBrace :: inner.jsonBody [comma] (ToJSONVisitor.compactText F) m.1
        (closeBrace :: rest.before [comma] others), ?_, ?_⟩
      · rw [Fields.jsonBody]
        exact search_object ordinary (atKey_keyText names.1 _) remainder
      · have assoc : (inner.jsonItems m.1 ++ rest.jsonItems m.2) ++ more =
            inner.jsonItems m.1 ++ (rest.jsonItems m.2 ++ more) := List.append_assoc _ _ _
        change Spells ((inner.jsonItems m.1 ++ rest.jsonItems m.2) ++ more) _
        rw [assoc]
        refine ihInner names.2.1 types.1 m.1 rfl (fun {junk} remainder => ?_)
          (.plain (noQuotes_brace (.inl rfl)))
        obtain ⟨p, plain, split⟩ := before_comma rest others
        rw [split, ← List.singleton_append, ← List.append_assoc, ← List.append_assoc]
        exact ih names.2.2 types.2 m.2 close spells
          ((remainder.append (noQuotes_brace (.inr (.inl rfl)))).append plain)

/-! ## Readable messages -/

/-- A value whose closing quote is taken with it: not a quote itself. -/
def ScalarType.NotAQuote : (t : ScalarType) → t.Value → Prop
  | .char, c => c ≠ quote ∧ c ≠ apostrophe
  | _, _ => True

namespace Fields

/-- The end of a message is seen: its last field is a scalar whose text is taken as a whole. -/
def Closes : (fs : Fields) → fs.Values → Prop
  | .nil, _ => False
  | .scalar _ t rest, m => (rest = .nil ∧ t.NotAQuote m.1) ∨ rest.Closes m.2
  | .nested _ _ _ rest, m => rest.Closes m.2

/-- The values of a message that are read back from JSON: the scalars are readable, and where
something follows a nested message, its end is seen. -/
def JSONReadable : (followed : Prop) → (fs : Fields) → fs.Values → Prop
  | _, .nil, _ => True
  | followed, .scalar _ t rest, m => t.JSONReadable m.1 ∧ rest.JSONReadable followed m.2
  | followed, .nested _ _ inner rest, m =>
      ((rest ≠ .nil ∨ followed → inner.Closes m.1) ∧
        inner.JSONReadable (rest ≠ .nil ∨ followed) m.1) ∧
        rest.JSONReadable followed m.2

end Fields

/-- Of a readable character that is a quote, the closing quote is left. -/
theorem quotedLeftover_charContent {c : Byte}
    (readable : isPlain c ∧ c ≠ (0x20 : Byte) ∨ c = quote ∨ c = apostrophe) :
    quotedLeftover (charContent c) = if c = quote ∨ c = apostrophe then [quote] else [] := by
  revert c
  decide +kernel

theorem ScalarType.leftover_of_readable {t : ScalarType} {v : t.Value}
    (readable : t.JSONReadable v) :
    t.NotAQuote v ∧ t.leftover v = [] ∨ ¬ t.NotAQuote v ∧ t.leftover v = [quote] := by
  cases t with
  | char =>
      have left : ScalarType.char.leftover v = _ := quotedLeftover_charContent readable
      rw [left]
      split
      · rename_i either
        exact .inr ⟨fun neither => (not_or.mpr neither) either, rfl⟩
      · rename_i neither
        exact .inl ⟨not_or.mp neither, rfl⟩
  | bytes | string =>
      refine .inl ⟨trivial, ?_⟩
      have none := (contentRest_eq_nil_iff (all_isBase64 v) ⟨_, length_encodeBase64 v⟩).mpr
        readable.2
      change quotedLeftover (encodeBase64 v) = []
      rw [quotedLeftover, none]
      rfl
  | bool | int8 | uint8 | int16 | uint16 | int32 | uint32 | int64 | uint64 | float | double =>
      exact .inl ⟨trivial, rfl⟩

/-- Where the end of a message is seen. -/
theorem Fields.closes_iff {t : ScalarType} {v : t.Value} (readable : t.JSONReadable v)
    (rest : Fields) : closes t v rest = true ↔ rest = .nil ∧ t.NotAQuote v := by
  rw [closes, decide_eq_true_iff]
  rcases ScalarType.leftover_of_readable readable with ⟨plain, left⟩ | ⟨aQuote, left⟩
  · rw [left, List.nil_append]
    cases rest with
    | nil => exact iff_of_true rfl ⟨rfl, plain⟩
    | scalar | nested =>
        refine iff_of_false (fun h => ?_) fun h => ?_
        · exact absurd (Option.some.inj h) (by decide)
        · cases h.1
  · rw [left]
    refine iff_of_false (fun h => ?_) fun h => aQuote h.2
    exact absurd (Option.some.inj h) (by decide)

/-! ## The tree of a message -/

namespace Fields

/-- The items of a message, as a tree. -/
def itemTree : (fs : Fields) → fs.Values → ItemTree
  | .nil, _ => .nil
  | .scalar field t rest, m =>
      .value field.name (.ofValue t m.1) (closes t m.1 rest) (rest.itemTree m.2)
  | .nested field _ inner rest, m =>
      .object field.name (inner.itemTree m.1) (rest.itemTree m.2)

theorem items_itemTree (fs : Fields) :
    ∀ m : fs.Values, (fs.itemTree m).items = fs.jsonItems m := by
  induction fs with
  | nil => intro _; rfl
  | scalar field t rest ih => intro m; rw [itemTree, ItemTree.items, ih, jsonItems]
  | nested field info inner rest ihInner ih =>
      intro m
      rw [itemTree, ItemTree.items, ihInner, ih, jsonItems]

theorem entries_itemTree (fs : Fields) :
    ∀ m : fs.Values, (fs.itemTree m).entries = fs.jsonKeyValues m := by
  induction fs with
  | nil => intro _; rfl
  | scalar field t rest ih => intro m; exact congrArg ((field.name, _) :: ·) (ih m.2)
  | nested field info inner rest ihInner ih =>
      intro m
      rw [itemTree, ItemTree.entries, ihInner, ih, jsonKeyValues, jsonKeyValues, jsonKeyValues,
        entries]

theorem names_itemTree (fs : Fields) :
    ∀ m : fs.Values, (fs.itemTree m).names = fs.keys FieldInfo.name := by
  induction fs with
  | nil => intro _; rfl
  | scalar field t rest ih => intro m; exact congrArg (field.name :: ·) (ih m.2)
  | nested field info inner rest _ ih => intro m; exact congrArg (field.name :: ·) (ih m.2)

theorem distinct_itemTree (fs : Fields) :
    fs.DistinctNames → ∀ m : fs.Values, (fs.itemTree m).Distinct := by
  induction fs with
  | nil => intro _ _; trivial
  | scalar field t rest ih =>
      intro distinct m
      refine ⟨?_, ih distinct.2 m.2⟩
      rw [names_itemTree]
      exact distinct.1
  | nested field info inner rest ihInner ih =>
      intro distinct m
      refine ⟨?_, ihInner distinct.2.1 m.1, ih distinct.2.2 m.2⟩
      rw [names_itemTree]
      exact distinct.1

theorem itemTree_ne_nil_iff (fs : Fields) (m : fs.Values) :
    fs.itemTree m ≠ .nil ↔ fs ≠ .nil := by
  cases fs with
  | nil => simp [itemTree]
  | scalar | nested => simp [itemTree]

/-- **The messages whose ends are seen where something follows them.** -/
theorem exact_itemTree_iff (fs : Fields) :
    ∀ {followed : Prop} {m : fs.Values}, fs.AllValues (fun t v => t.JSONReadable v) m →
      ((fs.itemTree m).Exact followed ↔
        fs.JSONReadable followed m ∧ (followed → fs.Closes m)) := by
  induction fs with
  | nil => intro followed m _; exact (and_iff_right trivial).symm
  | scalar field t rest ih =>
      intro followed m readable
      have others := @ih followed m.2 readable.2
      have ends := closes_iff readable.1 rest
      rw [itemTree, ItemTree.Exact]
      cases closed : closes t m.1 rest with
      | true =>
          obtain ⟨rfl, plain⟩ := ends.mp closed
          exact iff_of_true rfl ⟨⟨readable.1, trivial⟩, fun _ => .inl ⟨rfl, plain⟩⟩
      | false =>
          rw [closed] at ends
          have notHere : ¬ (rest = .nil ∧ t.NotAQuote m.1) := fun h => nomatch ends.mpr h
          rw [if_neg Bool.false_ne_true, others, JSONReadable, and_iff_right readable.1, Closes,
            or_iff_right notHere]
  | nested field info inner rest ihInner ih =>
      intro followed m readable
      have others := @ih followed m.2 readable.2
      have within := @ihInner (rest ≠ .nil ∨ followed) m.1 readable.1
      rw [itemTree, ItemTree.Exact, itemTree_ne_nil_iff, within, others, JSONReadable, Closes]
      constructor
      · rintro ⟨⟨readableInner, closed⟩, readableRest, seen⟩
        exact ⟨⟨⟨closed, readableInner⟩, readableRest⟩, seen⟩
      · rintro ⟨⟨⟨closed, readableInner⟩, readableRest⟩, seen⟩
        exact ⟨⟨readableInner, closed⟩, readableRest, seen⟩

/-- The scalars of a readable message are readable. -/
theorem JSONReadable.values (fs : Fields) :
    ∀ {followed : Prop} {m : fs.Values}, fs.JSONReadable followed m →
      fs.AllValues (fun t v => t.JSONReadable v) m := by
  induction fs with
  | nil => intro _ _ _; trivial
  | scalar field t rest ih => intro followed m readable; exact ⟨readable.1, ih readable.2⟩
  | nested field info inner rest ihInner ih =>
      intro followed m readable
      exact ⟨ihInner readable.1.2, ih readable.2⟩

end Fields

/-- **The values of a readable message are collected into its own map.** -/
theorem collects_jsonItems {fs : Fields} {m : fs.Values} {more : List JSONItem}
    (readable : fs.JSONReadable (more ≠ []) m) (seen : more ≠ [] → fs.Closes m)
    (keyValues : KeyValueMap Bytes JSONValue) :
    Collects (fs.jsonItems m ++ more) keyValues (keyValues.assignAll (fs.jsonKeyValues m)) more := by
  have exact_ := (fs.exact_itemTree_iff (readable.values fs)).mpr ⟨readable, seen⟩
  rw [← fs.items_itemTree, ← fs.entries_itemTree]
  exact (fs.itemTree m).collects_of_exact exact_ keyValues

/-- Readable scalars get their values from the entries. -/
theorem Fields.casts_of_readable (F : FloatFormat) (fs : Fields) :
    fs.AllTypes ScalarType.InJSON → ∀ {m : fs.Values},
      fs.AllValues (fun t v => t.JSONReadable v) m →
      fs.AllValues (fun t v => (JSONValue.kind F).castTo t (.ofValue t v) = .ok v) m := by
  induction fs with
  | nil => intro _ _ _; trivial
  | scalar field t rest ih =>
      intro types m readable
      exact ⟨(castTo_ofValue_iff F types.1 m.1).mpr readable.1, ih types.2 readable.2⟩
  | nested field info inner rest ihInner ih =>
      intro types m readable
      exact ⟨ihInner types.1 readable.1, ih types.2 readable.2⟩

/-! ## Accepting the decoder -/

/-- A message type whose messages the decoder can find: its names are identifiers, and its
scalars have types that are read back. -/
structure MessageType.InJSON (T : MessageType) : Prop where
  identifiers : T.fields.All fun field => IsIdentifier field.name
  distinct : T.fields.DistinctNames
  types : T.fields.AllTypes ScalarType.InJSON

namespace FromJSONVisitor

variable (F : FloatFormat)

/-- What a decoder of a message does once the key/values have been collected. -/
theorem decode_of_collects {T : MessageType} (inJSON : T.InJSON) {m : T.Values}
    {keyValues : KeyValueMap Bytes JSONValue} {left : List JSONItem}
    (collects : Collects (T.fields.jsonItems m) [] keyValues left) {rounds : Nat}
    (enough : (ToJSONVisitor.encoded F T m).length < rounds) {d : FromJSONVisitor}
    (running : d.terminated = false) (v : T.Values) :
    decode F T rounds d (ToJSONVisitor.encoded F T m) v =
      .ok ((T.fields.visitable (visitor F)).accept v ⟨keyValues, false⟩) := by
  set text := ToJSONVisitor.encoded F T m with written
  rw [ToJSONVisitor.encoded_eq] at written
  set body := T.fields.jsonBody [comma] (ToJSONVisitor.compactText F) m [closeBrace]
  have filtered : text.filter (fun c => !isSpace c) = openBrace :: body := by
    have members := ToJSONVisitor.filter_jsonBody F T.fields inJSON.identifiers m [closeBrace]
    rw [written, List.filter_cons_of_pos rfl, members]
    rfl
  have spells : Spells (T.fields.jsonItems m) (openBrace :: body) := by
    have behind : ∀ {junk : Bytes}, Remainder junk → Spells [] (junk ++ [closeBrace]) := by
      intro junk remainder
      have skipped := search_skip
        (remainder.append (noQuotes_brace (.inr (.inl rfl)))) (.inl rfl : AtKey [])
      rw [List.append_nil] at skipped
      exact skipped.trans search_nil
    have whole := spells_jsonBody F T.fields inJSON.identifiers inJSON.types m rfl behind
      (.plain (noQuotes_brace (.inl rfl)))
    rwa [List.append_nil] at whole
  have compact : Compact (openBrace :: body) := by
    intro c hc
    rw [← filtered, List.mem_filter, Bool.not_eq_true'] at hc
    exact hc.2
  have shorter : (openBrace :: body).length < rounds := by
    rw [← filtered]
    exact (List.length_filter_le _ _).trans_lt enough
  obtain ⟨text', _, _, _, read⟩ :=
    @readKeyValues_of_collects _ _ _ _ collects rounds [] _ spells compact shorter
  obtain ⟨before, terminated⟩ := d
  obtain rfl : terminated = false := running
  rw [decode, decodeFrom, filtered, read]
  rfl

/-- Decoding the text of a readable message gives it to every target. -/
theorem decode_readable {T : MessageType} (inJSON : T.InJSON) {m : T.Values}
    (readable : T.fields.JSONReadable False m) {rounds : Nat}
    (enough : (ToJSONVisitor.encoded F T m).length < rounds) {d : FromJSONVisitor}
    (running : d.terminated = false) (v : T.Values) :
    ∃ d', decode F T rounds d (ToJSONVisitor.encoded F T m) v = .ok (m, d') ∧
      d'.terminated = false := by
  have nothing : (([] : List JSONItem) ≠ []) = False := by simp
  have collects : Collects (T.fields.jsonItems m ++ []) []
      (KeyValueMap.assignAll [] (T.fields.jsonKeyValues m)) [] :=
    collects_jsonItems (by rwa [nothing]) (fun some => absurd rfl some) []
  rw [List.append_nil] at collects
  have held : T.fields.Held (JSONValue.kind F) m
      (KeyValueMap.assignAll [] (T.fields.jsonKeyValues m)) :=
    Fields.held_assignAll (fun _ => rfl) inJSON.distinct
      (T.fields.casts_of_readable F inJSON.types (readable.values T.fields))
  rw [decode_of_collects F inJSON collects enough running, visitor,
    KeyValueVisitor.accept_of_held T.fields held]
  exact ⟨_, rfl, rfl⟩

end FromJSONVisitor

end Cluon
