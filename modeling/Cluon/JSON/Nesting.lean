import Cluon.JSON.RoundTrip

/-!
# Nested objects

A JSON object whose values are integers and objects should be decoded into one map for each
object, with exactly the keys of its own members (`Members.Respects`). The decoder leaves the map of
a nested object only at a closing brace directly behind an integer. So the nesting is respected
exactly if every object behind which another member follows ends with an integer
(`Members.respects_iff`): the members behind an empty object, and those behind two closing braces,
are stored in the map of an object that has already ended (`Members.not_respects`).
-/

set_option autoImplicit false

namespace Cluon

open Library JSON stringtoolbox

/-- The members of a JSON object. -/
inductive Members where
  | nil
  | integer (key : Bytes) (n : ℤ) (rest : Members)
  | object (key : Bytes) (members rest : Members)
  deriving DecidableEq

namespace Members

/-! ## Texts -/

/-- The keys of the members, without those of nested objects. -/
def keys : Members → List Bytes
  | .nil => []
  | .integer key _ rest => key :: rest.keys
  | .object key _ rest => key :: rest.keys

/-- No two members of an object have the same key. -/
def Distinct : Members → Prop
  | .nil => True
  | .integer key _ rest => key ∉ rest.keys ∧ rest.Distinct
  | .object key members rest => key ∉ rest.keys ∧ members.Distinct ∧ rest.Distinct

/-- The keys are identifiers: letters, digits, and underscores. -/
def Identifiers : Members → Prop
  | .nil => True
  | .integer key _ rest => IsWord key ∧ rest.Identifiers
  | .object key members rest => IsWord key ∧ members.Identifiers ∧ rest.Identifiers
where
  /-- A text of letters, digits, and underscores that is not empty. -/
  IsWord (key : Bytes) : Prop := key ≠ [] ∧ ∀ c ∈ key, isLetter c ∨ isDigit c ∨ c = 0x5F

/-- The comma in front of the following members, if there are any. -/
def before : Members → Bytes → Bytes
  | .nil, text => text
  | _, text => comma :: text

/-- The text of the members, and what follows them. -/
def body : Members → Bytes → Bytes
  | .nil, after => after
  | .integer key n rest, after =>
      ToJSONVisitor.keyText key ++ (decimalInt n ++ rest.before (rest.body after))
  | .object key members rest, after =>
      ToJSONVisitor.keyText key ++
        (openBrace :: members.body (closeBrace :: rest.before (rest.body after)))

/-- The compact text of an object. -/
def text (members : Members) : Bytes := openBrace :: members.body [closeBrace]

/-! ## The maps of the objects -/

/-- Every member has its entry in the map; the map of a nested object has entries for the members
of this object and no others. -/
def StoredIn : Members → KeyValueMap Bytes JSONValue → Prop
  | .nil, _ => True
  | .integer key n rest, keyValues =>
      keyValues.find key = some (.number (readDouble (decimalInt n))) ∧ rest.StoredIn keyValues
  | .object key members rest, keyValues =>
      (∃ nested, keyValues.find key = some (.object nested) ∧ members.StoredIn nested ∧
        ∀ k, (KeyValueMap.find nested k).isSome → k ∈ members.keys) ∧ rest.StoredIn keyValues

/-- A map respects the nesting of an object: each key is in the map of its own object and in no
other. -/
def Respects (members : Members) (keyValues : KeyValueMap Bytes JSONValue) : Prop :=
  members.StoredIn keyValues ∧ ∀ k, (keyValues.find k).isSome → k ∈ members.keys

/-- The last member is an integer. -/
def EndsWithInteger : Members → Prop
  | .nil => False
  | .integer _ _ rest => rest = .nil ∨ rest.EndsWithInteger
  | .object _ _ rest => rest.EndsWithInteger

/-- Every nested object behind which another member follows in the text ends with an integer. -/
def Nests : (followed : Prop) → Members → Prop
  | _, .nil => True
  | followed, .integer _ _ rest => rest.Nests followed
  | followed, .object _ members rest =>
      (rest ≠ nil ∨ followed → members.EndsWithInteger) ∧
        members.Nests (rest ≠ nil ∨ followed) ∧ rest.Nests followed

/-! ## The items of an object -/

/-- The items of an object, as a tree: a closing brace is seen behind an integer. -/
def itemTree : Members → ItemTree
  | .nil => .nil
  | .integer key n rest =>
      .value key (.number (readDouble (decimalInt n))) (decide (rest = .nil)) rest.itemTree
  | .object key members rest => .object key members.itemTree rest.itemTree

theorem names_itemTree (members : Members) : members.itemTree.names = members.keys := by
  induction members with
  | nil => rfl
  | integer key n rest ih => exact congrArg (key :: ·) ih
  | object key members rest _ ih => exact congrArg (key :: ·) ih

theorem distinct_itemTree (members : Members) :
    members.Distinct → members.itemTree.Distinct := by
  induction members with
  | nil => exact id
  | integer key n rest ih =>
      rintro ⟨other, distinct⟩
      rw [← names_itemTree] at other
      exact ⟨other, ih distinct⟩
  | object key members rest ihMembers ih =>
      rintro ⟨other, distinctMembers, distinct⟩
      rw [← names_itemTree] at other
      exact ⟨other, ihMembers distinctMembers, ih distinct⟩

theorem itemTree_ne_nil_iff (members : Members) : members.itemTree ≠ .nil ↔ members ≠ nil := by
  cases members with
  | nil => simp [itemTree]
  | integer | object => simp [itemTree]

theorem flat_itemTree (members : Members) : Flat members.itemTree.items := by
  induction members with
  | nil => intro name any closes inside; cases inside
  | integer key n rest ih =>
      intro name any closes inside
      rcases List.mem_cons.mp inside with same | later
      · obtain ⟨_, rfl, _⟩ := JSONItem.value.inj same
        rw [JSONValue.weight]
      · exact ih name any closes later
  | object key members rest ihMembers ih =>
      intro name any closes inside
      rcases List.mem_cons.mp inside with same | later
      · cases same
      · rcases List.mem_append.mp later with within | behind
        · exact ihMembers name any closes within
        · exact ih name any closes behind

/-- **The trees whose objects are followed by members only where their end is seen.** -/
theorem exact_itemTree_iff (members : Members) :
    ∀ {followed : Prop}, members.itemTree.Exact followed ↔
      members.Nests followed ∧ (followed → members.EndsWithInteger) := by
  induction members with
  | nil => intro followed; exact (and_iff_right trivial).symm
  | integer key n rest ih =>
      intro followed
      rw [itemTree, ItemTree.Exact, Nests, EndsWithInteger]
      by_cases last : rest = .nil
      · subst last
        exact iff_of_true rfl ⟨trivial, fun _ => .inl rfl⟩
      · rw [if_neg (by simpa using last), ih, or_iff_right last]
  | object key members rest ihMembers ih =>
      intro followed
      rw [itemTree, ItemTree.Exact, itemTree_ne_nil_iff, ihMembers, ih, Nests, EndsWithInteger]
      constructor
      · rintro ⟨⟨nests, ends⟩, nestsRest, endsRest⟩
        exact ⟨⟨ends, nests, nestsRest⟩, endsRest⟩
      · rintro ⟨⟨ends, nests, nestsRest⟩, endsRest⟩
        exact ⟨⟨nests, ends⟩, nestsRest, endsRest⟩

/-- Members that are stored are found. -/
theorem found_of_storedIn (members : Members) :
    ∀ {keyValues : KeyValueMap Bytes JSONValue}, members.StoredIn keyValues →
      members.itemTree.Found keyValues := by
  induction members with
  | nil => intro _ _; trivial
  | integer key n rest ih =>
      rintro keyValues ⟨found, stored⟩
      exact ⟨Option.isSome_iff_exists.mpr ⟨_, found⟩, ih stored⟩
  | object key members rest ihMembers ih =>
      rintro keyValues ⟨⟨nested, found, storedMembers, _⟩, stored⟩
      exact ⟨⟨nested, found, ihMembers storedMembers⟩, ih stored⟩

/-- A map of entries has no others. -/
theorem mem_keys_of_find (members : Members) {k : Bytes}
    (found : ((KeyValueMap.assignAll [] members.itemTree.entries).find k).isSome) :
    k ∈ members.keys := by
  by_contra other
  rw [← names_itemTree, ← ItemTree.map_fst_entries] at other
  rw [KeyValueMap.find_assignAll_of_notMem _ other] at found
  cases found

theorem storedIn_of_entries (members : Members) :
    members.Distinct → ∀ {keyValues : KeyValueMap Bytes JSONValue},
      (∀ e ∈ members.itemTree.entries, keyValues.find e.1 = some e.2) →
      members.StoredIn keyValues := by
  induction members with
  | nil => intro _ _ _; trivial
  | integer key n rest ih =>
      intro distinct keyValues own
      exact ⟨own _ List.mem_cons_self, ih distinct.2 fun e he => own e (List.mem_cons_of_mem _ he)⟩
  | object key members rest ihMembers ih =>
      intro distinct keyValues own
      refine ⟨⟨_, own _ List.mem_cons_self, ?_, fun k => members.mem_keys_of_find⟩,
        ih distinct.2.2 fun e he => own e (List.mem_cons_of_mem _ he)⟩
      have names := members.itemTree.nodup_names (members.distinct_itemTree distinct.2.1)
      rw [← ItemTree.map_fst_entries] at names
      exact ihMembers distinct.2.1 fun e he => KeyValueMap.find_assignAll _ names he []

/-! ## What the decoder sees -/

theorem Identifiers.IsWord.ordinary {key : Bytes} (word : Identifiers.IsWord key) :
    ∀ c ∈ key, isOrdinary c := by
  intro c hc
  rcases word.2 c hc with letter | digit | rfl
  · exact isOrdinary_of_letter letter
  · exact isOrdinary_of_digit digit
  · decide

theorem Identifiers.IsWord.atKey {key : Bytes} (word : Identifiers.IsWord key) (s : Bytes) :
    AtKey (ToJSONVisitor.keyText key ++ s) := by
  cases key with
  | nil => exact absurd rfl word.1
  | cons c key =>
      exact .inr ⟨c, _, rfl, ne_colon_of_isOrdinary (word.ordinary c List.mem_cons_self)⟩

theorem before_eq (rest : Members) (s : Bytes) : ∃ p, NoQuotes p ∧ rest.before s = p ++ s := by
  cases rest with
  | nil => exact ⟨[], fun _ h => absurd h List.not_mem_nil, rfl⟩
  | integer | object => exact ⟨[comma], noQuotes_brace (.inr (.inr rfl)), rfl⟩

/-- What stands behind the value of a member. -/
theorem head_before (rest : Members) {after : Bytes} (close : after.head? = some closeBrace) :
    (rest.before (rest.body after)).head? = some (if rest = .nil then closeBrace else comma) := by
  cases rest with
  | nil => exact close
  | integer | object => rfl

/-- **The text of the members spells their items.** -/
theorem spells_body (members : Members) :
    members.Identifiers → ∀ {more : List JSONItem} {after : Bytes},
      after.head? = some closeBrace →
      (∀ {junk : Bytes}, NoQuotes junk → Spells more (junk ++ after)) →
      ∀ {junk : Bytes}, NoQuotes junk →
        Spells (members.itemTree.items ++ more) (junk ++ members.body after) := by
  induction members with
  | nil => intro _ _ _ _ spells _ plain; exact spells plain
  | integer key n rest ih =>
      intro words more after close spells junk plain
      have head := head_before rest close
      have next : ∀ c ∈ (rest.before (rest.body after)).head?, c = comma ∨ c = closeBrace := by
        intro c hc
        rw [head] at hc
        obtain rfl := Option.some.inj hc
        split
        · exact .inr rfl
        · exact .inl rfl
      obtain ⟨first, some, any, noSpace⟩ := match_decimalInt n next
      refine ⟨words.1.ordinary, decimalInt n, rest.before (rest.body after), ?_, some, any, ?_, ?_⟩
      · rw [body, search_skip (.plain plain) (words.1.atKey _)]
        exact search_keyText words.1.ordinary noSpace first rfl
      · rw [head, decide_eq_true_iff]
        by_cases last : rest = .nil
        · rw [if_pos last]
          exact iff_of_true last rfl
        · rw [if_neg last]
          exact iff_of_false last fun h => absurd (Option.some.inj h) (by decide)
      · obtain ⟨p, between, split⟩ := rest.before_eq (rest.body after)
        rw [split]
        exact ih words.2 close spells between
  | object key members rest ihMembers ih =>
      intro words more after close spells junk plain
      refine ⟨words.1.ordinary, openBrace :: members.body
        (closeBrace :: rest.before (rest.body after)), ?_, ?_⟩
      · rw [body]
        exact search_object words.1.ordinary (words.1.atKey _) (.plain plain)
      · change Spells ((members.itemTree.items ++ rest.itemTree.items) ++ more) _
        rw [List.append_assoc]
        refine ihMembers words.2.1 rfl (fun {junk} plain => ?_) (noQuotes_brace (.inl rfl))
        obtain ⟨p, between, split⟩ := rest.before_eq (rest.body after)
        have brace : NoQuotes (junk ++ closeBrace :: p) := by
          intro c hc
          rcases List.mem_append.mp hc with hc | hc
          · exact plain c hc
          · rcases List.mem_cons.mp hc with rfl | hc
            · decide
            · exact between c hc
        have whole : junk ++ closeBrace :: rest.before (rest.body after) =
            (junk ++ closeBrace :: p) ++ rest.body after := by
          rw [split, List.append_assoc, List.cons_append]
        rw [whole]
        exact ih words.2.2 close spells brace

theorem Identifiers.IsWord.compact {key : Bytes} (word : Identifiers.IsWord key) :
    Compact (ToJSONVisitor.keyText key) := by
  have brackets : Compact [quote] ∧ Compact [quote, colon] := by decide
  exact Compact.append (brackets.1.append (compact_of_ordinary word.ordinary)) brackets.2

/-- The text of an object has no white space. -/
theorem compact_body (members : Members) :
    members.Identifiers → ∀ {after : Bytes}, Compact after → Compact (members.body after) := by
  have between (rest : Members) {s : Bytes} (compact : Compact s) : Compact (rest.before s) := by
    have separator : Compact [comma] := by decide
    cases rest with
    | nil => exact compact
    | integer | object => exact separator.append compact
  induction members with
  | nil => intro _ _ compact; exact compact
  | integer key n rest ih =>
      intro words after compact
      have number := compact_of_ordinary fun c hc => ordinary_of_number (all_decimalInt n c hc)
      exact words.1.compact.append (number.append (between rest (ih words.2 compact)))
  | object key members rest ihMembers ih =>
      intro words after compact
      have braces : Compact [openBrace] ∧ Compact [closeBrace] := by decide
      have behind := braces.2.append (between rest (ih words.2.2 compact))
      exact words.1.compact.append (braces.1.append (ihMembers words.2.1 behind))

/-- The decoder stores what it collects from the items of an object. -/
theorem decodeFrom_text {members : Members} (words : members.Identifiers)
    {keyValues : KeyValueMap Bytes JSONValue} {left : List JSONItem}
    (collects : Collects members.itemTree.items [] keyValues left) (d : FromJSONVisitor)
    {rounds : Nat} (enough : members.text.length < rounds) :
    d.decodeFrom rounds members.text = .ok { d with keyValues := keyValues } := by
  have braces : Compact [openBrace] ∧ Compact [closeBrace] := by decide
  have compact : Compact members.text := braces.1.append (members.compact_body words braces.2)
  have behind : ∀ {junk : Bytes}, NoQuotes junk → Spells [] (junk ++ [closeBrace]) := by
    intro junk plain
    have skipped := search_skip (Remainder.append (.plain plain) (noQuotes_brace (.inr (.inl rfl))))
      (.inl rfl : AtKey [])
    rw [List.append_nil] at skipped
    exact skipped.trans search_nil
  have spells : Spells members.itemTree.items members.text := by
    have whole := members.spells_body words rfl behind (noQuotes_brace (.inl rfl))
    rwa [List.append_nil] at whole
  have filtered : members.text.filter (fun c => !isSpace c) = members.text :=
    List.filter_eq_self.mpr fun c hc => by rw [compact c hc]; rfl
  obtain ⟨text', _, _, _, read⟩ :=
    @readKeyValues_of_collects _ _ _ _ collects rounds [] _ spells compact enough
  rw [FromJSONVisitor.decodeFrom, filtered]
  rw [read]
  rfl

/-- What is collected respects the nesting where the ends of all objects are seen. -/
theorem respects_collected_iff {members : Members} (distinct : members.Distinct)
    {keyValues : KeyValueMap Bytes JSONValue} {left : List JSONItem}
    (collects : Collects members.itemTree.items [] keyValues left) :
    members.Respects keyValues ↔ members.Nests False := by
  have distinctTree := members.distinct_itemTree distinct
  constructor
  · rintro ⟨stored, _⟩
    have found := members.found_of_storedIn stored
    have exact_ := ItemTree.exact_of_found distinctTree members.flat_itemTree collects found
    exact (members.exact_itemTree_iff.mp exact_).1
  · intro nests
    have exact_ := members.exact_itemTree_iff.mpr ⟨nests, False.elim⟩
    have nothing : (([] : List JSONItem) ≠ []) = False := by simp
    have own := members.itemTree.collects_of_exact (nothing ▸ exact_) []
    rw [List.append_nil] at own
    obtain ⟨rfl, _⟩ := collects.unique own
    refine ⟨members.storedIn_of_entries distinct fun e he => ?_, fun k => members.mem_keys_of_find⟩
    have names := members.itemTree.nodup_names distinctTree
    rw [← ItemTree.map_fst_entries] at names
    exact KeyValueMap.find_assignAll _ names he []

/-- **The nesting of an object is respected** if and only if every nested object behind which
another member follows ends with an integer. -/
theorem respects_iff {members : Members} (words : members.Identifiers)
    (distinct : members.Distinct) (d : FromJSONVisitor) :
    ∃ d', (∀ rounds > members.text.length, d.decodeFrom rounds members.text = .ok d') ∧
      (members.Respects d'.keyValues ↔ members.Nests False) := by
  obtain ⟨keyValues, left, collects⟩ := exists_collects _ members.itemTree.items le_rfl []
  exact ⟨{ d with keyValues := keyValues }, fun rounds => decodeFrom_text words collects d,
    respects_collected_iff distinct collects⟩

/-- An object with a nested object in the middle. -/
theorem respects_iff_middle :
    let members : Members := .object (asciiBytes "a") (.integer (asciiBytes "b") (-1) .nil)
      (.integer (asciiBytes "c") 2 .nil)
    ∃ d', (∀ rounds > members.text.length,
        FromJSONVisitor.init.decodeFrom rounds members.text = .ok d') ∧
      members.Respects d'.keyValues := by
  intro members
  have words : members.Identifiers :=
    ⟨⟨by decide, by decide⟩, ⟨⟨by decide, by decide⟩, trivial⟩, ⟨by decide, by decide⟩, trivial⟩
  have distinct : members.Distinct := ⟨by decide, ⟨by decide, trivial⟩, by decide, trivial⟩
  obtain ⟨d', decoded, respects⟩ := respects_iff words distinct FromJSONVisitor.init
  exact ⟨d', decoded, respects.mpr ⟨fun _ => .inl rfl, trivial, trivial⟩⟩

/-- **The member behind an empty object is stored in the map of this object**, and so is the one
behind two closing braces. -/
theorem not_respects :
    let empty : Members := .object (asciiBytes "a") .nil (.integer (asciiBytes "b") 1 .nil)
    let two : Members := .object (asciiBytes "a")
      (.object (asciiBytes "b") (.integer (asciiBytes "c") 1 .nil) .nil)
      (.integer (asciiBytes "d") 2 .nil)
    (empty.text = asciiBytes "\x7b\"a\":\x7b\x7d,\"b\":1\x7d" ∧
      ∃ d', (∀ rounds > empty.text.length,
          FromJSONVisitor.init.decodeFrom rounds empty.text = .ok d') ∧
        ¬ empty.Respects d'.keyValues) ∧
    two.text = asciiBytes "\x7b\"a\":\x7b\"b\":\x7b\"c\":1\x7d\x7d,\"d\":2\x7d" ∧
      ∃ d', (∀ rounds > two.text.length,
          FromJSONVisitor.init.decodeFrom rounds two.text = .ok d') ∧
        ¬ two.Respects d'.keyValues := by
  intro empty two
  have lost {members : Members} (words : members.Identifiers) (distinct : members.Distinct)
      (differs : ¬ members.Nests False) :
      ∃ d', (∀ rounds > members.text.length,
          FromJSONVisitor.init.decodeFrom rounds members.text = .ok d') ∧
        ¬ members.Respects d'.keyValues := by
    obtain ⟨keyValues, left, collects⟩ := exists_collects _ members.itemTree.items le_rfl []
    exact ⟨_, fun rounds => decodeFrom_text words collects _,
      fun respects => differs ((respects_collected_iff distinct collects).mp respects)⟩
  have behind {members rest : Members} {key : Bytes} (some : rest ≠ nil)
      (ends : ¬ members.EndsWithInteger) : ¬ (object key members rest).Nests False :=
    fun nests => ends (nests.1 (.inl some))
  refine ⟨⟨by decide, lost ?_ ?_ (behind (by decide) id)⟩, by decide, lost ?_ ?_
    (behind (by decide) id)⟩
  all_goals simp [empty, two, Identifiers, Identifiers.IsWord, Distinct, keys, asciiBytes, isLetter]

end Members

end Cluon
