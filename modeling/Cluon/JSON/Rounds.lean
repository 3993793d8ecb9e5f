import Cluon.JSON.FromJSONVisitor
import Mathlib.Logic.Relation

/-!
# The rounds of the JSON decoder

What a round of `readKeyValues` does depends on the remaining text only (`roundOf`,
`readKeyValues_succ`), and every round that takes something leaves a shorter text. So the calls,
however they are nested, come to one text after the other (`ComesTo`), and the way they end is
decided by the last of them (`ends_of_enough`):

* if a match has not exactly one colon, neither branch of the loop is taken and the round is
  repeated forever, so the decoder returns if and only if it never comes to such a match
  (`terminates_iff`);
* if there is no quote in front of the colon, splitting the key at its quotes gives one part,
  and the second one is accessed. All other positions are checked before, so every access is in
  range if and only if the decoder never comes to such a match (`indexesInRange_iff`).
-/

set_option autoImplicit false

namespace Cluon

open Library JSON stringtoolbox FromJSONVisitor

/-! ## One round -/

/-- What a round does, with the remaining text where there is a new one. -/
inductive Round where
  | noMatch
  | repeated
  | outOfRange
  | object (key left : Bytes)
  | value (key : Bytes) (any : JSONValue) (left : Bytes)
  | close (key : Bytes) (any : JSONValue) (left : Bytes)

/-- The round of `readKeyValues` that begins with the given text. -/
def roundOf (input : Bytes) : Round :=
  match MATCH_JSON.search input with
  | none => .noMatch
  | some (found, suffix) =>
      match split found colon with
      | [first, second] =>
          match secondPart (split (trim first) quote) with
          | .error _ => .outOfRange
          | .ok key =>
              if trim second = [] then .object key (trim suffix)
              else if (trim suffix).head? = some closeBrace then
                .close key (.ofText (trim second)) (trim suffix)
              else .value key (.ofText (trim second)) (trim suffix)
      | _ => .repeated

theorem secondPart_error {parts : List Bytes} {e : ReadError}
    (error : secondPart parts = .error e) : e = .outOfRange := by
  rcases parts with _ | ⟨first, _ | ⟨second, parts⟩⟩
  · exact (Except.error.inj error).symm
  · exact (Except.error.inj error).symm
  · cases error

/-- **The loop, round by round.** -/
theorem readKeyValues_succ (rounds : Nat) (result : KeyValueMap Bytes JSONValue)
    (oldInput input : Bytes) :
    readKeyValues (rounds + 1) result oldInput input =
      match roundOf input with
      | .noMatch => .ok (result, input)
      | .repeated =>
          if oldInput ≠ input then readKeyValues rounds result oldInput input
          else .ok (result, input)
      | .outOfRange => .error .outOfRange
      | .object key left => do
          let (mapOfNestedValues, left) ← readKeyValues rounds [] [] left
          let result := result.assign key (.object mapOfNestedValues)
          if input ≠ left then readKeyValues rounds result input left else .ok (result, left)
      | .value key any left =>
          if input ≠ left then readKeyValues rounds (result.assign key any) input left
          else .ok (result.assign key any, left)
      | .close key any left => .ok (result.assign key any, left) := by
  rw [readKeyValues, roundOf]
  cases MATCH_JSON.search input with
  | none => rfl
  | some found =>
      obtain ⟨found, suffix⟩ := found
      simp only
      rcases split found colon with _ | ⟨first, _ | ⟨second, _ | ⟨third, parts⟩⟩⟩
      · rfl
      · rfl
      · simp only
        cases key : secondPart (split (trim first) quote) with
        | error e =>
            obtain rfl := secondPart_error key
            by_cases empty : trim second = []
            · rw [if_pos empty]
              rfl
            · rw [if_neg empty]
              rfl
        | ok key =>
            simp only
            by_cases empty : trim second = []
            · simp only [if_pos empty]
              rfl
            · simp only [if_neg empty]
              split
              · rfl
              · rfl
      · rfl

/-! ## Progress -/

/-- The text that a round leaves for the next one. -/
def Round.left? : Round → Option Bytes
  | .object _ left | .value _ _ left | .close _ _ left => some left
  | .noMatch | .repeated | .outOfRange => none

theorem length_trim_le (s : Bytes) : (trim s).length ≤ s.length :=
  (List.dropWhile_sublist _).length_le.trans (List.rdropWhile_prefix _ _).length_le

/-- **A round leaves a shorter text.** -/
theorem length_left {input left : Bytes} (next : (roundOf input).left? = some left) :
    left.length < input.length := by
  rw [roundOf] at next
  cases search : MATCH_JSON.search input with
  | none =>
      rw [search] at next
      cases next
  | some found =>
      obtain ⟨found, suffix⟩ := found
      rw [search] at next
      simp only at next
      have shorter : found ≠ [] → (trim suffix).length < input.length := by
        intro some
        obtain ⟨a, rfl⟩ := Regex.search_eq_some search
        have taken := List.length_pos_iff.mpr some
        have trimmed := length_trim_le suffix
        simp only [List.length_append]
        omega
      rcases parts : split found colon with _ | ⟨first, _ | ⟨second, _ | ⟨third, parts⟩⟩⟩
      · rw [parts] at next
        cases next
      · rw [parts] at next
        cases next
      · have some : found ≠ [] := by
          rintro rfl
          cases parts
        rw [parts] at next
        simp only at next
        split at next
        · cases next
        · split at next
          · exact Option.some.inj next ▸ shorter some
          · split at next
            · exact Option.some.inj next ▸ shorter some
            · exact Option.some.inj next ▸ shorter some
      · rw [parts] at next
        cases next

/-- How deep the calls are nested after a round, and which text remains. -/
def Round.next : (level : Nat) → Round → Option (Nat × Bytes)
  | level, .object _ left => some (level + 1, left)
  | level, .value _ _ left => some (level, left)
  | level + 1, .close _ _ left => some (level, left)
  | 0, .close _ _ _ => none
  | _, .noMatch | _, .repeated | _, .outOfRange => none

/-- The round that begins at a given level and text. -/
def nextRound (s : Nat × Bytes) : Option (Nat × Bytes) := (roundOf s.2).next s.1

/-- Round after round, the calls come from one text to another one. -/
def ComesTo : Nat × Bytes → Nat × Bytes → Prop :=
  Relation.ReflTransGen fun s s' => nextRound s = some s'

theorem length_nextRound {s s' : Nat × Bytes} (next : nextRound s = some s') :
    s'.2.length < s.2.length := by
  apply length_left
  obtain ⟨level, input⟩ := s
  change (roundOf input).next level = some s' at next
  cases round : roundOf input with
  | object key left | value key any left =>
      rw [round] at next
      obtain rfl := Option.some.inj next
      rfl
  | close key any left =>
      rw [round] at next
      cases level with
      | zero => cases next
      | succ level =>
          obtain rfl := Option.some.inj next
          rfl
  | noMatch | repeated | outOfRange =>
      rw [round] at next
      cases level with
      | zero | succ => cases next

theorem ComesTo.length_le {s s' : Nat × Bytes} (comes : ComesTo s s') :
    s'.2.length ≤ s.2.length := by
  induction comes with
  | refl => exact le_rfl
  | tail _ next ih => exact (length_nextRound next).le.trans ih

/-- There is only one text at which the rounds can end. -/
theorem ComesTo.last_unique {s a b : Nat × Bytes} (toA : ComesTo s a) (toB : ComesTo s b)
    (lastA : nextRound a = none) (lastB : nextRound b = none) : a = b := by
  have final {a b : Nat × Bytes} (last : nextRound a = none) (comes : ComesTo a b) : a = b := by
    rcases Relation.ReflTransGen.cases_head comes with same | ⟨c, next, _⟩
    · exact same
    · rw [last] at next
      cases next
  have unique : Relator.RightUnique fun s s' : Nat × Bytes => nextRound s = some s' :=
    fun s t t' first second => Option.some.inj (first.symm.trans second)
  rcases Relation.ReflTransGen.total_of_right_unique unique toA toB with ahead | ahead
  · exact final lastA ahead
  · exact (final lastB ahead).symm

/-! ## Ends -/

/-- How a call ends that begins at the given level and text. -/
inductive Outcome (level : Nat) (input : Bytes) :
    Except ReadError (KeyValueMap Bytes JSONValue × Bytes) → Prop
  | outOfRange {s : Nat × Bytes} : ComesTo (level, input) s → roundOf s.2 = .outOfRange →
      Outcome level input (.error .outOfRange)
  | endless {s : Nat × Bytes} : ComesTo (level, input) s → roundOf s.2 = .repeated →
      Outcome level input (.error .endless)
  | noMatch {level' : Nat} {left : Bytes} {result : KeyValueMap Bytes JSONValue} :
      ComesTo (level, input) (level', left) → roundOf left = .noMatch →
      Outcome level input (.ok (result, left))
  | close {input' key left : Bytes} {any : JSONValue} {result : KeyValueMap Bytes JSONValue} :
      ComesTo (level, input) (level, input') → roundOf input' = .close key any left →
      Outcome level input (.ok (result, left))

theorem Outcome.of_comesTo {level : Nat} {input input' : Bytes}
    {out : Except ReadError (KeyValueMap Bytes JSONValue × Bytes)}
    (comes : ComesTo (level, input) (level, input')) (outcome : Outcome level input' out) :
    Outcome level input out := by
  cases outcome with
  | outOfRange further round => exact .outOfRange (comes.trans further) round
  | endless further round => exact .endless (comes.trans further) round
  | noMatch further round => exact .noMatch (comes.trans further) round
  | close further round => exact .close (comes.trans further) round

theorem roundOf_nil : roundOf [] = .noMatch := rfl

/-- A round that changes nothing is repeated forever. -/
theorem endless_of_repeated {input : Bytes} (round : roundOf input = .repeated)
    {oldInput : Bytes} (old : oldInput ≠ input) (result : KeyValueMap Bytes JSONValue)
    (rounds : Nat) : readKeyValues rounds result oldInput input = .error .endless := by
  induction rounds with
  | zero => rfl
  | succ rounds ih =>
      rw [readKeyValues_succ, round]
      simp only [if_pos old, ih]

/-- **With more rounds than characters, a call ends as the last text it comes to says.** -/
theorem ends_of_enough (rounds : Nat) :
    ∀ (level : Nat) (result : KeyValueMap Bytes JSONValue) (oldInput input : Bytes),
      input.length < rounds → (oldInput = input → input = []) →
        Outcome level input (readKeyValues rounds result oldInput input) := by
  induction rounds with
  | zero => intro level result oldInput input enough _; exact absurd enough (Nat.not_lt_zero _)
  | succ rounds ih =>
      intro level result oldInput input enough old
      have new {left : Bytes} (shorter : left.length < input.length) : input = left → left = [] :=
        fun same => absurd same (ne_of_apply_ne List.length shorter.ne')
      have next {s : Nat × Bytes} (step : nextRound (level, input) = some s) :
          ComesTo (level, input) s := Relation.ReflTransGen.single step
      rw [readKeyValues_succ]
      cases round : roundOf input with
      | noMatch => exact .noMatch .refl round
      | outOfRange => exact .outOfRange .refl round
      | close key any left => exact .close .refl round
      | repeated =>
          have other : oldInput ≠ input := by
            intro same
            rw [old same, roundOf_nil] at round
            cases round
          simp only [if_pos other, endless_of_repeated round other]
          exact .endless .refl round
      | value key any left =>
          have shorter : left.length < input.length := length_left (by rw [round]; rfl)
          have comes : ComesTo (level, input) (level, left) := next (by rw [nextRound, round]; rfl)
          simp only [if_pos (ne_of_apply_ne List.length shorter.ne')]
          exact (ih level _ input left (by omega) (new shorter)).of_comesTo comes
      | object key left =>
          have shorter : left.length < input.length := length_left (by rw [round]; rfl)
          have comes : ComesTo (level, input) (level + 1, left) :=
            next (by rw [nextRound, round]; rfl)
          have inner := ih (level + 1) [] [] left (by omega) fun same => same.symm
          simp only
          generalize readKeyValues rounds [] [] left = nested at inner
          cases inner with
          | outOfRange further round => exact .outOfRange (comes.trans further) round
          | endless further round => exact .endless (comes.trans further) round
          | @noMatch level' left' m further round' =>
              -- The outer call finds no further match either.
              have less : left'.length < input.length := further.length_le.trans_lt shorter
              obtain ⟨rounds, rfl⟩ := Nat.exists_eq_add_of_lt (by omega : left'.length < rounds)
              change Outcome level input
                (if input ≠ left' then readKeyValues _ _ input left' else _)
              rw [if_pos (ne_of_apply_ne List.length less.ne'), readKeyValues_succ, round']
              exact .noMatch (comes.trans further) round'
          | @close input' key' left' any m further round' =>
              have step : nextRound (level + 1, input') = some (level, left') := by
                rw [nextRound, round']
                rfl
              have back : ComesTo (level, input) (level, left') :=
                comes.trans (further.tail step)
              have less : left'.length < input.length :=
                (length_nextRound step).trans_le (further.length_le.trans shorter.le)
              change Outcome level input
                (if input ≠ left' then readKeyValues _ _ input left' else _)
              rw [if_pos (ne_of_apply_ne List.length less.ne')]
              exact (ih level _ input left' (by omega) (new less)).of_comesTo back

/-- A call that ends is not changed by more rounds. -/
theorem readKeyValues_mono (rounds : Nat) :
    ∀ {result : KeyValueMap Bytes JSONValue} {oldInput input : Bytes},
      readKeyValues rounds result oldInput input ≠ .error .endless →
        readKeyValues (rounds + 1) result oldInput input =
          readKeyValues rounds result oldInput input := by
  induction rounds with
  | zero => intro result oldInput input ends; exact absurd rfl ends
  | succ rounds ih =>
      intro result oldInput input ends
      rw [readKeyValues_succ] at ends
      rw [readKeyValues_succ (rounds + 1), readKeyValues_succ rounds]
      cases round : roundOf input with
      | noMatch | outOfRange | close key any left => rfl
      | repeated =>
          dsimp only
          split
          · rfl
          · rfl
      | value key any left =>
          rw [round] at ends
          dsimp only at ends ⊢
          by_cases same : input ≠ left
          · rw [if_pos same] at ends
            rw [if_pos same, if_pos same, ih ends]
          · rw [if_neg same, if_neg same]
      | object key left =>
          rw [round] at ends
          dsimp only at ends ⊢
          have inner : readKeyValues rounds [] [] left ≠ .error .endless := by
            intro endless
            rw [endless] at ends
            exact ends rfl
          rw [ih inner]
          cases nested : readKeyValues rounds [] [] left with
          | error e => rfl
          | ok out =>
              obtain ⟨m, left'⟩ := out
              rw [nested] at ends
              change (if input ≠ left' then readKeyValues rounds _ input left' else _) ≠ _ at ends
              change (if input ≠ left' then readKeyValues (rounds + 1) _ input left' else _) =
                (if input ≠ left' then readKeyValues rounds _ input left' else _)
              by_cases same : input ≠ left'
              · rw [if_pos same] at ends
                rw [if_pos same, if_pos same, ih ends]
              · rw [if_neg same, if_neg same]

theorem readKeyValues_of_le {rounds more : Nat} (less : rounds ≤ more)
    {result : KeyValueMap Bytes JSONValue} {oldInput input : Bytes}
    (ends : readKeyValues rounds result oldInput input ≠ .error .endless) :
    readKeyValues more result oldInput input = readKeyValues rounds result oldInput input := by
  induction less with
  | refl => rfl
  | step less ih => rw [readKeyValues_mono _ (by rwa [ih]), ih]

/-- The outcome of decoding a text, with more rounds than it has characters. -/
theorem outcome_text {text : Bytes} {rounds : Nat} (enough : text.length < rounds) :
    Outcome 0 text (readKeyValues rounds [] [] text) :=
  ends_of_enough rounds 0 [] [] text enough fun same => same.symm

/-- The last text that the calls come to tells how they end. -/
theorem Outcome.eq_of_last {text : Bytes}
    {out : Except ReadError (KeyValueMap Bytes JSONValue × Bytes)} (outcome : Outcome 0 text out)
    {s : Nat × Bytes} (comes : ComesTo (0, text) s) :
    (roundOf s.2 = .repeated → out = .error .endless) ∧
      (roundOf s.2 = .outOfRange → out = .error .outOfRange) := by
  have last {s : Nat × Bytes} (round : roundOf s.2 = .repeated ∨ roundOf s.2 = .outOfRange ∨
      roundOf s.2 = .noMatch) : nextRound s = none := by
    obtain ⟨level, input⟩ := s
    rcases round with round | round | round
    all_goals
      rw [nextRound, round]
      cases level with
      | zero | succ => rfl
  cases outcome with
  | @outOfRange s' further round =>
      refine ⟨fun here => ?_, fun _ => rfl⟩
      obtain rfl := comes.last_unique further (last (.inl here)) (last (.inr (.inl round)))
      rw [round] at here
      cases here
  | @endless s' further round =>
      refine ⟨fun _ => rfl, fun here => ?_⟩
      obtain rfl := comes.last_unique further (last (.inr (.inl here))) (last (.inl round))
      rw [round] at here
      cases here
  | @noMatch level' left result further round =>
      constructor
      · intro here
        obtain rfl := comes.last_unique further (last (.inl here)) (last (.inr (.inr round)))
        rw [round] at here
        cases here
      · intro here
        obtain rfl := comes.last_unique further (last (.inr (.inl here)))
          (last (.inr (.inr round)))
        rw [round] at here
        cases here
  | @close input' key left any result further round =>
      have stops : nextRound (0, input') = none := by
        rw [nextRound, round]
        rfl
      constructor
      · intro here
        obtain rfl := comes.last_unique further (last (.inl here)) stops
        rw [round] at here
        cases here
      · intro here
        obtain rfl := comes.last_unique further (last (.inr (.inl here))) stops
        rw [round] at here
        cases here

/-! ## Termination -/

/-- If a match begins in the text, it has exactly one colon. -/
def SingleColon (input : Bytes) : Prop :=
  ∀ found suffix, MATCH_JSON.search input = some (found, suffix) → found.count colon = 1

/-- `readKeyValues` comes to its end, unless an access out of range has put an end to it. -/
def Terminates (text : Bytes) : Prop :=
  ∃ rounds, readKeyValues rounds [] [] text ≠ .error .endless

theorem length_splitParts (delimiter : Byte) (s : Bytes) :
    (splitParts delimiter s).2.length = s.count delimiter := by
  induction s with
  | nil => rfl
  | cons c s ih =>
      rw [splitParts, List.count_cons]
      by_cases same : c = delimiter
      · simp only [same, if_true, List.length_cons, ih, beq_self_eq_true]
      · simp only [if_neg same, ih, beq_eq_false_iff_ne.mpr same, Bool.false_eq_true, if_false,
          Nat.add_zero]

theorem splitParts_fst (delimiter : Byte) (s : Bytes) :
    (splitParts delimiter s).1 = s.takeWhile fun c => decide (c ≠ delimiter) := by
  induction s with
  | nil => rfl
  | cons c s ih =>
      rw [splitParts]
      by_cases same : c = delimiter
      · rw [List.takeWhile_cons_of_neg (by simp [same])]
        simp only [if_pos same]
      · rw [List.takeWhile_cons_of_pos (by simpa using same), ← ih]
        simp only [if_neg same]

/-- A text has two parts if there is one delimiter. -/
theorem split_eq_two_iff {s first second : Bytes} {delimiter : Byte} :
    split s delimiter = [first, second] ↔
      s.count delimiter = 1 ∧ first = s.takeWhile (fun c => decide (c ≠ delimiter)) ∧
        (splitParts delimiter s).2 = [second] := by
  rw [split, ← length_splitParts, ← splitParts_fst]
  by_cases empty : s = []
  · subst empty
    simp [splitParts]
  · rw [if_neg empty, List.cons_eq_cons]
    constructor
    · rintro ⟨rfl, rest⟩
      exact ⟨by rw [rest]; rfl, rfl, rest⟩
    · rintro ⟨_, rfl, rest⟩
      exact ⟨rfl, rest⟩

/-- What a round does with a match. -/
theorem roundOf_of_search {input found suffix : Bytes}
    (search : MATCH_JSON.search input = some (found, suffix)) :
    roundOf input =
      match split found colon with
      | [first, second] =>
          match secondPart (split (trim first) quote) with
          | .error _ => .outOfRange
          | .ok key =>
              if trim second = [] then .object key (trim suffix)
              else if (trim suffix).head? = some closeBrace then
                .close key (.ofText (trim second)) (trim suffix)
              else .value key (.ofText (trim second)) (trim suffix)
      | _ => .repeated := by
  rw [roundOf, search]

theorem roundOf_repeated_iff (input : Bytes) : roundOf input = .repeated ↔ ¬ SingleColon input := by
  cases search : MATCH_JSON.search input with
  | none =>
      refine iff_of_false (fun round => ?_) (not_not.mpr fun found suffix some => ?_)
      · rw [roundOf, search] at round
        cases round
      · rw [search] at some
        cases some
  | some found =>
      obtain ⟨found, suffix⟩ := found
      have single : SingleColon input ↔ found.count colon = 1 := by
        rw [SingleColon, search]
        exact ⟨fun h => h found suffix rfl, fun h found' suffix' same => by
          obtain ⟨rfl, rfl⟩ := Prod.mk.inj (Option.some.inj same)
          exact h⟩
      rw [single, roundOf_of_search search]
      constructor
      · intro round one
        obtain ⟨second, rest⟩ :=
          List.length_eq_one_iff.mp ((length_splitParts colon found).trans one)
        rw [split_eq_two_iff.mpr ⟨one, rfl, rest⟩] at round
        simp only at round
        split at round
        · cases round
        · split at round
          · cases round
          · split at round
            · cases round
            · cases round
      · intro others
        split
        · rename_i first second parts
          exact absurd (split_eq_two_iff.mp parts).1 others
        · rfl

/-- **The decoder comes to its end if and only if each match that it comes to has exactly one
colon**, so that no key contains one. -/
theorem terminates_iff (text : Bytes) :
    Terminates text ↔ ∀ s, ComesTo (0, text) s → SingleColon s.2 := by
  constructor
  · rintro ⟨rounds, ends⟩ s comes
    by_contra several
    have outcome := outcome_text (Nat.lt_succ_of_le (le_max_left text.length rounds))
    have endless := (outcome.eq_of_last comes).1 ((roundOf_repeated_iff s.2).mpr several)
    have roundsEnough := (le_max_right text.length rounds).trans (Nat.le_succ _)
    rw [readKeyValues_of_le roundsEnough ends] at endless
    exact ends endless
  · intro single
    refine ⟨text.length + 1, fun endless => ?_⟩
    have outcome := outcome_text (Nat.lt_succ_self text.length)
    rw [endless] at outcome
    cases outcome with
    | @endless s comes round => exact (roundOf_repeated_iff s.2).mp round (single s comes)

theorem not_terminates : ¬ Terminates (asciiBytes "\"a:b\":1") := by
  rintro ⟨rounds, ends⟩
  refine ends (endless_of_repeated ?_ (by decide) [] rounds)
  apply (roundOf_repeated_iff _).mpr
  intro single
  have search : MATCH_JSON.search (asciiBytes "\"a:b\":1") =
      some (asciiBytes "\"a:b\":1", []) := by decide +kernel
  exact absurd (single _ _ search) (by decide)

/-! ## Accesses -/

/-- The accesses to elements of vectors and to characters and positions of strings in a round:
each index, and how many there are. A position of a substring may be the end of the string. -/
def accesses (input : Bytes) : List (Nat × Nat) :=
  match MATCH_JSON.search input with
  | none => []
  | some (found, suffix) =>
      let retVal := split found colon
      match retVal with
      | [first, second] =>
          let key := (1, (split (trim first) quote).length)
          if trim second = [] then [(1, retVal.length), (0, retVal.length), key]
          else
            [(1, retVal.length), (0, retVal.length), key] ++
              (if (trim second).head? = some quote then
                [(0, (trim second).length), (1, (trim second).length + 1)]
              else [(0, (trim second).length)]) ++
              (if trim suffix = [] then [] else [(0, (trim suffix).length)])
      | _ => []

/-- If a match with one colon begins in the text, there is a quote in front of the colon. -/
def QuotedKey (input : Bytes) : Prop :=
  ∀ found suffix, MATCH_JSON.search input = some (found, suffix) → found.count colon = 1 →
    quote ∈ found.takeWhile fun c => decide (c ≠ colon)

/-- Every access that `readKeyValues` makes is in range, and it makes none behind the end of a
vector. -/
def IndexesInRange (text : Bytes) : Prop :=
  (∀ s, ComesTo (0, text) s → ∀ access ∈ accesses s.2, access.1 < access.2) ∧
    ∀ rounds, readKeyValues rounds [] [] text ≠ .error .outOfRange

theorem mem_trim {c : Byte} (h : isBlank c = false) (s : Bytes) : c ∈ trim s ↔ c ∈ s := by
  have kept {p : Byte → Bool} (stop : p c = false) (l : Bytes) : c ∈ l.dropWhile p ↔ c ∈ l := by
    induction l with
    | nil => rfl
    | cons d l ih =>
        by_cases drop : p d
        · have other : c ≠ d := by
            rintro rfl
            rw [stop] at drop
            cases drop
          rw [List.dropWhile_cons_of_pos drop, ih, List.mem_cons, or_iff_right other]
        · rw [List.dropWhile_cons_of_neg drop]
  rw [trim, ltrim, kept h, rtrim, List.rdropWhile, List.mem_reverse, kept h, List.mem_reverse]

/-- A text with a delimiter has a second part. -/
theorem one_lt_length_split_iff {s : Bytes} {delimiter : Byte} :
    1 < (split s delimiter).length ↔ delimiter ∈ s := by
  rw [split]
  by_cases empty : s = []
  · subst empty
    simp
  · rw [if_neg empty, List.length_cons, length_splitParts, ← List.count_pos_iff]
    omega

theorem secondPart_error_iff (parts : List Bytes) :
    (∃ e, secondPart parts = .error e) ↔ ¬ 1 < parts.length := by
  rcases parts with _ | ⟨first, _ | ⟨second, parts⟩⟩
  · exact iff_of_true ⟨_, rfl⟩ (by simp)
  · exact iff_of_true ⟨_, rfl⟩ (by simp)
  · exact iff_of_false (fun ⟨e, error⟩ => nomatch error) (by simp)

/-- The key of a match has a second part. -/
theorem one_lt_length_key_iff {found first second : Bytes}
    (parts : split found colon = [first, second]) :
    1 < (split (trim first) quote).length ↔
      quote ∈ found.takeWhile fun c => decide (c ≠ colon) := by
  rw [one_lt_length_split_iff, mem_trim (by decide), (split_eq_two_iff.mp parts).2.1]

theorem quotedKey_iff {input found suffix first second : Bytes}
    (search : MATCH_JSON.search input = some (found, suffix))
    (parts : split found colon = [first, second]) :
    QuotedKey input ↔ 1 < (split (trim first) quote).length := by
  rw [one_lt_length_key_iff parts, QuotedKey, search]
  constructor
  · exact fun quoted => quoted found suffix rfl (split_eq_two_iff.mp parts).1
  · intro quoted found' suffix' same _
    obtain ⟨rfl, rfl⟩ := Prod.mk.inj (Option.some.inj same)
    exact quoted

/-- Without two parts nothing is accessed. -/
theorem quotedKey_of_parts {input found suffix : Bytes}
    (search : MATCH_JSON.search input = some (found, suffix))
    (parts : ∀ first second, split found colon ≠ [first, second]) : QuotedKey input := by
  intro found' suffix' same one
  rw [search] at same
  obtain ⟨rfl, rfl⟩ := Prod.mk.inj (Option.some.inj same)
  obtain ⟨second, rest⟩ := List.length_eq_one_iff.mp ((length_splitParts colon found).trans one)
  exact absurd (split_eq_two_iff.mpr ⟨one, rfl, rest⟩) (parts _ _)

theorem roundOf_outOfRange_iff (input : Bytes) :
    roundOf input = .outOfRange ↔ ¬ QuotedKey input := by
  cases search : MATCH_JSON.search input with
  | none =>
      refine iff_of_false (fun round => ?_) (not_not.mpr fun found suffix some => ?_)
      · rw [roundOf, search] at round
        cases round
      · rw [search] at some
        cases some
  | some found =>
      obtain ⟨found, suffix⟩ := found
      rw [roundOf_of_search search]
      split
      · rename_i first second parts
        rw [quotedKey_iff search parts, ← secondPart_error_iff]
        split
        · rename_i e error
          exact iff_of_true rfl ⟨e, error⟩
        · rename_i key ok
          refine iff_of_false (fun round => ?_) fun ⟨e, error⟩ => ?_
          · split at round
            · cases round
            · split at round
              · cases round
              · cases round
          · rw [ok] at error
            cases error
      · rename_i others
        exact iff_of_false (fun round => nomatch round)
          (not_not.mpr (quotedKey_of_parts search fun first second => others first second))

/-- In one round only the part of the key can be missing. -/
theorem accesses_iff (input : Bytes) :
    (∀ access ∈ accesses input, access.1 < access.2) ↔ QuotedKey input := by
  cases search : MATCH_JSON.search input with
  | none =>
      refine iff_of_true (fun access inside => ?_) fun found suffix some => ?_
      · rw [accesses, search] at inside
        exact absurd inside List.not_mem_nil
      · rw [search] at some
        cases some
  | some found =>
      obtain ⟨found, suffix⟩ := found
      rw [accesses, search]
      simp only
      split
      · rename_i first second parts
        have two : (split found colon).length = 2 := by rw [parts]; rfl
        rw [quotedKey_iff search parts, two]
        by_cases empty : trim second = []
        · rw [if_pos empty]
          simp
        · have positive : 0 < (trim second).length := List.length_pos_iff.mpr empty
          rw [if_neg empty]
          by_cases quoted : (trim second).head? = some quote
          · by_cases end_ : trim suffix = []
            · simp [quoted, end_, positive]
            · have behind : 0 < (trim suffix).length := List.length_pos_iff.mpr end_
              simp [quoted, end_, positive, behind]
          · by_cases end_ : trim suffix = []
            · simp [quoted, end_, positive]
            · have behind : 0 < (trim suffix).length := List.length_pos_iff.mpr end_
              simp [quoted, end_, positive, behind]
      · rename_i others
        exact iff_of_true (fun access inside => absurd inside List.not_mem_nil)
          (quotedKey_of_parts search fun first second => others first second)

/-- **Every access is in range if and only if each match with one colon that the decoder comes to
has a quote in front of it**, so that its key is not between two apostrophes. -/
theorem indexesInRange_iff (text : Bytes) :
    IndexesInRange text ↔ ∀ s, ComesTo (0, text) s → QuotedKey s.2 := by
  constructor
  · rintro ⟨inRange, _⟩ s comes
    exact (accesses_iff s.2).mp (inRange s comes)
  · intro quoted
    refine ⟨fun s comes => (accesses_iff s.2).mpr (quoted s comes), fun rounds outOfRange => ?_⟩
    have ends : readKeyValues rounds [] [] text ≠ .error .endless := by
      rw [outOfRange]
      exact fun same => nomatch same
    have outcome := outcome_text (Nat.lt_succ_of_le (le_max_left text.length rounds))
    rw [readKeyValues_of_le ((le_max_right text.length rounds).trans (Nat.le_succ _)) ends,
      outOfRange] at outcome
    cases outcome with
    | @outOfRange s comes round => exact (roundOf_outOfRange_iff s.2).mp round (quoted s comes)

theorem not_indexesInRange : ¬ IndexesInRange (asciiBytes "'a':1") := by
  rintro ⟨inRange, _⟩
  have quoted := (accesses_iff _).mp (inRange _ .refl)
  have search : MATCH_JSON.search (asciiBytes "'a':1") = some (asciiBytes "'a':1", []) := by
    decide +kernel
  exact absurd (quoted _ _ search (by decide)) (by decide)

end Cluon
