import Cluon.Library.Separated
import Cluon.Tools.Filter

/-!
# Keeping and dropping

What a list of entries means: an entry names the envelopes with its message identifier and its
sender stamp, and a missing sender stamp is zero. With the same list and the same options, the
envelopes that are kept and those that are dropped are to be the parts of the eligible envelopes that
are named and that are not named (`Partitions`).

The maps of `cluon_filter` hold the entries as they are written, as the test for a missing sender
stamp is never met. So an envelope is found in them only if its own key is an entry.
-/

set_option autoImplicit false

namespace Cluon.CluonFilter

open Library InputStream

/-! ## Lists of entries -/

/-- A number, by its digits. -/
def Digits (text : Bytes) : Prop := text ≠ [] ∧ ∀ c ∈ text, isDigit c

instance (text : Bytes) : Decidable (Digits text) := inferInstanceAs (Decidable (_ ∧ _))

/-- An entry of a list. -/
structure Entry where
  id : Bytes
  senderStamp : Option Bytes
  digits_id : Digits id
  digits_senderStamp : ∀ stamp ∈ senderStamp, Digits stamp

namespace Entry

/-- How an entry is written. -/
def text (entry : Entry) : Bytes :=
  entry.id ++ match entry.senderStamp with
    | some stamp => slash :: stamp
    | none => []

/-- The envelopes that are meant: those without a sender stamp have sender stamp zero. -/
def Names (entry : Entry) (env : Envelope.Values) : Prop :=
  (ofDecimal entry.id : Int) = (Envelope.dataType env).toInt ∧
    (entry.senderStamp.elim 0 ofDecimal) = (Envelope.senderStamp env).toNat

instance (entry : Entry) (env : Envelope.Values) : Decidable (entry.Names env) :=
  inferInstanceAs (Decidable (_ ∧ _))

end Entry

/-- The value of the option for a list. -/
def listText (L : List Entry) : Bytes := [comma].intercalate (L.map Entry.text)

/-- An entry of the list names the envelope. -/
def named (L : List Entry) (env : Envelope.Values) : Bool := L.any fun entry => entry.Names env

/-! ## Eligible envelopes -/

/-- The options for both runs, with the numbers in their texts. -/
structure Options where
  skip : Option Bytes
  start : Option Bytes
  endTime : Option Bytes
  skipNumber : Int
  startNumber : Int
  endNumber : Int
  skip_eq : intOption skip 0 = some skipNumber
  start_eq : intOption start 0 = some startNumber
  end_eq : intOption endTime (2 ^ 31 - 1) = some endNumber

namespace Options

variable (o : Options)

/-- The arguments of the run that keeps the envelopes of a list. -/
def keep (list : Bytes) : CommandlineArguments :=
  ⟨some list, none, o.skip, o.start, o.endTime, false⟩

/-- The arguments of the run that drops the envelopes of a list. -/
def drop (list : Bytes) : CommandlineArguments :=
  ⟨none, some list, o.skip, o.start, o.endTime, false⟩

/-- How many envelopes are to be skipped. -/
def skipped : Nat := (BitVec.ofInt 32 o.skipNumber).toNat

/-- An envelope comes after those to be skipped, by its number. -/
def isLater (x : Envelope.Values × Nat) : Bool := decide (o.skipped < x.2)

/-- The end of the interval. A relative one is counted from the start, or from the first envelope
that is not skipped. -/
def intervalEnd (es : List Envelope.Values) : Int :=
  match (numbered 0 es).find? o.isLater with
  | some x =>
      if isRelative o.endTime then
        o.endNumber + if 0 < o.startNumber then o.startNumber else (sampled x.1).toInt
      else o.endNumber
  | none => o.endNumber

/-- An envelope is neither skipped nor sampled outside of the interval. -/
def isEligible (es : List Envelope.Values) (x : Envelope.Values × Nat) : Bool :=
  o.isLater x && decide (o.startNumber < (sampled x.1).toInt) &&
    decide ((sampled x.1).toInt < o.intervalEnd es)

/-- The eligible envelopes with their numbers. -/
def eligible (es : List Envelope.Values) : List (Envelope.Values × Nat) :=
  (numbered 0 es).filter (o.isEligible es)

end Options

variable (uninit : Nat → Byte) (L : List Entry) (o : Options) (es : List Envelope.Values)

/-- **Keep and drop partition the stream**: the eligible envelopes that are named are kept, and the
others are written when these are dropped; both in their order and unchanged. -/
structure Partitions : Prop where
  keep : cluonFilter uninit (o.keep (listText L)) (serializeEnvelopes es) =
    some (0, serializeEnvelopes (((o.eligible es).filter fun x => named L x.1).map Prod.fst))
  drop : cluonFilter uninit (o.drop (listText L)) (serializeEnvelopes es) =
    some (0, serializeEnvelopes (((o.eligible es).filter fun x => !named L x.1).map Prod.fst))

/-- The numbers of an envelope as they are represented: the counter has not come back to the numbers
that are skipped, and the end of the interval is behind the envelope also as an `int32_t`. -/
def represented (x : Envelope.Values × Nat) : Bool :=
  decide (o.skipped < x.2 % 2 ^ 32) &&
    decide ((sampled x.1).toInt < (BitVec.ofInt 32 (o.intervalEnd es)).toInt)

/-- The eligible envelopes are seen by the loop, and those that are named are named by an entry that
is their key, with its sender stamp and without leading zeros. -/
structure ListsKeys : Prop where
  represented : ∀ x ∈ o.eligible es, represented o es x
  listed : ∀ x ∈ o.eligible es, named L x.1 → key x.1 ∈ L.map Entry.text

/-! ## The maps hold the entries as they are written -/

variable {L o es}

theorem comma_notMem_text (entry : Entry) : comma ∉ entry.text := by
  have none {digits : Bytes} (h : Digits digits) : comma ∉ digits := fun member =>
    absurd (h.2 comma member) (by decide)
  rw [Entry.text, List.mem_append, not_or]
  refine ⟨none entry.digits_id, ?_⟩
  split
  · rename_i stamp given
    rw [List.mem_cons, not_or]
    exact ⟨by decide, none (entry.digits_senderStamp stamp given)⟩
  · exact List.not_mem_nil

theorem text_ne_nil (entry : Entry) : entry.text ≠ [] :=
  List.append_ne_nil_of_left_ne_nil entry.digits_id.1 _

/-- The test for a missing sender stamp is never met. -/
theorem addEntry_eq {e : Bytes} (some : e ≠ []) (m : KeyValueMap Bytes Bool) :
    addEntry m e = m.assign e true := by
  have length : (stringtoolbox.split e slash).length ≠ 0 := by
    rw [ne_eq, List.length_eq_zero_iff]
    exact stringtoolbox.split_ne_nil slash some
  have nonempty : e.length ≠ 0 := mt List.length_eq_zero_iff.mp some
  simp only [addEntry, if_pos nonempty, if_neg length, List.append_nil]

theorem mapOfEnvelopes_none : mapOfEnvelopes none = [] := rfl

theorem mapOfEnvelopes_listText (nonempty : L ≠ []) :
    mapOfEnvelopes (some (listText L)) =
      KeyValueMap.assignAll [] (L.map fun entry => (entry.text, true)) := by
  have texts : listText L ++ [comma] = terminated comma (L.map Entry.text) :=
    intercalate_append_singleton comma (mt List.map_eq_nil_iff.mp nonempty)
  have parts : stringtoolbox.split (listText L ++ [comma]) comma = L.map Entry.text ++ [[]] := by
    rw [stringtoolbox.split_eq_splitOn comma (by simp), texts]
    apply splitOn_terminated_eq_iff.mpr
    rw [List.forall_mem_map]
    exact fun entry _ => comma_notMem_text entry
  have added : ∀ (entries : List Entry) (m : KeyValueMap Bytes Bool),
      (entries.map Entry.text).foldl addEntry m =
        m.assignAll (entries.map fun entry => (entry.text, true)) := by
    intro entries
    induction entries with
    | nil => intro m; rfl
    | cons entry entries ih =>
        intro m
        rw [List.map_cons, List.foldl_cons, addEntry_eq (text_ne_nil entry), ih]
        rfl
  rw [mapOfEnvelopes, Option.getD_some, parts, List.foldl_append, added]
  rfl

theorem isSome_find_mapOfEnvelopes (nonempty : L ≠ []) (k : Bytes) :
    ((mapOfEnvelopes (some (listText L))).find k).isSome ↔ k ∈ L.map Entry.text := by
  rw [mapOfEnvelopes_listText nonempty, KeyValueMap.isSome_find_assignAll, List.map_map]
  simp only [KeyValueMap.find_nil, Option.isSome_none, Bool.false_eq_true, false_or]
  rfl

/-- The envelope is found in the map. -/
def selected (L : List Entry) (env : Envelope.Values) : Bool :=
  decide (key env ∈ L.map Entry.text)

theorem count_mapOfEnvelopes_pos (nonempty : L ≠ []) (env : Envelope.Values) :
    0 < (mapOfEnvelopes (some (listText L))).count (key env) ↔ selected L env := by
  rw [KeyValueMap.count_pos, isSome_find_mapOfEnvelopes nonempty, selected, decide_eq_true_eq]

theorem length_mapOfEnvelopes_pos (nonempty : L ≠ []) :
    0 < (mapOfEnvelopes (some (listText L))).length := by
  obtain ⟨entry, others, rfl⟩ := List.exists_cons_of_ne_nil nonempty
  have found := (isSome_find_mapOfEnvelopes nonempty entry.text).mpr List.mem_cons_self
  apply List.length_pos_of_ne_nil
  intro empty
  rw [empty] at found
  cases found

/-! ## An envelope that is found is named -/

theorem key_eq_of_isCounted {env : Envelope.Values} (counted : isCounted env) :
    key env = decimal (Envelope.dataType env).toInt.toNat ++
      slash :: decimal (Envelope.senderStamp env).toNat := by
  rw [isCounted, Bool.and_eq_true, decide_eq_true_eq] at counted
  rw [key, decimalInt, if_neg (by omega)]
  congr 2
  omega

theorem named_of_selected {env : Envelope.Values} (counted : isCounted env)
    (found : selected L env) : named L env := by
  rw [selected, decide_eq_true_eq, List.mem_map] at found
  obtain ⟨entry, member, same⟩ := found
  have noSlash {digits : Bytes} (h : ∀ c ∈ digits, isDigit c) : slash ∉ digits := fun inside =>
    absurd (h slash inside) (by decide)
  have noneInType := noSlash (all_isDigit_decimal (Envelope.dataType env).toInt.toNat)
  have noneInStamp := noSlash (all_isDigit_decimal (Envelope.senderStamp env).toNat)
  rw [key_eq_of_isCounted counted, Entry.text] at same
  rw [named, List.any_eq_true]
  refine ⟨entry, member, decide_eq_true ?_⟩
  rcases given : entry.senderStamp with _ | stamp
  · rw [given] at same
    simp only [List.append_nil] at same
    exact absurd (same ▸ List.mem_append_right _ List.mem_cons_self) (noSlash entry.digits_id.2)
  · have parts := congrArg (stringtoolbox.split · slash) same
    simp only [given] at parts
    rw [stringtoolbox.split_two (noSlash entry.digits_id.2)
        (noSlash (entry.digits_senderStamp stamp given).2),
      stringtoolbox.split_two noneInType noneInStamp] at parts
    obtain ⟨ofType, ofStamp⟩ := List.cons_eq_cons.mp parts
    rw [isCounted, Bool.and_eq_true, decide_eq_true_eq] at counted
    refine ⟨?_, ?_⟩
    · rw [ofType, ofDecimal_decimal]
      omega
    · rw [given, Option.elim_some, (List.cons_eq_cons.mp ofStamp).1, ofDecimal_decimal]

/-! ## The loop sees the eligible envelopes whose numbers are represented -/

theorem stoi_eq {text : Bytes} {v : Int} (h : MessageParser.stoi text = some v) :
    let (negative, t) := readSign (text.dropWhile fun c => decide (c = 0x20 ∨ 0x09 ≤ c ∧ c ≤ 0x0D))
    v = (if negative then -(ofDecimal (t.takeWhile isDigit) : Int)
      else ofDecimal (t.takeWhile isDigit)) ∧ -2 ^ 31 ≤ v ∧ v < 2 ^ 31 := by
  simp only [MessageParser.stoi] at h
  obtain ⟨⟨_, bounds⟩, value⟩ := Option.ite_none_right_eq_some.mp h
  obtain rfl := Option.some.inj value
  exact ⟨rfl, bounds⟩

theorem stoi_bounds {text : Bytes} {v : Int} (h : MessageParser.stoi text = some v) :
    -2 ^ 31 ≤ v ∧ v < 2 ^ 31 :=
  (stoi_eq h).2

/-- A number behind a plus is not negative. -/
theorem stoi_of_plus {text : Bytes} {v : Int} (plus : text.head? = some 0x2B)
    (h : MessageParser.stoi text = some v) : 0 ≤ v := by
  obtain ⟨digits, rfl⟩ := List.head?_eq_some_iff.mp plus
  have value : v = ofDecimal (digits.takeWhile isDigit) := (stoi_eq h).1
  rw [value]
  exact Int.natCast_nonneg _

theorem intOption_bounds {option : Option Bytes} {otherwise v : Int}
    (represented : -2 ^ 31 ≤ otherwise ∧ otherwise < 2 ^ 31)
    (h : intOption option otherwise = some v) : -2 ^ 31 ≤ v ∧ v < 2 ^ 31 := by
  cases option with
  | none => exact Option.some.inj h ▸ represented
  | some text => exact stoi_bounds h

theorem toInt_ofInt_of_bounds {v : Int} (h : -2 ^ 31 ≤ v ∧ v < 2 ^ 31) :
    (BitVec.ofInt 32 v).toInt = v := by
  rw [BitVec.toInt_ofInt, Int.bmod_eq_of_le]
  all_goals omega

/-- A number that is not too small is not represented by a larger one. -/
theorem toInt_ofInt_le {v : Int} (h : -2 ^ 31 ≤ v) : (BitVec.ofInt 32 v).toInt ≤ v := by
  rw [BitVec.toInt_ofInt, Int.bmod]
  omega

namespace Options

theorem toInt_start : (BitVec.ofInt 32 o.startNumber).toInt = o.startNumber :=
  toInt_ofInt_of_bounds (intOption_bounds (by decide) o.start_eq)

theorem end_bounds : -2 ^ 31 ≤ o.endNumber ∧ o.endNumber < 2 ^ 31 :=
  intOption_bounds (by decide) o.end_eq

theorem end_nonneg (relative : isRelative o.endTime) : 0 ≤ o.endNumber := by
  have read := o.end_eq
  rcases given : o.endTime with _ | text
  · rw [given] at relative
    cases relative
  · rw [given] at relative read
    exact stoi_of_plus (of_decide_eq_true relative) read

/-- The end of the interval is not too small. -/
theorem le_intervalEnd : -2 ^ 31 ≤ o.intervalEnd es := by
  rw [intervalEnd]
  split
  · split
    · rename_i x _ relative
      have behind := o.end_nonneg relative
      have seconds := BitVec.le_two_mul_toInt (x := sampled x.1)
      split <;> omega
    · exact o.end_bounds.1
  · exact o.end_bounds.1

/-- The settings of the loop for the maps of a run. -/
def settings (o : Options) (keep drop : KeyValueMap Bytes Bool) : Settings :=
  ⟨keep, drop, BitVec.ofInt 32 o.skipNumber, BitVec.ofInt 32 o.startNumber, isRelative o.endTime,
    false⟩

/-- The state before the loop. -/
def state (o : Options) : State := ⟨[], 0, BitVec.ofInt 32 o.endNumber, false⟩

variable {keep drop : KeyValueMap Bytes Bool}

theorem passes_iff (x : Envelope.Values × Nat) :
    passes (o.settings keep drop) x ↔ o.skipped < x.2 % 2 ^ 32 := by
  rw [passes, decide_eq_true_eq, BitVec.lt_def, BitVec.toNat_ofNat]
  rfl

/-- What passes by the counter is not to be skipped. -/
theorem isLater_of_passes {x : Envelope.Values × Nat}
    (through : passes (o.settings keep drop) x) : o.isLater x :=
  decide_eq_true (Nat.lt_of_lt_of_le (passes_iff x |>.mp through) (Nat.mod_le _ _))

/-- The first envelope that passes is the first one that is not to be skipped. -/
theorem find?_isLater (es : List Envelope.Values) {x : Envelope.Values × Nat} :
    ∀ n ≤ o.skipped, (es.zipIdx (n + 1)).find? (passes (o.settings keep drop)) = some x →
      (es.zipIdx (n + 1)).find? o.isLater = some x := by
  induction es with
  | nil => intro n _ h; cases h
  | cons e es ih =>
      intro n le h
      rw [List.zipIdx_cons] at h ⊢
      rcases Nat.lt_or_eq_of_le le with less | rfl
      · have skipped : ¬ o.isLater (e, n + 1) := by
          rw [isLater, decide_eq_true_eq]
          omega
        rw [List.find?_cons_of_neg (mt isLater_of_passes skipped)] at h
        rw [List.find?_cons_of_neg skipped]
        exact ih (n + 1) less h
      · have through : passes (o.settings keep drop) (e, o.skipped + 1) := by
          -- No value of the counter exceeds the number of envelopes to be skipped otherwise.
          have some := (passes_iff x).mp (List.find?_some h)
          have below := Nat.mod_lt x.2 (by norm_num : 0 < 2 ^ 32)
          rw [passes_iff, Nat.mod_eq_of_lt (by omega)]
          exact Nat.lt_succ_self _
        rw [List.find?_cons_of_pos through] at h
        rw [List.find?_cons_of_pos (isLater_of_passes through)]
        exact h

/-- The end of the interval, as the loop sets it. -/
theorem settledEnd_eq {x : Envelope.Values × Nat} (member : x ∈ numbered 0 es)
    (through : passes (o.settings keep drop) x) :
    settledEnd (o.settings keep drop) o.state (numbered 0 es) =
      BitVec.ofInt 32 (o.intervalEnd es) := by
  rcases first : (numbered 0 es).find? (passes (o.settings keep drop)) with _ | y
  · exact absurd through (List.find?_eq_none.mp first x member)
  · have later : (numbered 0 es).find? o.isLater = some y :=
      find?_isLater _ 0 (Nat.zero_le _) first
    rw [settledEnd, intervalEnd, first, later]
    simp only [initializeEnd, settings, state, Bool.not_false, Bool.and_true, toInt_start]
    split
    · rw [BitVec.ofInt_add]
      split
      · rfl
      · rw [BitVec.ofInt_toInt]
    · rfl

/-- **What is inside for the loop**: the eligible envelopes whose numbers are represented. -/
theorem inside_eq {x : Envelope.Values × Nat} (member : x ∈ numbered 0 es) :
    inside (o.settings keep drop) (settledEnd (o.settings keep drop) o.state (numbered 0 es)) x =
      (o.isEligible es x && represented o es x) := by
  rw [Bool.eq_iff_iff]
  rcases through : passes (o.settings keep drop) x with _ | _
  · have skipped : ¬ o.skipped < x.2 % 2 ^ 32 := by
      intro small
      have isThrough : passes (o.settings keep drop) x := (passes_iff x).mpr small
      rw [through] at isThrough
      cases isThrough
    simp only [inside, through, represented, skipped, decide_false, Bool.false_and, Bool.and_false]
  · have later := isLater_of_passes through
    have wraps := (passes_iff x).mp through
    have start : (o.settings keep drop).start.toInt = o.startNumber := toInt_start
    have bound : -2 ^ 31 ≤ o.intervalEnd es := le_intervalEnd
    have atMost := toInt_ofInt_le bound
    rw [settledEnd_eq member through]
    simp only [inside, through, isEligible, later, represented, wraps, start, decide_true,
      Bool.true_and, Bool.and_eq_true, decide_eq_true_eq]
    omega

end Options

/-! ## The outputs of both runs -/

section Runs

variable {keep drop : KeyValueMap Bytes Bool} {p : Envelope.Values → Bool}
  (writes : ∀ output env, write (o.settings keep drop) output env =
    output ++ if p env then serializeEnvelope env else [])
include writes

/-- **The output of a run.** -/
theorem output_eq (fits : ∀ e ∈ es, FitsFrame e) :
    (whileGood (filterBody uninit (o.settings keep drop)) o.state
        (ofBytes (serializeEnvelopes es))).1.output =
      serializeEnvelopes (((o.eligible es).filter fun x => represented o es x && p x.1).map
        Prod.fst) := by
  have same : ((numbered 0 es).filter fun x => inside (o.settings keep drop)
        (settledEnd (o.settings keep drop) o.state (numbered 0 es)) x && p x.1) =
      (o.eligible es).filter fun x => represented o es x && p x.1 := by
    rw [Options.eligible, List.filter_filter]
    apply List.filter_congr
    intro x member
    rw [Options.inside_eq member, Bool.and_assoc, Bool.and_comm]
  rw [whileGood_filterBody uninit rfl es fits o.state _ rfl rfl,
    output_afterEnvelopes writes es o.state 0 rfl, same]
  rfl

end Runs

theorem write_keep (nonempty : L ≠ []) (output : Bytes) (env : Envelope.Values) :
    write (o.settings (mapOfEnvelopes (some (listText L))) (mapOfEnvelopes none)) output env =
      output ++ if selected L env then serializeEnvelope env else [] := by
  simp only [write, Options.settings, length_mapOfEnvelopes_pos nonempty,
    count_mapOfEnvelopes_pos nonempty, mapOfEnvelopes_none, List.length_nil, Nat.lt_irrefl, true_and,
    false_and, if_false]
  split
  · rfl
  · rw [List.append_nil]

theorem write_drop (nonempty : L ≠ []) (output : Bytes) (env : Envelope.Values) :
    write (o.settings (mapOfEnvelopes none) (mapOfEnvelopes (some (listText L)))) output env =
      output ++ if !selected L env then serializeEnvelope env else [] := by
  have absent : (mapOfEnvelopes (some (listText L))).count (key env) = 0 ↔
      (!selected L env) = true := by
    rw [Bool.not_eq_true', Bool.eq_false_iff, ne_eq, ← count_mapOfEnvelopes_pos nonempty,
      Nat.pos_iff_ne_zero, not_not]
  simp only [write, Options.settings, length_mapOfEnvelopes_pos nonempty, mapOfEnvelopes_none,
    List.length_nil, Nat.lt_irrefl, true_and, false_and, if_false, absent]
  split
  · rfl
  · rw [List.append_nil]

theorem cluonFilter_keep (nonempty : L ≠ []) (fits : ∀ e ∈ es, FitsFrame e) :
    cluonFilter uninit (o.keep (listText L)) (serializeEnvelopes es) =
      some (0, serializeEnvelopes (((o.eligible es).filter fun x =>
        represented o es x && selected L x.1).map Prod.fst)) := by
  rw [cluonFilter, if_neg (by simp [Options.keep])]
  simp only [Options.keep, o.skip_eq, o.start_eq, o.end_eq, Option.bind_eq_bind, Option.bind_some]
  exact congrArg (fun output => some (0, output)) (output_eq uninit (write_keep nonempty) fits)

theorem cluonFilter_drop (nonempty : L ≠ []) (fits : ∀ e ∈ es, FitsFrame e) :
    cluonFilter uninit (o.drop (listText L)) (serializeEnvelopes es) =
      some (0, serializeEnvelopes (((o.eligible es).filter fun x =>
        represented o es x && !selected L x.1).map Prod.fst)) := by
  rw [cluonFilter, if_neg (by simp [Options.drop])]
  simp only [Options.drop, o.skip_eq, o.start_eq, o.end_eq, Option.bind_eq_bind, Option.bind_some]
  exact congrArg (fun output => some (0, output)) (output_eq uninit (write_drop nonempty) fits)

/-! ## When the outputs are the parts of the stream -/

theorem fits_of_mem_eligible (fits : ∀ e ∈ es, FitsFrame e) (q : Envelope.Values × Nat → Bool) :
    ∀ e ∈ ((o.eligible es).filter q).map Prod.fst, FitsFrame e := by
  rw [List.forall_mem_map]
  intro x member
  have counted := (List.mem_filter.mp (List.mem_filter.mp member).1).1
  exact fits x.1 (List.mem_filter.mp (List.fst_mem_of_mem_zipIdx counted)).1

/-- Frames of as many envelopes. -/
theorem length_eq_of_frames {p q : Envelope.Values × Nat → Bool} (fits : ∀ e ∈ es, FitsFrame e)
    (same : some ((0 : Int), serializeEnvelopes (((o.eligible es).filter p).map Prod.fst)) =
      some (0, serializeEnvelopes (((o.eligible es).filter q).map Prod.fst))) :
    ((o.eligible es).filter p).length = ((o.eligible es).filter q).length := by
  have frames := (Prod.mk.inj (Option.some.inj same)).2
  have lists := serializeEnvelopes_inj (fits_of_mem_eligible fits p) (fits_of_mem_eligible fits q)
    frames
  simpa using congrArg List.length lists

/-- A part of a list that is as long as a larger one is the same. -/
theorem of_length_filter_eq {α : Type} {l : List α} {p q : α → Bool}
    (sub : ∀ x ∈ l, p x → q x) (same : (l.filter p).length = (l.filter q).length) :
    ∀ x ∈ l, q x → p x := by
  have within : (l.filter q).filter p = l.filter p := by
    rw [List.filter_filter]
    apply List.filter_congr
    intro x member
    rw [Bool.eq_iff_iff, Bool.and_eq_true]
    exact ⟨And.left, fun chosen => ⟨chosen, sub x member chosen⟩⟩
  rw [← within, List.length_filter_eq_length_iff] at same
  exact fun x member chosen => same x (List.mem_filter.mpr ⟨member, chosen⟩)

theorem named_of_selected_of_mem : ∀ x ∈ o.eligible es, selected L x.1 → named L x.1 := by
  intro x member
  have counted := List.fst_mem_of_mem_zipIdx (List.mem_filter.mp member).1
  exact named_of_selected (List.mem_filter.mp counted).2

theorem listsKeys_of_partitions (nonempty : L ≠ []) (fits : ∀ e ∈ es, FitsFrame e)
    (partitions : Partitions uninit L o es) : ListsKeys L o es := by
  have kept := length_eq_of_frames fits
    ((cluonFilter_keep uninit nonempty fits).symm.trans partitions.keep)
  have dropped := length_eq_of_frames fits
    ((cluonFilter_drop uninit nonempty fits).symm.trans partitions.drop)
  have ofNamed := of_length_filter_eq (fun x member => by
    rw [Bool.and_eq_true]
    exact fun h => named_of_selected_of_mem x member h.2) kept
  simp only [Bool.and_eq_true] at ofNamed
  have ofOthers := of_length_filter_eq (fun x member => by
    simp only [Bool.and_eq_true, Bool.not_eq_true', Bool.eq_false_iff]
    exact fun h => mt (fun h' => (ofNamed x member h').2) h.2) dropped
  simp only [Bool.and_eq_true] at ofOthers
  refine ⟨fun x member => ?_, fun x member h => of_decide_eq_true (ofNamed x member h).2⟩
  rcases h : named L x.1 with _ | _
  · exact (ofOthers x member (by rw [h]; rfl)).1
  · exact (ofNamed x member h).1

theorem partitions_of_listsKeys (nonempty : L ≠ []) (fits : ∀ e ∈ es, FitsFrame e)
    (keys : ListsKeys L o es) : Partitions uninit L o es := by
  have same : ∀ x ∈ o.eligible es, selected L x.1 = named L x.1 := fun x member =>
    Bool.eq_iff_iff.mpr ⟨named_of_selected_of_mem x member, fun h =>
      decide_eq_true (keys.listed x member h)⟩
  constructor
  · rw [cluonFilter_keep uninit nonempty fits]
    congr 4
    apply List.filter_congr
    intro x member
    rw [keys.represented x member, same x member, Bool.true_and]
  · rw [cluonFilter_drop uninit nonempty fits]
    congr 4
    apply List.filter_congr
    intro x member
    rw [keys.represented x member, same x member, Bool.true_and]

/-- **Keep and drop partition the stream** exactly when the numbers are represented and each eligible
envelope that is named is named by its key. -/
theorem partitions_iff (nonempty : L ≠ []) (fits : ∀ e ∈ es, FitsFrame e) :
    Partitions uninit L o es ↔ ListsKeys L o es :=
  ⟨listsKeys_of_partitions uninit nonempty fits, partitions_of_listsKeys uninit nonempty fits⟩

/-- An envelope with the given message identifier and sender stamp. -/
def envelope (dataType senderStamp : BitVec 32) : Envelope.Values :=
  (dataType, [], TimeStamp.of 0 0, TimeStamp.of 0 0, TimeStamp.of 1 0, senderStamp, ())

theorem fitsFrame_envelope (dataType senderStamp : BitVec 32) :
    FitsFrame (envelope dataType senderStamp) :=
  fitsFrame_of_length (by simp [Envelope.serializedData, envelope])

/-- No options. -/
def noOptions : Options := ⟨none, none, none, 0, 0, 2 ^ 31 - 1, rfl, rfl, rfl⟩

theorem partitions_two :
    Partitions (fun _ => 0) [⟨asciiBytes "19", some (asciiBytes "0"), by decide, by decide⟩]
      noOptions [envelope 19 0, envelope 25 1] :=
  (partitions_iff (fun _ => 0) (List.cons_ne_nil _ _) (by simp [fitsFrame_envelope])).mpr
    ⟨by decide, by decide⟩

/-- An entry without a sender stamp. -/
theorem not_partitions :
    ¬ Partitions (fun _ => 0) [⟨asciiBytes "19", none, by decide, by simp⟩] noOptions
      [envelope 19 0] := by
  intro partitions
  have keys := listsKeys_of_partitions (fun _ => 0) (List.cons_ne_nil _ _)
    (by simp [fitsFrame_envelope]) partitions
  have listed := keys.listed (envelope 19 0, 1) List.mem_cons_self (by decide)
  revert listed
  decide

end Cluon.CluonFilter
