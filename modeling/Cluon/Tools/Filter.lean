import Cluon.Recording.Index
import Cluon.Specification.MessageParser

/-!
# Filtering envelopes

`cluon_filter` reads the envelopes of a stream and writes some of them to another one. The
envelopes to keep, or those to drop, are listed by their message identifier and their sender stamp.
The first envelopes may be skipped, and only those sampled in an interval of seconds are written.

On a stream of frames the loop deals with the envelopes one after the other
(`whileGood_filterBody`).
-/

set_option autoImplicit false

namespace Cluon

open Library InputStream

namespace CluonFilter

/-- The values of the options in the map of command line arguments. -/
structure CommandlineArguments where
  keep : Option Bytes
  drop : Option Bytes
  skip : Option Bytes
  start : Option Bytes
  endTime : Option Bytes
  exit : Bool
  deriving DecidableEq, Repr

def comma : Byte := 0x2C

def slash : Byte := 0x2F

/-- An entry of a list; invalid ones are not used. -/
def addEntry (m : KeyValueMap Bytes Bool) (e : Bytes) : KeyValueMap Bytes Bool :=
  if e.length ≠ 0 then
    let l := stringtoolbox.split e slash
    m.assign (e ++ if l.length = 0 then asciiBytes "/0" else []) true
  else m

/-- `mapOfEnvelopesToKeep` and `mapOfEnvelopesToDrop` for the value of the option. -/
def mapOfEnvelopes (option : Option Bytes) : KeyValueMap Bytes Bool :=
  (stringtoolbox.split (option.getD [] ++ [comma]) comma).foldl addEntry []

/-- What does not change in the loop. -/
structure Settings where
  mapOfEnvelopesToKeep : KeyValueMap Bytes Bool
  mapOfEnvelopesToDrop : KeyValueMap Bytes Bool
  skip : BitVec 32
  start : BitVec 32
  isRelativeEnd : Bool
  exit : Bool
  deriving DecidableEq, Repr

/-- What the loop changes, and what has been written. -/
structure State where
  output : Bytes
  counter : BitVec 32
  endTime : BitVec 32
  endInitialized : Bool
  deriving DecidableEq, Repr

/-- `cluon::data::PlayerStatus::ID()`. -/
def playerStatusID : BitVec 32 := 10

/-- Envelopes of other types are ignored. -/
def isCounted (env : Envelope.Values) : Bool :=
  decide (0 < (Envelope.dataType env).toInt) && decide (Envelope.dataType env ≠ playerStatusID)

/-- `sstr << retVal.second.dataType() << "/" << retVal.second.senderStamp()`. -/
def key (env : Envelope.Values) : Bytes :=
  decimalInt (Envelope.dataType env).toInt ++ slash :: decimal (Envelope.senderStamp env).toNat

/-- The seconds of the sample time stamp. -/
def sampled (env : Envelope.Values) : BitVec 32 := TimeStamp.seconds (Envelope.sampleTimeStamp env)

/-- The end of the interval if it is relative: it is set once. -/
def initializeEnd (settings : Settings) (s : State) (env : Envelope.Values) : State :=
  if settings.isRelativeEnd && !s.endInitialized then
    { s with
      endInitialized := true
      endTime := s.endTime + if 0 < settings.start.toInt then settings.start else sampled env }
  else s

/-- An envelope within the interval. -/
def write (settings : Settings) (output : Bytes) (env : Envelope.Values) : Bytes :=
  let str := key env
  let (output, str) :=
    if 0 < settings.mapOfEnvelopesToKeep.length ∧ 0 < settings.mapOfEnvelopesToKeep.count str then
      (output ++ serializeEnvelope env, serializeEnvelope env)
    else (output, str)
  -- The envelope has not been moved yet, as one of the maps is empty.
  if 0 < settings.mapOfEnvelopesToDrop.length ∧ settings.mapOfEnvelopesToDrop.count str = 0 then
    output ++ serializeEnvelope env
  else output

/-- What is done with an envelope, and whether the program exits. -/
def filterEnvelope (settings : Settings) (s : State) (env : Envelope.Values) : State × Bool :=
  if isCounted env then
    let s := { s with counter := s.counter + 1 }
    if settings.skip < s.counter then
      let s := initializeEnd settings s env
      let s :=
        if settings.start.toInt < (sampled env).toInt ∧ (sampled env).toInt < s.endTime.toInt then
          { s with output := write settings s.output env }
        else s
      (s, decide (¬ (sampled env).toInt < s.endTime.toInt) && settings.exit)
    else (s, false)
  else (s, false)

/-- The body of the loop; it is left when no data are found and when the program exits. -/
def filterBody (uninit : Nat → Byte) (settings : Settings) : Body State := fun s is =>
  let ((foundData, env), is) := extractEnvelope uninit is
  let (s, exits) := filterEnvelope settings s env
  (foundData && !exits, s, is)

/-- The value of an option that is a number; `std::stoi` may throw an exception. -/
def intOption (option : Option Bytes) (otherwise : Int) : Option Int :=
  match option with
  | some text => MessageParser.stoi text
  | none => some otherwise

/-- `END_TMP.at(0) == '+'`. -/
def isRelative (option : Option Bytes) : Bool :=
  match option with
  | some text => decide (text.head? = some 0x2B)
  | none => false

end CluonFilter

open CluonFilter

/-- `cluon_filter(argc, argv)`: the returned value and the output; no result if an exception ends
the program. The standard input is good at first, so the condition of the loop may be checked before
its body. -/
def cluonFilter (uninit : Nat → Byte) (commandlineArguments : CommandlineArguments)
    (stdin : Bytes) : Option (Int × Bytes) :=
  if commandlineArguments.keep.isSome = commandlineArguments.drop.isSome then some (1, [])
  else do
    let skip ← intOption commandlineArguments.skip 0
    let start ← intOption commandlineArguments.start 0
    let endTime ← intOption commandlineArguments.endTime (2 ^ 31 - 1)
    let settings : Settings :=
      { mapOfEnvelopesToKeep := mapOfEnvelopes commandlineArguments.keep
        mapOfEnvelopesToDrop := mapOfEnvelopes commandlineArguments.drop
        skip := BitVec.ofInt 32 skip
        start := BitVec.ofInt 32 start
        isRelativeEnd := isRelative commandlineArguments.endTime
        exit := commandlineArguments.exit }
    let s : State := ⟨[], 0, BitVec.ofInt 32 endTime, false⟩
    return (0, (whileGood (filterBody uninit settings) s (ofBytes stdin)).1.output)

namespace CluonFilter

variable (uninit : Nat → Byte) (settings : Settings)

/-! ## The loop -/

theorem consumes_filterBody : Consumes (filterBody uninit settings) := by
  intro s is hg _ good
  exact Player.extractEnvelope_shortens uninit hg good

theorem filterEnvelope_of_not_isCounted {env : Envelope.Values} (ignored : isCounted env = false)
    (s : State) : filterEnvelope settings s env = (s, false) := by
  rw [filterEnvelope, ignored, if_neg Bool.false_ne_true]

/-- Without the option the program does not exit. -/
theorem filterEnvelope_stays {settings : Settings} (stays : settings.exit = false) (s : State)
    (env : Envelope.Values) : (filterEnvelope settings s env).2 = false := by
  simp only [filterEnvelope, stays, Bool.and_false]
  split
  · split <;> rfl
  · rfl

/-- The state after some envelopes. -/
def afterEnvelopes (s : State) (es : List Envelope.Values) : State :=
  es.foldl (fun s env => (filterEnvelope settings s env).1) s

/-- At the end of the stream nothing is found. -/
theorem filterBody_nil {is : InputStream} (hg : is.good) (hr : is.rest = []) (s : State) :
    filterBody uninit settings s is = (false, s, is.exhausted) := by
  have short := read_short (n := 5) hg (by rw [hr]; exact Nat.zero_lt_succ _)
  have nothing : extractEnvelope uninit is = ((false, Envelope.initial), is.exhausted) := by
    rw [extractEnvelope, if_pos hg]
    simp only [short, hr]
    rfl
  have ignored : filterEnvelope settings s Envelope.initial = (s, false) :=
    filterEnvelope_of_not_isCounted settings rfl s
  simp only [filterBody, nothing, ignored, Bool.false_and]

/-- **The envelopes of a stream are dealt with one after the other.** -/
theorem whileGood_filterBody {settings : Settings} (stays : settings.exit = false)
    (es : List Envelope.Values) (fits : ∀ e ∈ es, FitsFrame e) :
    ∀ (s : State) (is : InputStream), is.good → is.rest = serializeEnvelopes es →
      (whileGood (filterBody uninit settings) s is).1 = afterEnvelopes settings s es := by
  induction es with
  | nil =>
      intro s is hg hr
      rw [whileGood_break (consumes_filterBody uninit settings) hg
        (filterBody_nil uninit settings hg hr s)]
      rfl
  | cons e es ih =>
      intro s is hg hr
      obtain ⟨fitsFirst, fitsOthers⟩ := List.forall_mem_cons.mp fits
      have found := extractEnvelope_frame uninit fitsFirst hg hr
      have round : filterBody uninit settings s is = (true, (filterEnvelope settings s e).1,
          is.advance (serializeEnvelope e).length) := by
        rw [filterBody, found]
        simp only [filterEnvelope_stays stays, Bool.not_false, Bool.and_self]
      rw [whileGood_again (consumes_filterBody uninit settings) hg round]
      exact ih fitsOthers _ _ (good_advance_of hg _) (rest_advance_append hr)

/-! ## What is written -/

/-- The counted envelopes with their numbers; `n` envelopes have been counted before. -/
def numbered (n : Nat) (es : List Envelope.Values) : List (Envelope.Values × Nat) :=
  (es.filter isCounted).zipIdx (n + 1)

/-- An envelope is not skipped, by the value of the counter. -/
def passes (x : Envelope.Values × Nat) : Bool := decide (settings.skip < BitVec.ofNat 32 x.2)

/-- An envelope is not skipped and within the interval. -/
def inside (endTime : BitVec 32) (x : Envelope.Values × Nat) : Bool :=
  passes settings x && decide (settings.start.toInt < (sampled x.1).toInt) &&
    decide ((sampled x.1).toInt < endTime.toInt)

/-- The end of the interval is still to be set. -/
def unsettled (s : State) : Bool := settings.isRelativeEnd && !s.endInitialized

/-- The end of the interval behind some envelopes. -/
def settledEnd (s : State) (xs : List (Envelope.Values × Nat)) : BitVec 32 :=
  match xs.find? (passes settings) with
  | some x => (initializeEnd settings s x.1).endTime
  | none => s.endTime

theorem numbered_cons_of_isCounted {e : Envelope.Values} (counted : isCounted e) (n : Nat)
    (es : List Envelope.Values) : numbered n (e :: es) = (e, n + 1) :: numbered (n + 1) es := by
  rw [numbered, List.filter_cons_of_pos counted, List.zipIdx_cons]
  rfl

theorem numbered_cons_of_not_isCounted {e : Envelope.Values} (ignored : isCounted e = false)
    (n : Nat) (es : List Envelope.Values) : numbered n (e :: es) = numbered n es := by
  rw [numbered, List.filter_cons_of_neg (by rw [ignored]; exact Bool.false_ne_true)]
  rfl

variable {settings}

theorem initializeEnd_of_settled {s : State} (settled : unsettled settings s = false)
    (env : Envelope.Values) : initializeEnd settings s env = s := by
  rw [unsettled] at settled
  rw [initializeEnd, settled, if_neg Bool.false_ne_true]

theorem unsettled_initializeEnd (s : State) (env : Envelope.Values) :
    unsettled settings (initializeEnd settings s env) = false := by
  rw [initializeEnd]
  split
  · simp only [unsettled, Bool.not_true, Bool.and_false]
  · rename_i settled
    exact Bool.eq_false_iff.mpr settled

@[simp] theorem counter_initializeEnd (s : State) (env : Envelope.Values) :
    (initializeEnd settings s env).counter = s.counter := by
  rw [initializeEnd]
  split <;> rfl

@[simp] theorem output_initializeEnd (s : State) (env : Envelope.Values) :
    (initializeEnd settings s env).output = s.output := by
  rw [initializeEnd]
  split <;> rfl

theorem counter_succ {s : State} {n : Nat} (counter : s.counter = BitVec.ofNat 32 n) :
    s.counter + 1 = BitVec.ofNat 32 (n + 1) := by
  rw [counter]
  exact (BitVec.ofNat_add n 1).symm

/-- The end of the interval does not depend on the counter. -/
theorem initializeEnd_counter (s : State) (c : BitVec 32) (env : Envelope.Values) :
    initializeEnd settings { s with counter := c } env =
      { initializeEnd settings s env with counter := c } := by
  simp only [initializeEnd]
  split <;> rfl

theorem settledEnd_counter (s : State) (c : BitVec 32) (xs : List (Envelope.Values × Nat)) :
    settledEnd settings { s with counter := c } xs = settledEnd settings s xs := by
  simp only [settledEnd, initializeEnd_counter]

/-- **One envelope**, while envelopes are skipped. -/
theorem filterEnvelope_skipped {s : State} {n : Nat} (counter : s.counter = BitVec.ofNat 32 n)
    {e : Envelope.Values} (counted : isCounted e) (skipped : passes settings (e, n + 1) = false) :
    (filterEnvelope settings s e).1 = { s with counter := BitVec.ofNat 32 (n + 1) } := by
  have less : ¬ settings.skip < BitVec.ofNat 32 (n + 1) := of_decide_eq_false skipped
  simp only [filterEnvelope, counted, if_true, counter_succ counter, if_neg less]

/-- **One envelope** that is not skipped. -/
theorem filterEnvelope_passes {s : State} {n : Nat} (counter : s.counter = BitVec.ofNat 32 n)
    {e : Envelope.Values} (counted : isCounted e) (through : passes settings (e, n + 1)) :
    (filterEnvelope settings s e).1 =
      { initializeEnd settings s e with
        counter := BitVec.ofNat 32 (n + 1)
        output :=
          if inside settings (initializeEnd settings s e).endTime (e, n + 1) then
            write settings s.output e
          else s.output } := by
  have less : settings.skip < BitVec.ofNat 32 (n + 1) := of_decide_eq_true through
  simp only [filterEnvelope, counted, if_true, counter_succ counter, if_pos less, inside, through,
    Bool.true_and, Bool.and_eq_true, decide_eq_true_eq, initializeEnd_counter,
    output_initializeEnd]
  split
  · rfl
  · have same : (initializeEnd settings s e).output = s.output := output_initializeEnd s e
    rw [← same]

section Output

variable {p : Envelope.Values → Bool}
  (writes : ∀ output env,
    write settings output env = output ++ if p env then serializeEnvelope env else [])
include writes

/-- The envelopes that are written as long as the end of the interval does not change. -/
theorem output_of_settled (es : List Envelope.Values) :
    ∀ (s : State) (n : Nat), s.counter = BitVec.ofNat 32 n → unsettled settings s = false →
      (afterEnvelopes settings s es).output = s.output ++
        serializeEnvelopes (((numbered n es).filter fun x =>
          inside settings s.endTime x && p x.1).map Prod.fst) := by
  induction es with
  | nil =>
      intro s n _ _
      exact (List.append_nil s.output).symm
  | cons e es ih =>
      intro s n counter settled
      rw [afterEnvelopes, List.foldl_cons]
      rcases counted : isCounted e with _ | _
      · rw [filterEnvelope_of_not_isCounted settings counted, numbered_cons_of_not_isCounted counted]
        exact ih s n counter settled
      · rw [numbered_cons_of_isCounted counted, List.filter_cons]
        rcases through : passes settings (e, n + 1) with _ | _
        · rw [filterEnvelope_skipped counter counted through]
          simp only [inside, through, Bool.false_and, Bool.false_eq_true, if_false]
          exact ih { s with counter := BitVec.ofNat 32 (n + 1) } (n + 1) rfl settled
        · rw [filterEnvelope_passes counter counted through, initializeEnd_of_settled settled]
          refine (ih { s with counter := BitVec.ofNat 32 (n + 1), output := _ } (n + 1) rfl
            settled).trans ?_
          rcases within : inside settings s.endTime (e, n + 1) with _ | _
          · simp only [Bool.false_and, Bool.false_eq_true, if_false]
          · rw [if_pos rfl, writes, Bool.true_and]
            split
            · rw [List.map_cons, serializeEnvelopes_cons, ← List.append_assoc]
            · rw [List.append_nil]

/-- **What is written**: the envelopes that are counted, not skipped, within the interval, and
selected by the maps. -/
theorem output_afterEnvelopes (es : List Envelope.Values) :
    ∀ (s : State) (n : Nat), s.counter = BitVec.ofNat 32 n →
      (afterEnvelopes settings s es).output = s.output ++
        serializeEnvelopes (((numbered n es).filter fun x =>
          inside settings (settledEnd settings s (numbered n es)) x && p x.1).map Prod.fst) := by
  induction es with
  | nil =>
      intro s n _
      exact (List.append_nil s.output).symm
  | cons e es ih =>
      intro s n counter
      rcases counted : isCounted e with _ | _
      · rw [afterEnvelopes, List.foldl_cons, filterEnvelope_of_not_isCounted settings counted,
          numbered_cons_of_not_isCounted counted]
        exact ih s n counter
      · rcases through : passes settings (e, n + 1) with _ | _
        · have first : settledEnd settings s (numbered n (e :: es)) =
              settledEnd settings s (numbered (n + 1) es) := by
            rw [numbered_cons_of_isCounted counted, settledEnd,
              List.find?_cons_of_neg (by rw [through]; exact Bool.false_ne_true)]
            rfl
          rw [afterEnvelopes, List.foldl_cons, filterEnvelope_skipped counter counted through, first,
            numbered_cons_of_isCounted counted, List.filter_cons]
          simp only [inside, through, Bool.false_and, Bool.false_eq_true, if_false]
          have others := ih { s with counter := BitVec.ofNat 32 (n + 1) } (n + 1) rfl
          rw [settledEnd_counter] at others
          exact others
        · -- From here on the end of the interval is known, so it may be set before.
          have first : settledEnd settings s (numbered n (e :: es)) =
              (initializeEnd settings s e).endTime := by
            rw [numbered_cons_of_isCounted counted, settledEnd, List.find?_cons_of_pos through]
          have settled : unsettled settings (initializeEnd settings s e) = false :=
            unsettled_initializeEnd s e
          have output : (initializeEnd settings s e).output = s.output := output_initializeEnd s e
          have same : (filterEnvelope settings s e).1 =
              (filterEnvelope settings (initializeEnd settings s e) e).1 := by
            rw [filterEnvelope_passes counter counted through,
              filterEnvelope_passes ((counter_initializeEnd s e).trans counter) counted through,
              initializeEnd_of_settled settled, output_initializeEnd]
          rw [first, ← output]
          rw [← output_of_settled writes (e :: es) (initializeEnd settings s e) n
            ((counter_initializeEnd s e).trans counter) settled]
          rw [afterEnvelopes, afterEnvelopes, List.foldl_cons, List.foldl_cons, same]

end Output

end CluonFilter

end Cluon
