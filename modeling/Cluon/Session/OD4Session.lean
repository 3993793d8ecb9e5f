import Cluon.Library.KeyValueMap
import Cluon.Recording.Envelope
import Mathlib.Data.List.Induction

/-!
# Sessions

An OpenDaVINCI v4 session receives datagrams, each of which is a frame around an envelope, and
hands the envelopes over to delegates: to the delegate that the session was created with, or
else to the delegate that was registered for the data type of the envelope.

`dispatches_iff` says what registrations do over a whole run: envelopes always go to the
delegate whose registration was the last one of their data type. The keys of the registration
map are the identifiers with a delegate if and only if no registration is removed that is not
there, because the removal then stores an empty delegate.
-/

set_option autoImplicit false

namespace Cluon

open Library InputStream

namespace time

/-- `convert(tp)`, for a time point in nanoseconds. -/
def convert (tp : Int) : TimeStamp.Values :=
  let s : BitVec 32 := BitVec.ofInt 32 (tp.tdiv 1000000000)
  let us := tp.tdiv 1000
  let partial_us := us - s.toInt * 1000000
  TimeStamp.of s (BitVec.ofInt 32 partial_us)

end time

/-- `env.received(ts)`. -/
def Envelope.setReceived (env : Envelope.Values) (ts : TimeStamp.Values) : Envelope.Values :=
  (env.1, env.2.1, env.2.2.1, ts, env.2.2.2.2)

@[simp] theorem Envelope.dataType_setReceived (env : Envelope.Values) (ts : TimeStamp.Values) :
    Envelope.dataType (Envelope.setReceived env ts) = Envelope.dataType env := rfl

/-- The members of a session that decide where envelopes go. A `std::function` may be empty. -/
structure OD4Session (Delegate : Type) where
  delegate : Option Delegate
  mapOfDataTriggeredDelegates : KeyValueMap (BitVec 32) (Option Delegate)

namespace OD4Session

variable {Delegate : Type}

/-- The constructor. -/
def construct (delegate : Option Delegate) : OD4Session Delegate := ⟨delegate, []⟩

/-- `dataTrigger(messageIdentifier, delegate)`. -/
def dataTrigger (s : OD4Session Delegate) (messageIdentifier : BitVec 32)
    (delegate : Option Delegate) : Bool × OD4Session Delegate :=
  if s.delegate.isNone then
    if delegate.isNone ∧ 0 < s.mapOfDataTriggeredDelegates.count messageIdentifier then
      (true, { s with mapOfDataTriggeredDelegates :=
        s.mapOfDataTriggeredDelegates.erase messageIdentifier })
    else
      (true, { s with mapOfDataTriggeredDelegates :=
        s.mapOfDataTriggeredDelegates.assign messageIdentifier delegate })
  else (false, s)

section Callback

variable (uninit : Nat → Byte)

/-- `callback(data, from, timepoint)`: the delegates that are called, each with its envelope. -/
def callback (s : OD4Session Delegate) (data : Bytes) (timepoint : Int) :
    List (Delegate × Envelope.Values) :=
  let numberOfDataTriggeredDelegates := s.mapOfDataTriggeredDelegates.length
  if s.delegate.isSome ∨ 0 < numberOfDataTriggeredDelegates then
    let retVal := (extractEnvelope uninit (ofBytes data)).1
    if retVal.1 then
      let env := Envelope.setReceived retVal.2 (time.convert timepoint)
      match s.delegate with
      | some delegate => [(delegate, env)]
      | none =>
          if 0 < s.mapOfDataTriggeredDelegates.count (Envelope.dataType env) then
            -- A call of an empty delegate throws, and the exception is caught.
            match (s.mapOfDataTriggeredDelegates.getOrInsert (Envelope.dataType env) none).1 with
            | some delegate => [(delegate, env)]
            | none => []
          else []
    else []
  else []

/-! ## Runs -/

/-- What happens to a session. -/
inductive Event (Delegate : Type) where
  | dataTrigger (messageIdentifier : BitVec 32) (delegate : Option Delegate)
  | datagram (data : Bytes) (timepoint : Int)

/-- The session after an event. -/
def next (s : OD4Session Delegate) : Event Delegate → OD4Session Delegate
  | .dataTrigger messageIdentifier delegate => (s.dataTrigger messageIdentifier delegate).2
  | .datagram _ _ => s

/-- The session that was created with a delegate, after several events. -/
def after (catchAll : Option Delegate) (events : List (Event Delegate)) : OD4Session Delegate :=
  events.foldl next (construct catchAll)

/-- The delegate of the latest registration for an identifier, if that was not a removal. -/
def latest (events : List (Event Delegate)) (messageIdentifier : BitVec 32) : Option Delegate :=
  events.foldl (fun found event =>
    match event with
    | .dataTrigger id delegate => if id = messageIdentifier then delegate else found
    | .datagram _ _ => found) none

/-- The envelope that a datagram decodes to, received at the time point. -/
def decoded (data : Bytes) (timepoint : Int) : Option Envelope.Values :=
  let retVal := (extractEnvelope uninit (ofBytes data)).1
  if retVal.1 then some (Envelope.setReceived retVal.2 (time.convert timepoint)) else none

/-- What is expected of a run: a delegate for all envelopes excludes registrations and gets
every envelope once; otherwise the delegate of the latest registration for its data type gets an
envelope once, and the keys of the map are the identifiers that have such a delegate. -/
structure Dispatches (catchAll : Option Delegate) (events : List (Event Delegate)) : Prop where
  refuses : ∀ before, before <+: events → ∀ d, catchAll = some d → ∀ messageIdentifier delegate,
    (after catchAll before).dataTrigger messageIdentifier delegate =
      (false, after catchAll before)
  catchesAll : ∀ before, before <+: events → ∀ d, catchAll = some d → ∀ data timepoint,
    (after catchAll before).callback uninit data timepoint =
      ((decoded uninit data timepoint).map fun env => (d, env)).toList
  delivers : ∀ before, before <+: events → catchAll = none → ∀ data timepoint,
    (after catchAll before).callback uninit data timepoint =
      ((decoded uninit data timepoint).bind fun env =>
        (latest before (Envelope.dataType env)).map fun d => (d, env)).toList
  keys : ∀ before, before <+: events → catchAll = none → ∀ messageIdentifier,
    ((after catchAll before).mapOfDataTriggeredDelegates.find messageIdentifier).isSome ↔
      (latest before messageIdentifier).isSome

end Callback

/-! ## Registrations -/

theorem after_append (catchAll : Option Delegate) (events : List (Event Delegate))
    (event : Event Delegate) :
    after catchAll (events ++ [event]) = (after catchAll events).next event := by
  rw [after, List.foldl_append]
  rfl

theorem latest_dataTrigger (events : List (Event Delegate)) (id : BitVec 32)
    (delegate : Option Delegate) (messageIdentifier : BitVec 32) :
    latest (events ++ [.dataTrigger id delegate]) messageIdentifier =
      if id = messageIdentifier then delegate else latest events messageIdentifier := by
  rw [latest, List.foldl_append]
  rfl

theorem latest_datagram (events : List (Event Delegate)) (data : Bytes) (timepoint : Int)
    (messageIdentifier : BitVec 32) :
    latest (events ++ [.datagram data timepoint]) messageIdentifier =
      latest events messageIdentifier := by
  rw [latest, List.foldl_append]
  rfl

/-- What a registration does to the map. -/
theorem find_dataTrigger {s : OD4Session Delegate} (none : s.delegate = none) (id : BitVec 32)
    (delegate : Option Delegate) (messageIdentifier : BitVec 32) :
    (s.dataTrigger id delegate).2.mapOfDataTriggeredDelegates.find messageIdentifier =
      if id = messageIdentifier then
        if delegate.isNone ∧ (s.mapOfDataTriggeredDelegates.find id).isSome then .none
        else some delegate
      else s.mapOfDataTriggeredDelegates.find messageIdentifier := by
  have triggered : s.delegate.isNone := by rw [none]; rfl
  rw [dataTrigger, if_pos triggered]
  simp only [KeyValueMap.count_pos]
  by_cases removes : delegate.isNone ∧ (s.mapOfDataTriggeredDelegates.find id).isSome
  · rw [if_pos removes, if_pos removes, KeyValueMap.find_erase]
  · rw [if_neg removes, if_neg removes, KeyValueMap.find_assign]

/-- No event changes the delegate for all envelopes. -/
theorem delegate_after (catchAll : Option Delegate) (events : List (Event Delegate)) :
    (after catchAll events).delegate = catchAll := by
  induction events using List.reverseRecOn with
  | nil => rfl
  | append_singleton events event ih =>
      rw [after_append]
      cases event with
      | datagram => exact ih
      | dataTrigger id delegate =>
          rw [next, dataTrigger]
          split
          · split <;> exact ih
          · exact ih

/-- **A key has the delegate of its latest registration**, and what has a delegate is a key. -/
theorem find_after (events : List (Event Delegate)) (messageIdentifier : BitVec 32) :
    ((after none events).mapOfDataTriggeredDelegates.find messageIdentifier).join =
      latest events messageIdentifier := by
  induction events using List.reverseRecOn with
  | nil => rfl
  | append_singleton events event ih =>
      rw [after_append]
      cases event with
      | datagram => rw [latest_datagram]; exact ih
      | dataTrigger id delegate =>
          rw [next, latest_dataTrigger, find_dataTrigger (delegate_after none events)]
          split
          · split
            · rename_i removes
              rw [Option.isNone_iff_eq_none.mp removes.1]
              rfl
            · rfl
          · exact ih

/-- An identifier with a delegate is a key. -/
theorem isSome_find_of_latest {events : List (Event Delegate)} {messageIdentifier : BitVec 32}
    (registered : (latest events messageIdentifier).isSome) :
    ((after none events).mapOfDataTriggeredDelegates.find messageIdentifier).isSome := by
  rw [← find_after] at registered
  cases found : (after none events).mapOfDataTriggeredDelegates.find messageIdentifier with
  | none => rw [found] at registered; cases registered
  | some delegate => rfl

/-! ## Envelopes -/

section Callback

variable (uninit : Nat → Byte)

theorem callback_catchAll {s : OD4Session Delegate} {d : Delegate} (catchAll : s.delegate = some d)
    (data : Bytes) (timepoint : Int) :
    s.callback uninit data timepoint =
      ((decoded uninit data timepoint).map fun env => (d, env)).toList := by
  have unpacks : s.delegate.isSome ∨ 0 < s.mapOfDataTriggeredDelegates.length :=
    .inl (by rw [catchAll]; rfl)
  simp only [callback, decoded]
  rw [if_pos unpacks]
  simp only [catchAll]
  split <;> rfl

theorem callback_dataTriggered {s : OD4Session Delegate} (triggered : s.delegate = none)
    (data : Bytes) (timepoint : Int) :
    s.callback uninit data timepoint =
      ((decoded uninit data timepoint).bind fun env =>
        (s.mapOfDataTriggeredDelegates.find (Envelope.dataType env)).join.map
          fun d => (d, env)).toList := by
  simp only [callback, decoded]
  by_cases some : s.delegate.isSome ∨ 0 < s.mapOfDataTriggeredDelegates.length
  · rw [if_pos some]
    split
    · rw [triggered, Option.bind_some]
      simp only [KeyValueMap.count_pos, KeyValueMap.getOrInsert]
      cases s.mapOfDataTriggeredDelegates.find _ with
      | none => rfl
      | some delegate => cases delegate <;> rfl
    · rfl
  · have empty : s.mapOfDataTriggeredDelegates = [] :=
      List.length_eq_zero_iff.mp (Nat.eq_zero_of_not_pos fun h => some (.inr h))
    rw [if_neg some, empty]
    split <;> rfl

/-! ## Whole runs -/

/-- A registration is removed only if it is there. -/
def RemovesRegistered (events : List (Event Delegate)) : Prop :=
  ∀ before messageIdentifier after, events = before ++ .dataTrigger messageIdentifier none :: after →
    (latest before messageIdentifier).isSome

/-- **The keys are the identifiers with a delegate** while registrations are removed only if
they are there. -/
theorem isSome_find_after {events : List (Event Delegate)} (regular : RemovesRegistered events)
    (messageIdentifier : BitVec 32) :
    ((after none events).mapOfDataTriggeredDelegates.find messageIdentifier).isSome ↔
      (latest events messageIdentifier).isSome := by
  induction events using List.reverseRecOn with
  | nil => exact Iff.rfl
  | append_singleton events event ih =>
      have before : RemovesRegistered events := fun b id a split =>
        regular b id (a ++ [event]) (by rw [split, List.append_assoc, List.cons_append])
      rw [after_append]
      cases event with
      | datagram => rw [latest_datagram]; exact ih before
      | dataTrigger id delegate =>
          rw [next, latest_dataTrigger, find_dataTrigger (delegate_after none events)]
          by_cases here : id = messageIdentifier
          · rw [if_pos here, if_pos here]
            cases delegate with
            | some d => exact Iff.rfl
            | none =>
                have there := isSome_find_of_latest (regular events id [] rfl)
                rw [if_pos ⟨rfl, there⟩]
                exact Iff.rfl
          · rw [if_neg here, if_neg here]
            exact ih before

/-- **Envelopes go to the delegate of the latest registration of their data type, and the keys of
the map are the identifiers with a delegate, in a run if and only if** the session was created
with a delegate or registrations are removed only if they are there. -/
theorem dispatches_iff (catchAll : Option Delegate) (events : List (Event Delegate)) :
    Dispatches uninit catchAll events ↔ catchAll.isSome ∨ RemovesRegistered events := by
  constructor
  · intro dispatches
    cases catchAll with
    | some d => exact .inl rfl
    | none =>
        refine .inr fun before id rest split => ?_
        -- A removal without a registration makes the identifier a key.
        have reached : before ++ [.dataTrigger id none] <+: events :=
          ⟨rest, by rw [split, List.append_assoc, List.singleton_append]⟩
        have keys := dispatches.keys _ reached rfl id
        rw [after_append, next, latest_dataTrigger, if_pos rfl,
          find_dataTrigger (delegate_after none before), if_pos rfl] at keys
        have earlier := dispatches.keys before ⟨_, split.symm⟩ rfl id
        by_contra unregistered
        have absent : ¬ ((none : Option Delegate).isNone ∧
            ((after none before).mapOfDataTriggeredDelegates.find id).isSome) :=
          fun h => unregistered (earlier.mp h.2)
        rw [if_neg absent] at keys
        exact absurd (keys.mp rfl) Bool.false_ne_true
  · intro condition
    refine ⟨fun before _ d created id delegate => ?_, fun before _ d created => ?_,
      fun before _ created => ?_, fun before reached created id => ?_⟩
    · have refused : ¬ (after catchAll before).delegate.isNone := by
        rw [delegate_after, created]
        exact Bool.false_ne_true
      rw [dataTrigger, if_neg refused]
    · exact callback_catchAll uninit ((delegate_after catchAll before).trans created)
    · intro data timepoint
      subst created
      rw [callback_dataTriggered uninit (delegate_after none before)]
      simp only [find_after]
    · subst created
      obtain ⟨rest, rfl⟩ := reached
      refine isSome_find_after (fun b id a split => ?_) id
      refine (condition.resolve_left Bool.false_ne_true) b id (a ++ rest) ?_
      rw [split, List.append_assoc, List.cons_append]

/-- **The removal of a registration that is not there** makes its identifier a key, with an empty
delegate. -/
theorem dispatches_not :
    latest [(.dataTrigger 7 none : Event Unit)] 7 = none ∧
      (after none [(.dataTrigger 7 none : Event Unit)]).mapOfDataTriggeredDelegates =
        [(7, none)] ∧
      ¬ Dispatches (fun _ => 0) none [(.dataTrigger 7 none : Event Unit)] := by
  refine ⟨rfl, rfl, fun dispatches => ?_⟩
  have keys := dispatches.keys _ (List.prefix_refl _) rfl 7
  exact absurd (keys.mp rfl) Bool.false_ne_true

end Callback

end OD4Session

end Cluon
