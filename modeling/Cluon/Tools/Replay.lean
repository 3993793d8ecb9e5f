import Cluon.Recording.Cursor

/-!
# The tool `cluon-replay`

`cluon-replay` relays the envelopes of a recording, and is remotely controlled by commands: to play,
to pause, to seek, and to step. A command arrives in the thread of the session, which stores it
under a mutex, and sets a flag behind it. The loop that relays the envelopes looks at the flag once
in each round, obeys the command that is stored, and resets the flag under the mutex.

The tool is to relay what a cursor into the recording returns, under the control of the commands
that were obeyed (`Control.run`).

The recording is replayed without delays here (`--nodelay`), so that the player has no background
thread; with one, the tool can also relay envelopes that are not recorded. What is relayed is
printed to the standard output, and sent as long as the session is running. The status of the
player, which is only written, is left out.
-/

set_option autoImplicit false

namespace Cluon

open Library InputStream TransitionSystem

/-- `cluon.data.PlayerCommand`, with an exact number for the `float`. -/
structure PlayerCommand where
  command : BitVec 8
  seekTo : ℚ
  deriving DecidableEq

/-- Where the thread is that calls the delegate for commands. -/
inductive CommandThread where
  /-- outside the delegate -/
  | idle
  /-- the command is stored, and the mutex unlocked -/
  | stored
  deriving DecidableEq, Repr

/-- Where the loop is. -/
inductive ReplayLoop where
  /-- before the condition of the loop -/
  | head
  /-- before the check for a command -/
  | checkUpdate
  /-- obeying a command, with the mutex locked -/
  | obeying
  /-- before an envelope is relayed -/
  | relaying
  /-- there is no more data -/
  | ended
  /-- the session has been stopped -/
  | stopped
  deriving DecidableEq, Repr

/-- What the loop has done: it obeyed a command, with the number of it, or came to the place where
an envelope is relayed. -/
inductive ReplayEvent where
  | obeyed (k : Nat) (c : PlayerCommand)
  | passed
  deriving DecidableEq

/-- The tool, with the commands that were stored, what the loop has done, and the envelopes that
were relayed so far. -/
structure Replay where
  player : Player
  play : Bool
  step : Bool
  playerCommand : PlayerCommand
  playCommandUpdate : Bool
  commandThread : CommandThread
  loop : ReplayLoop
  commands : List PlayerCommand
  events : List ReplayEvent
  relayed : List Envelope.Values

namespace Replay

/-- The commands are numbered in the order in which they are stored. -/
def obeyed (events : List ReplayEvent) : List Nat :=
  events.filterMap fun
    | .obeyed k _ => some k
    | .passed => none

section Loop

variable (uninit : Nat → Byte) (entriesPerSecond : Multimap Int IndexEntry → BitVec 32) (fuel : Nat)

/-- The section of the loop in which the stored command is obeyed. -/
def obey (r : Replay) : Option Replay := do
  let c := r.playerCommand
  let r₁ := if c.command = 1 ∨ c.command = 2 then { r with play := decide (c.command ≠ 2) } else r
  let r₂ ←
    if c.command = 3 then
      (r₁.player.seekTo uninit entriesPerSecond fuel c.seekTo).map fun p => { r₁ with player := p }
    else some r₁
  return if c.command = 4 then { r₂ with play := false, step := true } else r₂

/-- The rest of a round: an envelope is relayed if playback is desired. -/
def relay (r : Replay) : Option Replay :=
  if r.play || r.step then do
    let (next, p) ← r.player.getNextEnvelopeToBeReplayed uninit entriesPerSecond fuel
    return { r with
      player := p
      step := false
      relayed := r.relayed ++ if next.1 then [next.2] else [] }
  else some { r with step := false }

/-- A step of one of the two threads. -/
inductive Step (keepRunning : Bool) : Replay → Replay → Prop where
  /-- a command arrives, and is stored while the mutex is locked -/
  | store {r : Replay} (c : PlayerCommand) : r.commandThread = .idle → r.loop ≠ .obeying →
      Step keepRunning r { r with
        playerCommand := c
        commandThread := .stored
        commands := r.commands ++ [c] }
  /-- the flag is set -/
  | setFlag {r : Replay} : r.commandThread = .stored →
      Step keepRunning r { r with playCommandUpdate := true, commandThread := .idle }
  /-- another round begins -/
  | enter {r : Replay} : r.loop = .head → (r.player.hasMoreData || keepRunning) = true →
      Step keepRunning r { r with loop := .checkUpdate }
  /-- there is no more data -/
  | leave {r : Replay} : r.loop = .head → (r.player.hasMoreData || keepRunning) = false →
      Step keepRunning r { r with loop := .ended }
  /-- the session is not running any longer -/
  | interrupt {r : Replay} : r.loop = .head → Step keepRunning r { r with loop := .stopped }
  /-- there is no command -/
  | noUpdate {r : Replay} : r.loop = .checkUpdate → r.playCommandUpdate = false →
      Step keepRunning r { r with loop := .relaying }
  -- A command that is stored between the two might as well have been stored before.
  /-- there is a command, and the mutex is locked -/
  | update {r : Replay} : r.loop = .checkUpdate → r.playCommandUpdate = true →
      Step keepRunning r { r with loop := .obeying }
  /-- the command is obeyed, and the flag is reset -/
  | obey {r r' : Replay} : r.loop = .obeying → r.obey uninit entriesPerSecond fuel = some r' →
      Step keepRunning r { r' with
        playCommandUpdate := false
        loop := .relaying
        events := r.events ++ [.obeyed (r.commands.length - 1) r.playerCommand] }
  /-- the rest of the round -/
  | relay {r r' : Replay} : r.loop = .relaying → r.relay uninit entriesPerSecond fuel = some r' →
      Step keepRunning r { r' with loop := .head, events := r.events ++ [.passed] }

/-- The tool, started on a file with `--nodelay`. -/
def system (keepRunning : Bool) (file : Bytes) : TransitionSystem Replay where
  init r := ∃ p, Player.construct uninit entriesPerSecond fuel (some file) false false = some p ∧
    r = {
      player := p
      play := true
      step := false
      playerCommand := ⟨0, 0⟩
      playCommandUpdate := false
      commandThread := .idle
      loop := .head
      commands := []
      events := []
      relayed := [] }
  step := Step uninit entriesPerSecond fuel keepRunning

end Loop

/-! ## A cursor under control -/

/-- A cursor that is played or paused. -/
structure Control where
  cursor : Nat
  play : Bool
  step : Bool
  deriving DecidableEq, Repr

namespace Control

/-- At the beginning, playing. -/
def initial : Control := ⟨0, true, false⟩

/-- What a command does to a cursor into `n` elements. -/
def obey (n : Nat) (c : PlayerCommand) (s : Control) : Control :=
  if c.command = 1 then { s with play := true }
  else if c.command = 2 then { s with play := false }
  else if c.command = 3 then { s with cursor := seekTarget n s.cursor c.seekTo }
  else if c.command = 4 then { s with play := false, step := true }
  else s

/-- A round: the next element is returned when playing, and for a step. -/
def pass {α : Type} (order : List α) (s : Control) : Option α × Control :=
  if s.play || s.step then
    let next := replayNext order false s.cursor
    (next.1, ⟨next.2, s.play, false⟩)
  else (none, { s with step := false })

/-- What has been returned, and the cursor, after one more event. -/
def after {α : Type} (order : List α) (returned : List α × Control) :
    ReplayEvent → List α × Control
  | .obeyed _ c => (returned.1, returned.2.obey order.length c)
  | .passed => (returned.1 ++ (returned.2.pass order).1.toList, (returned.2.pass order).2)

/-- What is returned under the control of events. -/
def run {α : Type} (order : List α) (events : List ReplayEvent) : List α × Control :=
  events.foldl (after order) ([], initial)

theorem run_append {α : Type} (order : List α) (events : List ReplayEvent) (e : ReplayEvent) :
    run order (events ++ [e]) = after order (run order events) e := by
  rw [run, List.foldl_append]
  rfl

/-- As long as no obeyed command seeks, everything before the cursor has been returned once. -/
theorem run_eq_take {α : Type} (order : List α) (events : List ReplayEvent) :
    (∀ k c, .obeyed k c ∈ events → c.command ≠ 3) →
      (run order events).1 = order.take (run order events).2.cursor ∧
        (run order events).2.cursor ≤ order.length := by
  induction events using List.reverseRecOn with
  | nil => intro _; exact ⟨rfl, Nat.zero_le _⟩
  | append_singleton events e ih =>
      intro neverSeeks
      obtain ⟨returned, inside⟩ := ih fun k c mem =>
        neverSeeks k c (List.mem_append_left _ mem)
      rw [run_append]
      generalize run order events = state at returned inside ⊢
      cases e with
      | obeyed k c =>
          have noSeek := neverSeeks k c List.mem_concat_self
          have cursor : (state.2.obey order.length c).cursor = state.2.cursor := by
            rw [obey, if_neg noSeek]
            split_ifs <;> rfl
          rw [after, cursor]
          exact ⟨returned, inside⟩
      | passed =>
          rw [after, pass]
          split_ifs
          · rw [replayNext]
            rcases inside.lt_or_eq with more | atEnd
            · rw [List.getElem?_eq_getElem more]
              refine ⟨?_, more⟩
              rw [returned, List.take_succ_eq_append_getElem more]
              rfl
            · rw [List.getElem?_eq_none atEnd.ge]
              exact ⟨(List.append_nil _).trans returned, inside⟩
          · exact ⟨(List.append_nil _).trans returned, inside⟩

end Control

end Replay

end Cluon
