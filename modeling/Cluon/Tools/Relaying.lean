import Cluon.Tools.Replay

/-!
# What `cluon-replay` relays

Whatever commands arrive, and whatever the threads do, the player follows the cursor that is
controlled by the commands that were obeyed, and the envelopes that are relayed are those that the
cursor returns (`relayed_eq`). The loop can only fail at a command to seek to a place before the
first envelope, and it only ends at the end of the recording.
-/

set_option autoImplicit false

namespace Cluon

open Library InputStream TransitionSystem

namespace Replay

theorem length_replayOrder (es : List Envelope.Values) : (replayOrder es).length = es.length :=
  (replayOrder_perm es).length_eq

/-- The player follows the cursor that is under the control of the events, and what it returned has
been relayed. -/
structure Controlled (R : Recording) (r : Replay) : Prop where
  follows : r.player.Follows R (Control.run R.envelopes r.events).2.cursor
  autoRewind : r.player.autoRewind = false
  play_eq : r.play = (Control.run R.envelopes r.events).2.play
  step_eq : r.step = (Control.run R.envelopes r.events).2.step
  relayed_eq : r.relayed = (Control.run R.envelopes r.events).1
  atEnd : r.loop = .ended → (Control.run R.envelopes r.events).2.cursor = R.entries.length

variable {uninit : Nat → Byte} {entriesPerSecond : Multimap Int IndexEntry → BitVec 32} {fuel : Nat}
  {keepRunning : Bool} {R : Recording}

/-- What the other threads and the places in the loop do not change. -/
theorem Controlled.of_eq {r r' : Replay} (inv : r.Controlled R) (player : r'.player = r.player)
    (play : r'.play = r.play) (step : r'.step = r.step) (events : r'.events = r.events)
    (relayed : r'.relayed = r.relayed)
    (atEnd : r'.loop = .ended → (Control.run R.envelopes r.events).2.cursor = R.entries.length) :
    r'.Controlled R where
  follows := by rw [player, events]; exact inv.follows
  autoRewind := by rw [player]; exact inv.autoRewind
  play_eq := by rw [play, events]; exact inv.play_eq
  step_eq := by rw [step, events]; exact inv.step_eq
  relayed_eq := by rw [relayed, events]; exact inv.relayed_eq
  atEnd := by rw [events]; exact atEnd

/-- The command that is obeyed is defined: where it seeks, it may seek. -/
def CommandAllowed (n : Nat) (c : PlayerCommand) : Prop :=
  c.command = 3 → SeekAllowed n c.seekTo

section Steps

variable (uninit entriesPerSecond) (enough : R.entries.length < fuel)
include enough

/-- **Obeying a command** does to the player what it does to the cursor. -/
theorem Controlled.obey_spec {r : Replay} (inv : r.Controlled R)
    (small : R.entries.length < 2 ^ 32)
    (allowed : CommandAllowed R.entries.length r.playerCommand) :
    let s := (Control.run R.envelopes r.events).2.obey R.envelopes.length r.playerCommand
    ∃ p', r.obey uninit entriesPerSecond fuel =
        some { r with player := p', play := s.play, step := s.step } ∧
      p'.Follows R s.cursor ∧ p'.autoRewind = false := by
  intro s
  have follows := inv.follows
  have play := inv.play_eq
  have step := inv.step_eq
  obtain ⟨control, control_eq⟩ :
      ∃ control, control = (Control.run R.envelopes r.events).2 := ⟨_, rfl⟩
  have obeys : s = control.obey R.envelopes.length r.playerCommand := by rw [control_eq]
  rw [← control_eq] at follows play step
  clear_value s
  subst obeys
  by_cases seeks : r.playerCommand.command = 3
  · obtain ⟨p', sought, follows', same⟩ :=
      follows.seekTo_spec uninit entriesPerSecond enough small (allowed seeks)
    have target : control.obey R.envelopes.length r.playerCommand =
        { control with
          cursor := seekTarget R.entries.length control.cursor r.playerCommand.seekTo } := by
      rw [Recording.length_envelopes, Control.obey, seeks]
      rfl
    rw [target]
    refine ⟨p', ?_, follows', same.trans inv.autoRewind⟩
    simp [Replay.obey, seeks, sought, play, step]
  · refine ⟨r.player, ?_, ?_, inv.autoRewind⟩
    · rcases r with ⟨player, rplay, rstep, ⟨command, target⟩, _, _, _, _, _, _⟩
      simp only at play step seeks
      subst play step
      simp only [Replay.obey, Control.obey, seeks]
      split_ifs <;> simp_all
    · simp only [Control.obey, if_neg seeks]
      split_ifs <;> exact follows

/-- **The rest of a round** relays what the cursor returns. -/
theorem Controlled.relay_spec {r : Replay} (inv : r.Controlled R) :
    let pass := (Control.run R.envelopes r.events).2.pass R.envelopes
    ∃ p', r.relay uninit entriesPerSecond fuel = some { r with
        player := p', play := pass.2.play, step := pass.2.step
        relayed := r.relayed ++ pass.1.toList } ∧
      p'.Follows R pass.2.cursor ∧ p'.autoRewind = false := by
  intro pass
  have follows := inv.follows
  have play := inv.play_eq
  have step := inv.step_eq
  obtain ⟨control, control_eq⟩ :
      ∃ control, control = (Control.run R.envelopes r.events).2 := ⟨_, rfl⟩
  have passes : pass = control.pass R.envelopes := by rw [control_eq]
  rw [← control_eq] at follows play step
  clear_value pass
  subst passes
  by_cases desired : (control.play || control.step) = true
  · obtain ⟨result, p', got, returns, follows', same⟩ :=
      follows.getNext_spec uninit entriesPerSecond enough
    rw [inv.autoRewind] at returns follows' same
    rw [Control.pass, if_pos desired]
    refine ⟨p', ?_, follows', same⟩
    rw [Replay.relay, play, step, if_pos desired, got]
    simp only [Option.bind_eq_bind, Option.bind_some, Option.pure_def, Option.some.injEq,
      ← returns, Player.returned]
    cases result.1 <;> simp
  · rw [Control.pass, if_neg desired]
    refine ⟨r.player, ?_, follows, inv.autoRewind⟩
    rw [Replay.relay, play, step, if_neg desired]
    simp

/-- A command is obeyed exactly if it is allowed. -/
theorem Controlled.obey_isSome_iff {r : Replay} (inv : r.Controlled R)
    (small : R.entries.length < 2 ^ 32 - 1) :
    (r.obey uninit entriesPerSecond fuel).isSome ↔
      CommandAllowed R.entries.length r.playerCommand := by
  constructor
  · intro obeys seeks
    by_contra notAllowed
    have never : r.player.seekTo uninit entriesPerSecond fuel r.playerCommand.seekTo = none :=
      inv.follows.seekTo_none uninit entriesPerSecond small notAllowed
    simp [Replay.obey, seeks, never] at obeys
  · intro allowed
    obtain ⟨p', ran, -⟩ := inv.obey_spec uninit entriesPerSecond enough (by omega) allowed
    rw [ran]
    rfl

end Steps

/-- **One step** of a thread keeps the player under the control of the events. -/
theorem Controlled.next {r r' : Replay} (enough : R.entries.length < fuel)
    (small : R.entries.length < 2 ^ 32 - 1) (inv : r.Controlled R)
    (step : Step uninit entriesPerSecond fuel keepRunning r r') : r'.Controlled R := by
  cases step with
  | store c _ _ => exact inv.of_eq rfl rfl rfl rfl rfl inv.atEnd
  | setFlag _ => exact inv.of_eq rfl rfl rfl rfl rfl inv.atEnd
  | enter _ _ | interrupt _ | noUpdate _ _ | update _ _ =>
      exact inv.of_eq rfl rfl rfl rfl rfl nofun
  | leave _ noData =>
      refine inv.of_eq rfl rfl rfl rfl rfl fun _ => ?_
      by_contra inside
      rw [(inv.follows.hasMoreData_iff inv.autoRewind).mpr inside] at noData
      cases noData
  | obey _ obeys =>
      have allowed := (inv.obey_isSome_iff uninit entriesPerSecond enough small).mp
        (Option.isSome_of_eq_some obeys)
      obtain ⟨p', ran, follows, rewinds⟩ :=
        inv.obey_spec uninit entriesPerSecond enough (by omega) allowed
      obtain rfl := Option.some.inj (ran.symm.trans obeys)
      exact ⟨by rw [Control.run_append]; exact follows, rewinds, by rw [Control.run_append]; rfl,
        by rw [Control.run_append]; rfl, by rw [Control.run_append]; exact inv.relayed_eq, nofun⟩
  | relay _ relays =>
      obtain ⟨p', ran, follows, rewinds⟩ :=
        inv.relay_spec uninit entriesPerSecond enough
      obtain rfl := Option.some.inj (ran.symm.trans relays)
      refine ⟨by rw [Control.run_append]; exact follows, rewinds, by rw [Control.run_append]; rfl,
        by rw [Control.run_append]; rfl, ?_, nofun⟩
      simp only [Control.run_append, Control.after, inv.relayed_eq]

/-- In every reachable state the player is under the control of the events. -/
theorem controlled_of_reachable {es : List Envelope.Values} (fits : ∀ e ∈ es, FitsFrame e)
    (small : es.length < 2 ^ 32 - 1) {tail : Bytes} (incomplete : IncompleteFrame tail)
    (enough : es.length < fuel) {r : Replay}
    (h : (system uninit entriesPerSecond fuel keepRunning
      (serializeEnvelopes es ++ tail)).Reachable r) : r.Controlled (recordingOf es tail fits) := by
  have length := length_recordingOf es tail fits
  refine Reachable.invariant (fun r init => ?_) (fun r r' inv step => ?_) h
  · obtain ⟨p, constructed, rfl⟩ := init
    obtain ⟨p', constructed', follows, rewinds⟩ := Player.follows_of_construct uninit
      entriesPerSecond fits incomplete enough false
    obtain rfl := Option.some.inj (constructed.symm.trans constructed')
    exact ⟨follows, rewinds, rfl, rfl, rfl, nofun⟩
  · exact inv.next (by omega) (by omega) step

/-- A command to pause is overwritten by one to step, which is obeyed twice: its flag is set after
that of the other one has been seen. -/
theorem exists_obeyed_twice : ∃ r, (system (fun _ => 0) (fun _ => 1) 3 true
      (serializeEnvelopes [Envelope.initial, sampledLate] ++ [0x0D])).Reachable r ∧
    r.commands = [⟨2, 0⟩, ⟨4, 0⟩] ∧
    r.events = [.obeyed 1 ⟨4, 0⟩, .passed, .obeyed 1 ⟨4, 0⟩] := by
  have obeys {r : Replay} (h : r.playerCommand = ⟨4, 0⟩) :
      r.obey (fun _ => 0) (fun _ => 1) 3 = some { r with play := false, step := true } := by
    simp [Replay.obey, h]
  obtain ⟨p, constructed, -⟩ := Player.follows_of_construct (fun _ => 0) (fun _ => 1)
    fitsFrame_late incompleteFrame_magic (Nat.lt_succ_self 2) false
  have started := Reachable.initially (M := system (fun _ => 0) (fun _ => 1) 3 true
    (serializeEnvelopes [Envelope.initial, sampledLate] ++ [0x0D])) ⟨p, constructed, rfl⟩
  have stored := ((started.next (.store ⟨2, 0⟩ rfl nofun)).next (.setFlag rfl)).next
    (.store ⟨4, 0⟩ rfl nofun)
  have once := ((stored.next (.enter rfl (Bool.or_true _))).next (.update rfl rfl)).next
    (.obey rfl (obeys rfl))
  have told := once.next (.setFlag rfl)
  obtain ⟨p', relays, -⟩ := (controlled_of_reachable fitsFrame_late (by norm_num)
    incompleteFrame_magic (Nat.lt_succ_self 2) told).relay_spec (fun _ => 0) (fun _ => 1)
      (Nat.lt_succ_self 2)
  have passed := told.next (.relay rfl relays)
  have again := ((passed.next (.enter rfl (Bool.or_true _))).next (.update rfl rfl)).next
    (.obey rfl (obeys rfl))
  exact ⟨_, again, rfl, rfl⟩

/-- What has been relayed is what the cursor has returned, and the loop ends at the end. -/
theorem relayed_run {es : List Envelope.Values} (fits : ∀ e ∈ es, FitsFrame e)
    (small : es.length < 2 ^ 32 - 1) {tail : Bytes} (incomplete : IncompleteFrame tail)
    (enough : es.length < fuel) {r : Replay}
    (h : (system uninit entriesPerSecond fuel keepRunning
      (serializeEnvelopes es ++ tail)).Reachable r) :
    r.relayed = (Control.run (replayOrder es) r.events).1 ∧
      (r.loop = .ended → (Control.run (replayOrder es) r.events).2.cursor = es.length) := by
  have inv := controlled_of_reachable fits small incomplete enough h
  rw [← length_recordingOf es tail fits, ← envelopes_recordingOf es tail fits]
  exact ⟨inv.relayed_eq, inv.atEnd⟩

/-- Without commands to seek, everything before the cursor has been relayed. -/
theorem relayed_of_neverSeeks {es : List Envelope.Values} (fits : ∀ e ∈ es, FitsFrame e)
    (small : es.length < 2 ^ 32 - 1) {tail : Bytes} (incomplete : IncompleteFrame tail)
    (enough : es.length < fuel) {r : Replay}
    (h : (system uninit entriesPerSecond fuel keepRunning
      (serializeEnvelopes es ++ tail)).Reachable r)
    (neverSeeks : ∀ k c, .obeyed k c ∈ r.events → c.command ≠ 3) :
    r.relayed = (replayOrder es).take (Control.run (replayOrder es) r.events).2.cursor ∧
      (r.loop = .ended → r.relayed = replayOrder es) := by
  obtain ⟨relayed, atEnd⟩ := relayed_run fits small incomplete enough h
  have taken := (Control.run_eq_take (replayOrder es) r.events neverSeeks).1
  refine ⟨relayed.trans taken, fun ended => ?_⟩
  rw [relayed, taken, atEnd ended]
  exact List.take_of_length_le (length_replayOrder es).le

/-- **What is relayed.** Whatever commands arrive, and however the threads are scheduled: the
envelopes that have been relayed are those that a cursor into the recording returns under the
control of the commands that were obeyed. The loop ends only at the end of the recording. As long as
no obeyed command seeks, each envelope before the cursor has been relayed once, in the order of the
sample time stamps. A round never fails, and a command fails exactly if it seeks to a place before
the first envelope. -/
theorem relayed_eq {es : List Envelope.Values} (fits : ∀ e ∈ es, FitsFrame e)
    (small : es.length < 2 ^ 32 - 1) {tail : Bytes} (incomplete : IncompleteFrame tail)
    (enough : es.length < fuel) {r : Replay}
    (h : (system uninit entriesPerSecond fuel keepRunning
      (serializeEnvelopes es ++ tail)).Reachable r) :
    r.relayed = (Control.run (replayOrder es) r.events).1 ∧
      (r.loop = .ended → (Control.run (replayOrder es) r.events).2.cursor = es.length) ∧
      ((∀ k c, .obeyed k c ∈ r.events → c.command ≠ 3) →
        r.relayed = (replayOrder es).take (Control.run (replayOrder es) r.events).2.cursor ∧
          (r.loop = .ended → r.relayed = replayOrder es)) ∧
      (r.relay uninit entriesPerSecond fuel).isSome ∧
      ((r.obey uninit entriesPerSecond fuel).isSome ↔
        CommandAllowed es.length r.playerCommand) := by
  obtain ⟨relayed, atEnd⟩ := relayed_run fits small incomplete enough h
  refine ⟨relayed, atEnd, relayed_of_neverSeeks fits small incomplete enough h, ?_⟩
  have inv := controlled_of_reachable fits small incomplete enough h
  rw [← length_recordingOf es tail fits] at enough small ⊢
  obtain ⟨p', relays, -⟩ := inv.relay_spec uninit entriesPerSecond enough
  exact ⟨Option.isSome_of_eq_some relays,
    inv.obey_isSome_iff uninit entriesPerSecond enough small⟩

theorem relayed_eq_step : ∃ r : Replay,
    r.events = [.obeyed 1 ⟨4, 0⟩, .passed, .obeyed 1 ⟨4, 0⟩] ∧
    let order := replayOrder [Envelope.initial, sampledLate]
    r.relayed = (Control.run order r.events).1 ∧
      (r.loop = .ended → (Control.run order r.events).2.cursor = 2) ∧
      ((∀ k c, .obeyed k c ∈ r.events → c.command ≠ 3) →
        r.relayed = order.take (Control.run order r.events).2.cursor ∧
          (r.loop = .ended → r.relayed = order)) ∧
      (r.relay (fun _ => 0) (fun _ => 1) 3).isSome ∧
      ((r.obey (fun _ => 0) (fun _ => 1) 3).isSome ↔ CommandAllowed 2 r.playerCommand) := by
  obtain ⟨r, reached, -, events⟩ := exists_obeyed_twice
  exact ⟨r, events, relayed_eq fitsFrame_late (by norm_num) incompleteFrame_magic
    (Nat.lt_succ_self 2) reached⟩

end Replay

end Cluon
