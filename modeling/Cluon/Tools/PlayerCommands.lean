import Cluon.Tools.Relaying

/-!
# Which commands `cluon-replay` obeys

There is no queue between the thread that stores commands and the loop that obeys them. A command
can be overwritten by the next one before it is obeyed, and it can be obeyed twice, if the flag of
the command before is still set when it is stored (`exists_obeyed_twice`). But the last command is
never lost, and commands are obeyed in their order (`obeys_in_order`).
-/

set_option autoImplicit false

namespace Cluon

open Library InputStream TransitionSystem

namespace Replay

variable {uninit : Nat → Byte} {entriesPerSecond : Multimap Int IndexEntry → BitVec 32} {fuel : Nat}
  {keepRunning : Bool}

@[simp] theorem obeyed_concat_obeyed (events : List ReplayEvent) (k : Nat) (c : PlayerCommand) :
    obeyed (events ++ [.obeyed k c]) = obeyed events ++ [k] := by
  rw [obeyed, List.filterMap_append]
  rfl

@[simp] theorem obeyed_concat_passed (events : List ReplayEvent) :
    obeyed (events ++ [.passed]) = obeyed events := by
  rw [obeyed, List.filterMap_append]
  exact List.append_nil _

theorem mem_obeyed {events : List ReplayEvent} {k : Nat} :
    k ∈ obeyed events ↔ ∃ c, .obeyed k c ∈ events := by
  constructor
  · intro mem
    obtain ⟨e, mem, eq⟩ := List.mem_filterMap.mp mem
    cases e with
    | obeyed k' c => exact ⟨c, Option.some.inj eq ▸ mem⟩
    | passed => cases eq
  · rintro ⟨c, mem⟩
    exact List.mem_filterMap.mpr ⟨_, mem, rfl⟩

/-- How often the loop will be told of a command that is stored already. -/
def signals (r : Replay) : Nat :=
  (if r.commandThread = .stored then 1 else 0) + r.playCommandUpdate.toNat

/-- The command that is stored is the last one, and as long as it has not been obeyed, the loop
will be told of it. -/
structure Commanded (r : Replay) : Prop where
  latest : r.commands ≠ [] → r.commands.getLast? = some r.playerCommand
  updated : r.loop = .obeying → r.playCommandUpdate = true
  pending : 0 < r.signals → r.commands ≠ []
  obeys : ∀ k c, .obeyed k c ∈ r.events → r.commands[k]? = some c
  inOrder : (obeyed r.events).Pairwise (· ≤ ·)
  twice : ∀ k, (obeyed r.events).count k ≤ 2
  again : (obeyed r.events).count (r.commands.length - 1) + r.signals ≤ 2
  notLost : r.signals = 0 → r.commands ≠ [] →
    (obeyed r.events).getLast? = some (r.commands.length - 1)

/-- Only commands that were stored are obeyed. -/
theorem Commanded.lt_length {r : Replay} (inv : r.Commanded) {k : Nat}
    (mem : k ∈ obeyed r.events) : k < r.commands.length := by
  obtain ⟨c, mem⟩ := mem_obeyed.mp mem
  exact (List.getElem?_eq_some_iff.mp (inv.obeys k c mem)).1

/-- What the loop does without a command. -/
theorem Commanded.of_eq {r r' : Replay} (inv : r.Commanded)
    (playerCommand : r'.playerCommand = r.playerCommand) (commands : r'.commands = r.commands)
    (thread : r'.commandThread = r.commandThread)
    (update : r'.playCommandUpdate = r.playCommandUpdate)
    (events : obeyed r'.events = obeyed r.events)
    (mem : ∀ k c, .obeyed k c ∈ r'.events → .obeyed k c ∈ r.events)
    (updated : r'.loop = .obeying → r.playCommandUpdate = true) : r'.Commanded where
  latest := by rw [commands, playerCommand]; exact inv.latest
  updated := by rw [update]; exact updated
  pending := by rw [signals, thread, update, commands]; exact inv.pending
  obeys k c h := by rw [commands]; exact inv.obeys k c (mem k c h)
  inOrder := by rw [events]; exact inv.inOrder
  twice := by rw [events]; exact inv.twice
  again := by rw [signals, thread, update, commands, events]; exact inv.again
  notLost := by rw [signals, thread, update, commands, events]; exact inv.notLost

/-- **A command is stored** over the one before. -/
theorem Commanded.store {r : Replay} (inv : r.Commanded) (c : PlayerCommand)
    (loop : r.loop ≠ .obeying) : Commanded { r with
      playerCommand := c
      commandThread := .stored
      commands := r.commands ++ [c] } where
  latest _ := List.getLast?_concat
  updated h := absurd h loop
  pending _ := List.concat_ne_nil _ _
  obeys k c' mem := by
    have before := inv.obeys k c' mem
    rw [List.getElem?_append_left (List.getElem?_eq_some_iff.mp before).1, before]
  inOrder := inv.inOrder
  twice := inv.twice
  again := by
    have never : (obeyed r.events).count r.commands.length = 0 :=
      List.count_eq_zero.mpr fun mem => lt_irrefl _ (inv.lt_length mem)
    rw [List.length_append, List.length_singleton, Nat.add_sub_cancel, never]
    cases r.playCommandUpdate <;> simp [signals]
  notLost none := by simp [signals] at none

/-- **The flag is set** behind the command. -/
theorem Commanded.setFlag {r : Replay} (inv : r.Commanded) (thread : r.commandThread = .stored) :
    Commanded { r with playCommandUpdate := true, commandThread := .idle } where
  latest := inv.latest
  updated _ := rfl
  pending _ := inv.pending (by rw [signals, if_pos thread]; omega)
  obeys := inv.obeys
  inOrder := inv.inOrder
  twice := inv.twice
  again := by
    have again := inv.again
    rw [signals, if_pos thread] at again
    simp only [signals, reduceCtorEq, if_false, Bool.toNat_true]
    omega
  notLost none := by simp [signals] at none

/-- **The stored command is obeyed**, and the flag is reset. -/
theorem Commanded.obey {r r' : Replay} (inv : r.Commanded) (loop : r.loop = .obeying)
    (playerCommand : r'.playerCommand = r.playerCommand) (commands : r'.commands = r.commands)
    (thread : r'.commandThread = r.commandThread) : Commanded { r' with
      playCommandUpdate := false
      loop := .relaying
      events := r.events ++ [.obeyed (r.commands.length - 1) r.playerCommand] } := by
  have update := inv.updated loop
  have positive : 0 < r.signals := by
    rw [signals, update]
    exact Nat.succ_pos _
  have nonempty := inv.pending positive
  have again := inv.again
  rw [signals, update] at again
  refine ⟨?_, nofun, ?_, ?_, ?_, ?_, ?_, ?_⟩
  · rw [commands, playerCommand]
    exact inv.latest
  · intro _
    rw [commands]
    exact nonempty
  · intro k c mem
    rw [commands]
    rcases List.mem_append.mp mem with mem | mem
    · exact inv.obeys k c mem
    · obtain ⟨rfl, rfl⟩ := ReplayEvent.obeyed.inj (List.mem_singleton.mp mem)
      rw [← List.getLast?_eq_getElem?]
      exact inv.latest nonempty
  · rw [obeyed_concat_obeyed, List.pairwise_append]
    refine ⟨inv.inOrder, List.pairwise_singleton _ _, fun k mem k' mem' => ?_⟩
    rw [List.mem_singleton.mp mem']
    exact Nat.le_sub_one_of_lt (inv.lt_length mem)
  · intro k
    rw [obeyed_concat_obeyed, List.count_append]
    by_cases last : k = r.commands.length - 1
    · rw [last, List.count_singleton_self]
      simp only [Bool.toNat_true] at again
      omega
    · rw [List.count_singleton, if_neg (by simpa using Ne.symm last)]
      exact inv.twice k
  · simp only [obeyed_concat_obeyed, signals, commands, thread, List.count_append,
      List.count_singleton_self, Bool.toNat_false]
    simp only [Bool.toNat_true] at again
    omega
  · intro _ _
    rw [obeyed_concat_obeyed, commands]
    exact List.getLast?_concat

/-- Obeying a command changes the player, and whether it plays. -/
theorem obey_frame {r r' : Replay} (h : r.obey uninit entriesPerSecond fuel = some r') :
    ∃ p play step, r' = { r with player := p, play := play, step := step } := by
  by_cases seeks : r.playerCommand.command = 3
  · simp only [Replay.obey, seeks, BitVec.ofNat_eq_ofNat, if_true, BitVec.reduceEq, or_self,
      if_false, Option.pure_def, Option.bind_eq_bind, Option.bind_fun_some,
      Option.map_eq_some_iff] at h
    obtain ⟨p, _, rfl⟩ := h
    exact ⟨p, r.play, r.step, rfl⟩
  · simp only [Replay.obey, seeks, if_false, Option.bind_eq_bind, Option.bind_some,
      Option.pure_def, Option.some.injEq] at h
    obtain rfl := h
    split_ifs
    · exact ⟨r.player, _, _, rfl⟩
    · exact ⟨r.player, _, _, rfl⟩
    · exact ⟨r.player, _, r.step, rfl⟩
    · exact ⟨r.player, r.play, r.step, rfl⟩

/-- The rest of a round changes the player and what has been relayed. -/
theorem relay_frame {r r' : Replay} (h : r.relay uninit entriesPerSecond fuel = some r') :
    ∃ p relayed, r' = { r with player := p, step := false, relayed := relayed } := by
  rw [Replay.relay] at h
  split_ifs at h
  · simp only [Option.bind_eq_bind, Option.bind_eq_some_iff, Option.pure_def,
      Option.some.injEq] at h
    obtain ⟨_, _, rfl⟩ := h
    exact ⟨_, _, rfl⟩
  · obtain rfl := Option.some.inj h
    exact ⟨r.player, r.relayed, rfl⟩

/-- **One step** of a thread. -/
theorem Commanded.next {r r' : Replay} (inv : r.Commanded)
    (step : Step uninit entriesPerSecond fuel keepRunning r r') : r'.Commanded := by
  cases step with
  | store c _ loop => exact inv.store c loop
  | setFlag thread => exact inv.setFlag thread
  | enter _ _ | leave _ _ | interrupt _ | noUpdate _ _ =>
      exact inv.of_eq rfl rfl rfl rfl rfl (fun _ _ mem => mem) nofun
  | update _ flag => exact inv.of_eq rfl rfl rfl rfl rfl (fun _ _ mem => mem) fun _ => flag
  | obey loop obeys =>
      obtain ⟨_, _, _, rfl⟩ := obey_frame obeys
      exact inv.obey loop rfl rfl rfl
  | relay loop relays =>
      obtain ⟨_, _, rfl⟩ := relay_frame relays
      refine inv.of_eq rfl rfl rfl rfl (obeyed_concat_passed _) (fun k c mem => ?_) nofun
      exact (List.mem_append.mp mem).elim id fun mem => nomatch List.mem_singleton.mp mem

/-- **Commands are obeyed in their order, and the last one is not lost.** Whatever is in the file,
and however the threads are scheduled: what is obeyed are commands that were stored, none before
an earlier one, and none more than twice. As soon as the flag is reset and no command is arriving,
the last command is the one that has been obeyed last. -/
theorem obeys_in_order {file : Bytes} {r : Replay}
    (h : (system uninit entriesPerSecond fuel keepRunning file).Reachable r) :
    (∀ k c, .obeyed k c ∈ r.events → r.commands[k]? = some c) ∧
      (obeyed r.events).Pairwise (· ≤ ·) ∧ (∀ k, (obeyed r.events).count k ≤ 2) ∧
      (r.commandThread = .idle → r.playCommandUpdate = false → r.commands ≠ [] →
        (obeyed r.events).getLast? = some (r.commands.length - 1)) := by
  have inv : r.Commanded := by
    refine Reachable.invariant (fun r init => ?_) (fun r r' inv step => inv.next step) h
    obtain ⟨p, _, rfl⟩ := init
    exact ⟨fun none => absurd rfl none, nofun, nofun, nofun, .nil, fun _ => Nat.zero_le _,
      Nat.zero_le _, fun _ none => absurd rfl none⟩
  refine ⟨inv.obeys, inv.inOrder, inv.twice, fun idle reset => inv.notLost ?_⟩
  rw [signals, idle, reset]
  rfl

theorem obeys_in_order_twice : ∃ r : Replay, r.commands = [⟨2, 0⟩, ⟨4, 0⟩] ∧
    r.events = [.obeyed 1 ⟨4, 0⟩, .passed, .obeyed 1 ⟨4, 0⟩] ∧
    (∀ k c, .obeyed k c ∈ r.events → r.commands[k]? = some c) ∧
    (obeyed r.events).Pairwise (· ≤ ·) ∧ (∀ k, (obeyed r.events).count k ≤ 2) ∧
    (r.commandThread = .idle → r.playCommandUpdate = false → r.commands ≠ [] →
      (obeyed r.events).getLast? = some (r.commands.length - 1)) := by
  obtain ⟨r, reached, commands, events⟩ := exists_obeyed_twice
  exact ⟨r, commands, events, obeys_in_order reached⟩

end Replay

end Cluon
