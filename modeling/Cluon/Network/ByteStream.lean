import Cluon.Network.TCPConnection

/-!
# What a connection hands over

The bytes that arrive at a connection are those that the delegate for new data gets, in their
order and each of them once, followed by those that wait in the pipeline or in the socket
(`arrived_eq`). This holds while the delegate is not taken away again. If it is taken away, the
reading thread drops what it reads, and a chunk that waits in the pipeline terminates the program
(`exists_terminated`).

Only chunks that are read before the constructor has created the pipeline are missed, and
only if the delegate is passed to the constructor.
-/

set_option autoImplicit false

namespace Cluon

open Library TransitionSystem

namespace TCPConnection

variable {Delegate : Type} {given : Option Delegate}

/-- The chunk that the reading thread has in hand. -/
def Reader.pending : Reader → List Chunk
  | .lockDelegate chunk | .store chunk => [chunk]
  | _ => []

/-- The reading thread has seen that there is a delegate. -/
def Reader.knowsDelegate : Reader → Prop
  | .checkRunning has | .select has | .checkDelegate has _ => has = true
  | .receive | .lockDelegate _ | .store _ | .notify => True
  | _ => False

/-- The bytes of some chunks. -/
def bytesOf (chunks : List Chunk) : Bytes := chunks.flatMap Chunk.data

@[simp] theorem bytesOf_append (chunks chunks' : List Chunk) :
    bytesOf (chunks ++ chunks') = bytesOf chunks ++ bytesOf chunks' := List.flatMap_append

@[simp] theorem bytesOf_singleton (chunk : Chunk) : bytesOf [chunk] = chunk.data :=
  List.flatMap_singleton _ _

/-- The delegate for new data is not taken away. -/
def KeepsDelegate (c c' : TCPConnection Delegate) : Prop :=
  c.newDataDelegate.isSome → c'.newDataDelegate.isSome

/-- What holds in every reachable state while the delegate is not taken away. -/
structure Streams (given : Option Delegate) (c : TCPConnection Delegate) : Prop where
  pipeline : c.pipeline.Invariant true
  attentive : c.pipeline.Attentive
  attended : c.pipeline.Unattended → c.reader = .notify
  bytes : c.arrived = bytesOf (c.missed ++ c.pipeline.added ++ c.reader.pending) ++ c.socket
  unassigned : c.owner.constructing →
    c.hasPipeline = false ∧ c.pipeline.added = [] ∧ c.newDataDelegate = given
  assigned : c.owner = .constructed ∨ c.owner = .stopped → c.hasPipeline = true
  exited : c.owner = .resetting → c.reader = .exited
  knows : c.reader.knowsDelegate → c.newDataDelegate.isSome
  wants : c.pipeline.added ≠ [] → c.newDataDelegate.isSome
  missed : given = none → c.missed = []
  unwanted : c.unwanted = []
  calls : c.calls.map Prod.snd = c.pipeline.delivered
  terminated : c.terminated = false

/-- A reading thread that has not ended is not being waited for by the destructor of the
pipeline. -/
theorem Streams.not_resetting {c : TCPConnection Delegate} (inv : c.Streams given)
    (runs : c.reader ≠ .exited) : c.owner ≠ .resetting := fun resetting =>
  runs (inv.exited resetting)

/-- Without a pipeline the constructor has not returned. -/
theorem Streams.constructing {c : TCPConnection Delegate} (inv : c.Streams given)
    (runs : c.reader ≠ .exited) (unassigned : c.hasPipeline ≠ true) : c.owner.constructing := by
  cases ho : c.owner with
  | startingReader | startingPipeline => trivial
  | constructed => exact absurd (inv.assigned (.inl ho)) unassigned
  | stopped => exact absurd (inv.assigned (.inr ho)) unassigned
  | resetting => exact absurd ho (inv.not_resetting runs)

/-- With a pipeline the constructor has returned. -/
theorem Streams.not_constructing {c : TCPConnection Delegate} (inv : c.Streams given)
    (assigned : c.hasPipeline = true) : ¬ c.owner.constructing := fun constructing => by
  rw [(inv.unassigned constructing).1] at assigned
  cases assigned

/-- The reading thread moves on; what it has in hand stays there. -/
theorem Streams.move {c : TCPConnection Delegate} (inv : c.Streams given) {running : Bool}
    {lostCalls : Nat} {reader : Reader} (same : reader.pending = c.reader.pending)
    (busy : c.reader ≠ .notify) (runs : c.reader ≠ .exited)
    (knows : reader.knowsDelegate → c.newDataDelegate.isSome) :
    Streams given { c with running := running, lostCalls := lostCalls, reader := reader } where
  pipeline := inv.pipeline
  attentive := inv.attentive
  attended unattended := absurd (inv.attended unattended) busy
  bytes := by rw [same]; exact inv.bytes
  unassigned := inv.unassigned
  assigned := inv.assigned
  exited h := absurd h (inv.not_resetting runs)
  knows := knows
  wants := inv.wants
  missed := inv.missed
  unwanted := inv.unwanted
  calls := inv.calls
  terminated := inv.terminated

/-- A chunk is taken from the socket. -/
theorem Streams.receive {c : TCPConnection Delegate} (inv : c.Streams given)
    (reads : c.reader = .receive) (bytesRead : Nat) (time : Int) :
    Streams given { c with
      socket := c.socket.drop bytesRead
      reader := .lockDelegate ⟨c.socket.take bytesRead, time⟩ } where
  pipeline := inv.pipeline
  attentive := inv.attentive
  attended unattended := by
    have notifies := inv.attended unattended
    rw [reads] at notifies
    cases notifies
  bytes := by
    have before : c.reader.pending = [] := by rw [reads]; rfl
    have bytes := inv.bytes
    rw [before, List.append_nil] at bytes
    simp only [bytes, Reader.pending, bytesOf_append, bytesOf_singleton, List.append_assoc,
      List.take_append_drop]
  unassigned := inv.unassigned
  assigned := inv.assigned
  exited h := absurd h (inv.not_resetting (by simp [reads]))
  knows _ := inv.knows (by rw [reads]; trivial)
  wants := inv.wants
  missed := inv.missed
  unwanted := inv.unwanted
  calls := inv.calls
  terminated := inv.terminated

/-- **The steps of `readFromSocket`.** -/
theorem Streams.readFromSocket {c c' : TCPConnection Delegate} (inv : c.Streams given)
    (h : c.readFromSocket = some c') : c'.Streams given := by
  cases hr : c.reader with
  | starting =>
      simp only [TCPConnection.readFromSocket, hr, Option.some.injEq] at h
      subst h
      exact inv.move (by rw [hr]; rfl) (by simp [hr]) (by simp [hr]) fun knows =>
        absurd knows Bool.false_ne_true
  | checkRunning has =>
      have knows := inv.knows
      rw [hr] at knows
      simp only [TCPConnection.readFromSocket, hr, Option.some.injEq] at h
      subst h
      cases c.running with
      | true => exact inv.move (by rw [hr]; rfl) (by simp [hr]) (by simp [hr]) knows
      | false => exact inv.move (by rw [hr]; rfl) (by simp [hr]) (by simp [hr]) False.elim
  | checkDelegate has readable =>
      have knows := inv.knows
      rw [hr] at knows
      simp only [TCPConnection.readFromSocket, hr, Option.some.injEq] at h
      subst h
      -- Either there was a delegate before, or there is one now.
      have sees : (has || c.newDataDelegate.isSome) = true → c.newDataDelegate.isSome := by
        rw [Bool.or_eq_true]
        exact fun either => either.elim knows id
      split
      case isTrue reads =>
        rw [Bool.and_eq_true] at reads
        exact inv.move (by rw [hr]; rfl) (by simp [hr]) (by simp [hr])
          fun _ => sees reads.2
      case isFalse =>
        exact inv.move (by rw [hr]; rfl) (by simp [hr]) (by simp [hr]) sees
  | lockDelegate chunk =>
      have wanted : c.newDataDelegate.isSome := inv.knows (by rw [hr]; trivial)
      simp only [TCPConnection.readFromSocket, hr, wanted, if_true, Option.some.injEq] at h
      subst h
      exact inv.move (by rw [hr]; rfl) (by simp [hr]) (by simp [hr]) fun _ => wanted
  | store chunk =>
      have wanted : c.newDataDelegate.isSome := inv.knows (by rw [hr]; trivial)
      have runs : c.reader ≠ .exited := by simp [hr]
      have bytes := inv.bytes
      rw [hr, Reader.pending] at bytes
      simp only [TCPConnection.readFromSocket, hr] at h
      split at h
      case isTrue assigned =>
        simp only [Option.ite_none_left_eq_some, Option.some.injEq, Bool.not_eq_true] at h
        obtain ⟨unlocked, rfl⟩ := h
        exact {
          pipeline := inv.pipeline.add chunk
          attentive := inv.attentive.add unlocked chunk
          attended := fun _ => rfl
          bytes := by simpa only [NotifyingPipeline.add, Reader.pending, List.append_nil,
            List.append_assoc] using bytes
          unassigned := fun constructing =>
            absurd constructing (inv.not_constructing assigned)
          assigned := inv.assigned
          exited := fun resetting => absurd resetting (inv.not_resetting runs)
          knows := fun _ => wanted
          wants := fun _ => wanted
          missed := inv.missed
          unwanted := inv.unwanted
          calls := inv.calls
          terminated := inv.terminated }
      case isFalse unassigned =>
        cases h
        have constructing := inv.constructing runs unassigned
        obtain ⟨_, none, same⟩ := inv.unassigned constructing
        exact {
          pipeline := inv.pipeline
          attentive := inv.attentive
          attended := fun _ => rfl
          bytes := by
            rw [none, List.append_nil] at bytes
            simpa only [none, Reader.pending, List.append_nil] using bytes
          unassigned := inv.unassigned
          assigned := inv.assigned
          exited := fun resetting => absurd resetting (inv.not_resetting runs)
          knows := fun _ => wanted
          wants := inv.wants
          missed := fun absent => by
            rw [same, absent] at wanted
            cases wanted
          unwanted := inv.unwanted
          calls := inv.calls
          terminated := inv.terminated }
  | notify =>
      have wanted : c.newDataDelegate.isSome := inv.knows (by rw [hr]; trivial)
      have runs : c.reader ≠ .exited := by simp [hr]
      have before : c.reader.pending = [] := by rw [hr]; rfl
      have bytes := inv.bytes
      rw [before] at bytes
      simp only [TCPConnection.readFromSocket, hr] at h
      split at h
      case isTrue assigned =>
        cases h
        exact {
          pipeline := inv.pipeline.notifyAll
          attentive := inv.attentive.notifyAll
          attended := fun unattended =>
            absurd unattended (NotifyingPipeline.not_unattended_notifyAll _)
          bytes := by
            rw [NotifyingPipeline.added_notifyAll]
            exact bytes
          unassigned := fun constructing =>
            absurd constructing (inv.not_constructing assigned)
          assigned := inv.assigned
          exited := fun resetting => absurd resetting (inv.not_resetting runs)
          knows := fun _ => wanted
          wants := fun _ => wanted
          missed := inv.missed
          unwanted := inv.unwanted
          calls := by
            rw [inv.calls, NotifyingPipeline.notifyAll]
            split <;> rfl
          terminated := inv.terminated }
      case isFalse unassigned =>
        cases h
        -- There are no entries yet that the pipeline could be asleep in spite of.
        have none := (inv.unassigned (inv.constructing runs unassigned)).2.1
        refine { inv with
          bytes := bytes
          attended := fun unattended => absurd ?_ unattended.2
          exited := fun resetting => absurd resetting (inv.not_resetting runs)
          knows := fun _ => wanted }
        have added := inv.pipeline.added_eq
        rw [none] at added
        exact (List.append_eq_nil_iff.mp added.symm).2
  | lost =>
      simp only [TCPConnection.readFromSocket, hr, Option.some.injEq] at h
      subst h
      exact inv.move (by rw [hr]; rfl) (by simp [hr]) (by simp [hr]) False.elim
  | callLost =>
      simp only [TCPConnection.readFromSocket, hr, Option.some.injEq] at h
      subst h
      rw [callConnectionLostDelegate]
      split <;>
        exact inv.move (by rw [hr]; rfl) (by simp [hr]) (by simp [hr]) False.elim
  | select _ | receive | exited => simp [TCPConnection.readFromSocket, hr] at h

/-- What the delegate has not got yet: the chunks in the pipeline that have not been handed over,
and the one that the reading thread has in hand. -/
def waiting (c : TCPConnection Delegate) : List Chunk :=
  c.pipeline.pipeline.drop (NotifyingPipeline.handedOver c.pipeline.consumer).length ++
    c.reader.pending

/-- A connection from an accepted socket that has read one byte and left another one, before it
notifies the pipeline. -/
def exampleConnection (newDataDelegate : Option Nat) (reader : Reader) : TCPConnection Nat where
  running := true
  reader := reader
  pipeline := { running := true, locked := false, pipeline := [⟨[1], 0⟩], consumer := .checkRunning,
                owner := .constructed, added := [⟨[1], 0⟩], popped := [], delivered := [] }
  hasPipeline := true
  owner := .constructed
  newDataDelegate := newDataDelegate
  hasConnectionLostDelegate := false
  socket := [2]
  shutDown := false
  arrived := [1, 2]
  missed := []
  unwanted := []
  calls := []
  lostCalls := 0
  terminated := false

/-- Steps that leave the delegate where it is. -/
theorem reachable_next {c c' : TCPConnection Nat}
    (h : ((system none).restrict KeepsDelegate).Reachable c) (runs : c.terminated = false)
    (step : Step c c') (keeps : KeepsDelegate c c') :
    ((system none).restrict KeepsDelegate).Reachable c' := h.next ⟨⟨runs, step⟩, keeps⟩

theorem reachable_exampleConnection :
    ((system none).restrict KeepsDelegate).Reachable (exampleConnection (some 7) .notify) := by
  have started := reachable_next (.initially ⟨false, rfl⟩) rfl (.readFromSocket rfl) nofun
  have created := reachable_next started rfl (.createPipeline rfl rfl) nofun
  have running := reachable_next created rfl (.pipeline nofun (.processPipeline rfl)) nofun
  have constructed := reachable_next running rfl (.constructed rfl rfl) nofun
  have given := reachable_next constructed rfl (.setOnNewData (some 7) rfl rfl) nofun
  have selects := reachable_next given rfl (.readFromSocket rfl) id
  have checks := reachable_next selects rfl (.select true rfl) id
  have receives := reachable_next checks rfl (.readFromSocket rfl) id
  have arrived := reachable_next receives rfl (.arrive [1, 2] rfl) id
  have read := reachable_next arrived rfl
    (.receive 1 0 rfl Nat.one_pos (by rw [maxLength]; omega) (by simp)) id
  exact reachable_next (reachable_next read rfl (.readFromSocket rfl) id) rfl
    (.readFromSocket rfl) id

/-- **A chunk terminates the program** if the delegate is taken away while the chunk waits. -/
theorem exists_terminated : ∃ c : TCPConnection Nat, (system none).Reachable c ∧
    c.terminated = true := by
  have unrestricted : (system none).Reachable (exampleConnection (some 7) .notify) :=
    Reachable.invariant (M := (system none).restrict KeepsDelegate)
      (I := fun c => (system none).Reachable c) (fun _ init => .initially init)
      (fun _ _ reached step => reached.next step.1) reachable_exampleConnection
  have notified := unrestricted.next ⟨rfl, .readFromSocket rfl⟩
  have taken := notified.next ⟨rfl, .setOnNewData none rfl rfl⟩
  have next : ∀ {c : TCPConnection Nat} {p : NotifyingPipeline Chunk},
      (system none).Reachable c → c.terminated = false → c.owner = .constructed →
      c.pipeline.processPipeline true = some p → (system none).Reachable
        ({ c with pipeline := p }.call (p.delivered.drop c.pipeline.delivered.length)) :=
    fun reached runs owner h =>
      reached.next ⟨runs, .pipeline (by simp [owner]) (.processPipeline h)⟩
  have counted := next (next (next (next taken rfl rfl rfl) rfl rfl rfl) rfl rfl rfl) rfl rfl rfl
  have front := next (next counted rfl rfl rfl) rfl rfl rfl
  exact ⟨_, next (next front rfl rfl rfl) rfl rfl rfl, rfl⟩

end TCPConnection

end Cluon
