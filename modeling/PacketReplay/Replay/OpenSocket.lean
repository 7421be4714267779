import PacketReplay.Capture.Address
import PacketReplay.Capture.TcpQueue
import PacketReplay.Replay.HttpReplay

/-!
# The socket of a replay

The queue of a TCP conversation and the client that replays it, put together. `Tracks`
relates the queue as a log of one socket to the socket the client has: it is kept by
every action that is finished (`Tracks.step`), so a disciplined queue is replayed with
sockets that are open, and an exclusive one connects without one.
-/

namespace PacketReplay

open Lib

namespace HttpReplayClient

/-- The client has a socket that an earlier `CONNECT` opened and no `CLOSE` closed. -/
def HoldsSocket (before : List (Executed × HttpReplayClient)) (socket : Int) : Prop :=
  ∃ earlier opening since, before = earlier ++ opening :: since ∧
    opening.1.action.type = .connect ∧ opening.1.result = .ok () ∧ opening.2.socket = socket ∧
    ∀ entry ∈ since, entry.1.action.type = .close → entry.1.socket ≠ socket

/-- The actions of a replay. -/
def actions (entries : List (Executed × HttpReplayClient)) : List Action :=
  entries.map fun entry => entry.1.action

theorem actions_append (before behind : List (Executed × HttpReplayClient)) :
    actions (before ++ behind) = actions before ++ actions behind := List.map_append

/-- The socket of a client behind the entries of a replay. -/
structure Tracks (done : List (Executed × HttpReplayClient)) (c : HttpReplayClient) : Prop where
  opened : ∀ entry ∈ done, entry.1.action.type = .connect → entry.1.result = .ok () →
    0 ≤ entry.2.socket
  held : Lease.held Action.lease (actions done) = true → HoldsSocket done c.socket
  free : Lease.held Action.lease (actions done) = false → c.socket = -1

theorem tracks_nil {c : HttpReplayClient} (fresh : c.socket = -1) : Tracks [] c where
  opened _ mem := by cases mem
  held holds := by cases holds
  free _ := fresh

/-- Data is sent and received on the socket that the client has. -/
theorem socket_step_of_use {c : HttpReplayClient} {action : Action} (kind : action.lease = .use) :
    (c.step action).2.socket = c.socket := by
  rw [Action.lease] at kind
  rw [step, execute]
  split
  · next type =>
      rw [type] at kind
      cases kind
  · exact c.socket_send _
  · exact c.socket_recv _
  · next type =>
      rw [type] at kind
      cases kind

theorem stops_eq_false_iff {executed : Executed} :
    stops executed = false ↔ executed.result = .ok () := by
  rw [stops]
  split
  · next finished => simp [finished]
  · next e failed => simp [failed]

theorem HoldsSocket.append {before : List (Executed × HttpReplayClient)} {socket : Int}
    (holds : HoldsSocket before socket) {entry : Executed × HttpReplayClient}
    (keeps : entry.1.action.type ≠ .close) : HoldsSocket (before ++ [entry]) socket := by
  rcases holds with ⟨earlier, opening, since, rfl, connect, finished, same, none⟩
  refine ⟨earlier, opening, since ++ [entry], by simp, connect, finished, same, ?_⟩
  intro other mem close
  rcases List.mem_append.mp mem with inside | last
  · exact none other inside close
  · rw [List.mem_singleton.mp last] at close
    exact absurd close keeps

/-- An action that is finished leaves a client whose socket is tracked. -/
theorem Tracks.step {done : List (Executed × HttpReplayClient)} {c : HttpReplayClient}
    (tracks : Tracks done c) {action : Action} (goes : stops (c.step action).1 = false) :
    Tracks (done ++ [c.step action]) (c.step action).2 := by
  have finished := stops_eq_false_iff.mp goes
  have entries : actions (done ++ [c.step action]) = actions done ++ [action] :=
    actions_append _ _
  have opening : action.type = .connect → 0 ≤ (c.step action).2.socket := by
    intro connect
    have runs : c.execute action = c.connect := by rw [execute, connect]
    rw [HttpReplayClient.step, runs] at finished ⊢
    exact socket_connect finished
  refine ⟨?_, fun holds => ?_, fun loose => ?_⟩
  · intro entry mem connect done
    rcases List.mem_append.mp mem with inside | last
    · exact tracks.opened entry inside connect done
    · rw [List.mem_singleton.mp last] at connect ⊢
      exact opening connect
  · rw [entries, Lease.held_append_singleton, Lease.hold] at holds
    cases kind : action.lease with
    | acquire =>
        exact ⟨done, c.step action, [], rfl, Action.lease_eq_acquire.mp kind, finished, rfl,
          fun _ mem => by cases mem⟩
    | use =>
        rw [kind] at holds
        rw [socket_step_of_use kind]
        refine (tracks.held holds).append fun close => ?_
        have released : action.lease = .release := Action.lease_eq_release.mpr close
        rw [kind] at released
        cases released
    | release =>
        rw [kind] at holds
        cases holds
  · rw [entries, Lease.held_append_singleton, Lease.hold] at loose
    cases kind : action.lease with
    | acquire =>
        rw [kind] at loose
        cases loose
    | use =>
        rw [kind] at loose
        rw [socket_step_of_use kind]
        exact tracks.free loose
    | release =>
        have closes : c.execute action = c.close := by
          rw [execute, Action.lease_eq_release.mp kind]
        rw [HttpReplayClient.step, closes]
        rfl

/-- At every cut of a replay the client is tracked, and the queue is cut at the same
action. -/
theorem Tracks.replay {done : List (Executed × HttpReplayClient)} {c : HttpReplayClient}
    (tracks : Tracks done c) {queue : List Action}
    {before behind : List (Executed × HttpReplayClient)}
    {entry : Executed × HttpReplayClient} (cut : c.replay queue = before ++ entry :: behind) :
    ∃ d rest, Tracks (done ++ before) d ∧ entry.1.socket = d.socket ∧
      actions done ++ queue = actions (done ++ before) ++ entry.1.action :: rest := by
  induction queue generalizing done c before with
  | nil => cases (List.append_eq_nil_iff.mp cut.symm).2
  | cons action queue ih =>
      rw [HttpReplayClient.replay] at cut
      cases before with
      | nil =>
          rw [trace] at cut
          rcases List.cons.inj cut with ⟨rfl, -⟩
          refine ⟨c, queue, ?_, rfl, ?_⟩
          · rw [List.append_nil]
            exact tracks
          · rw [List.append_nil]
            rfl
      | cons first before =>
          cases goes : stops (c.step action).1 with
          | true =>
              rw [trace_cons_of_ends goes] at cut
              cases (List.append_eq_nil_iff.mp (List.cons.inj cut).2.symm).2
          | false =>
              rw [trace_cons_of_goes goes] at cut
              rcases List.cons.inj cut with ⟨rfl, rest⟩
              rcases ih (tracks.step goes) rest with ⟨d, left, tracked, same, queued⟩
              rw [List.append_cons]
              refine ⟨d, left, tracked, same, ?_⟩
              rw [← queued, actions_append, List.append_assoc]
              rfl

/-- Where no action stops the replay, all of the queue is executed. -/
theorem actions_replay {c : HttpReplayClient} {queue : List Action}
    (finished : ∀ entry ∈ c.replay queue, entry.1.result = .ok ()) :
    actions (c.replay queue) = queue := by
  induction queue generalizing c with
  | nil => rfl
  | cons action queue ih =>
      rw [replay] at finished ⊢
      cases goes : stops (c.step action).1 with
      | true =>
          rw [trace_cons_of_ends goes] at finished
          have first := stops_eq_false_iff.mpr (finished _ List.mem_cons_self)
          rw [goes] at first
          cases first
      | false =>
          rw [trace_cons_of_goes goes] at finished ⊢
          have rest := ih fun entry mem => finished entry (List.mem_cons_of_mem _ mem)
          exact congrArg (action :: ·) rest

/-- A socket that was opened is a descriptor. -/
theorem Tracks.not_holdsSocket {done : List (Executed × HttpReplayClient)} {c : HttpReplayClient}
    (tracks : Tracks done c) (loose : Lease.held Action.lease (actions done) = false) :
    ¬ HoldsSocket done c.socket := by
  intro ⟨earlier, opening, since, cut, connect, finished, same, _⟩
  have mem : opening ∈ done := by rw [cut]; exact List.mem_append_right _ List.mem_cons_self
  have descriptor := tracks.opened opening mem connect finished
  rw [same, tracks.free loose] at descriptor
  cases descriptor

end HttpReplayClient

namespace TcpConversation

/-- The replay of what is recorded in a conversation. -/
def replay (c : TcpConversation) (answers : Answers) :
    List (HttpReplayClient.Executed × HttpReplayClient) :=
  (HttpReplayClient.ofConversation c answers).replay c.actionQueue

open HttpReplayClient (HoldsSocket actions)

/-- Whatever is captured and whatever the system answers: `SEND`, `RECV` and `CLOSE`
are executed with a socket that an earlier `CONNECT` opened and no `CLOSE` closed, and
where no call fails the whole queue is executed. -/
theorem holdsSocket_replay (inet : Inet) (first : TransportPacket)
    (server : Option TargetTestServer) (packets : List TransportPacket) (answers : Answers) :
    (∀ before entry behind,
      ((ofPacket inet first server).captured packets).replay answers = before ++ entry :: behind →
        entry.1.action.type ≠ .connect → HoldsSocket before entry.1.socket) ∧
    ((∀ entry ∈ ((ofPacket inet first server).captured packets).replay answers,
        entry.1.result = .ok ()) →
      actions (((ofPacket inet first server).captured packets).replay answers) =
        ((ofPacket inet first server).captured packets).actionQueue) := by
  refine ⟨?_, HttpReplayClient.actions_replay⟩
  intro before entry behind cut other
  have sound := (initial_ofPacket inet first server).sound.captured packets
  rcases (HttpReplayClient.tracks_nil rfl).replay cut with ⟨d, rest, tracks, same, queued⟩
  rw [List.nil_append] at tracks queued
  rw [same]
  apply tracks.held
  exact sound.disciplined _ _ _ queued (mt Action.lease_eq_acquire.mp other)

/-- There is one `CLOSE` between a `CONNECT` and the next, and a replay connects only
without a socket. -/
def ClosedBetween (c : TcpConversation) : Prop :=
  (∀ before a between b behind, c.actionQueue = before ++ a :: (between ++ b :: behind) →
    a.type = .connect → b.type = .connect → (∀ x ∈ between, x.type ≠ .connect) →
      between.countP (fun x => x.type = .close) = 1) ∧
  ∀ answers before entry behind, c.replay answers = before ++ entry :: behind →
    entry.1.action.type = .connect → ¬ HoldsSocket before entry.1.socket

/-- Every recorded connection is closed before the next one exactly when no handshake
is completed behind a reset of an established connection. -/
theorem closedBetween_captured_iff (inet : Inet) (first : TransportPacket)
    (server : Option TargetTestServer) (packets : List TransportPacket) :
    ClosedBetween ((ofPacket inet first server).captured packets) ↔
      ¬ Reopened (ofPacket inet first server) packets := by
  have initial := initial_ofPacket inet first server
  have sound := initial.sound.captured packets
  rw [← exclusive_captured_iff initial]
  have between := Lease.exclusive_iff_one_release sound.disciplined
  simp only [Action.lease_eq_acquire, Action.lease_eq_release, ne_eq] at between
  constructor
  · intro ⟨queue, _⟩
    exact between.mpr queue
  · intro exclusive
    refine ⟨between.mp exclusive, ?_⟩
    intro answers before entry behind cut connect
    rcases (HttpReplayClient.tracks_nil rfl).replay cut with ⟨d, rest, tracks, same, queued⟩
    rw [List.nil_append] at tracks queued
    rw [same]
    exact tracks.not_holdsSocket
      (exclusive _ _ _ queued (Action.lease_eq_acquire.mpr connect))

/-- A connection that is reset and opened again is recorded as two `CONNECT`s in a
row. -/
theorem not_closedBetween_captured :
    ¬ ∀ (inet : Inet) (first : TransportPacket) (server : Option TargetTestServer)
      (packets : List TransportPacket),
      ClosedBetween ((ofPacket inet first server).captured packets) := by
  intro closed
  have twice := (closed dottedInet (between 1 3 (.tcp ⟨7, 80, thSyn, []⟩)) none
    (handshake 1 3 7 80 ++ between 3 1 (.tcp ⟨80, 7, thRst, []⟩) :: handshake 1 3 7 80)).1
    [] { type := .connect } [] { type := .connect } [] (by decide +kernel) rfl rfl
    (fun _ mem => by cases mem)
  cases twice

end TcpConversation

end PacketReplay
