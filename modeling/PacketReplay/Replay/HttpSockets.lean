import PacketReplay.Replay.HttpProgram

/-!
# The descriptors of an HTTP replay

The calls of the program on a descriptor as a log of its connection. Whatever the capture
file holds and whatever the system answers, the program writes to a descriptor, reads from
it and closes it only while it is connected (`linked_main`).
-/

namespace PacketReplay

open Lib

namespace Call

/-- What a call does to the connection of a descriptor. A `connect` makes it when its answer
says that it has succeeded. -/
def lease? (socket : Int) (answer : Option (Except Nat Unit)) : Call → Option Lease
  | .connect s _ => if s = socket ∧ answer = some (.ok ()) then some .acquire else none
  | .write s _ => if s = socket then some .use else none
  | .read s => if s = socket then some .use else none
  | .close s => if s = socket then some .release else none
  | .socket _ => none

/-- The call writes to the descriptor or reads from it. -/
def Uses (socket : Int) : Call → Prop
  | .write s _ => s = socket
  | .read s => s = socket
  | _ => False

variable {socket : Int} {call : Call}

theorem Uses.lease? (uses : call.Uses socket) (s : Int) (answer : Option (Except Nat Unit)) :
    call.lease? s answer = if socket = s then some .use else none := by
  cases call with
  | write t data =>
      cases uses
      rfl
  | read t =>
      cases uses
      rfl
  | socket family => cases uses
  | connect t addr => cases uses
  | close t => cases uses

theorem Uses.not_connects (uses : call.Uses socket) : ¬ call.connects = true := by
  cases call with
  | connect t addr => cases uses
  | socket family | write t data | read t | close t => exact Bool.false_ne_true

/-- A connection is acquired by a `connect` on the descriptor. -/
theorem exists_connect_of_acquire {answer : Option (Except Nat Unit)}
    (acquires : call.lease? socket answer = some .acquire) :
    ∃ addr, call = .connect socket addr := by
  cases call with
  | connect s addr =>
      rw [lease?] at acquires
      split at acquires
      · next made => exact ⟨addr, made.1 ▸ rfl⟩
      · cases acquires
  | socket family => cases acquires
  | write s data | read s | close s =>
      rw [lease?] at acquires
      split at acquires <;> cases acquires

/-- A call of `connect` does nothing else to a connection. -/
theorem lease?_connect (socket s : Int) (addr : SockAddr) (answer : Option (Except Nat Unit)) :
    (Call.connect s addr).lease? socket answer = none ∨
      (Call.connect s addr).lease? socket answer = some .acquire := by
  rw [lease?]
  split
  · exact Or.inr rfl
  · exact Or.inl rfl

end Call

/-- What the calls do to the connection of a descriptor, each `connect` by its answer. -/
def leases (socket : Int) : List (Except Nat Unit) → List Call → List Lease
  | _, [] => []
  | answers, call :: calls =>
      (call.lease? socket answers.head?).toList ++
        leases socket (if call.connects then answers.tail else answers) calls

section Leases

variable {answers : List (Except Nat Unit)} {calls new : List Call} {socket : Int}

theorem leases_singleton (call : Call) :
    leases socket answers [call] = (call.lease? socket answers.head?).toList :=
  List.append_nil _

/-- Each `connect` takes an answer. -/
theorem leases_append :
    leases socket answers (calls ++ new) = leases socket answers calls ++
      leases socket (answers.drop (calls.countP Call.connects)) new := by
  induction calls generalizing answers with
  | nil => rfl
  | cons call calls ih =>
      rw [List.cons_append, leases, leases, ih, List.append_assoc]
      by_cases connects : call.connects = true
      · rw [if_pos connects, List.countP_cons_of_pos connects, List.drop_tail]
      · rw [if_neg connects, List.countP_cons_of_neg connects]

theorem leases_of_uses (uses : ∀ call ∈ calls, call.Uses socket) (s : Int) :
    leases s answers calls = if socket = s then List.replicate calls.length .use else [] := by
  induction calls with
  | nil => exact (ite_self _).symm
  | cons call calls ih =>
      obtain ⟨first, rest⟩ := List.forall_mem_cons.mp uses
      rw [leases, first.lease?, if_neg first.not_connects, ih rest]
      split <;> rfl

theorem mem_leases {lease : Lease} (mem : lease ∈ leases socket answers calls) :
    ∃ call ∈ calls, ∃ answer, call.lease? socket answer = some lease := by
  induction calls generalizing answers with
  | nil => cases mem
  | cons call calls ih =>
      rcases List.mem_append.mp mem with here | behind
      · exact ⟨call, List.mem_cons_self, _, Option.mem_toList.mp here⟩
      · obtain ⟨other, inside, made⟩ := ih behind
        exact ⟨other, List.mem_cons_of_mem call inside, made⟩

end Leases

/-- Calls on descriptors that are connected, made on descriptors that are no errors. -/
structure Linked (answers : List (Except Nat Unit)) (calls : List Call) : Prop where
  disciplined : ∀ socket, Lease.Disciplined id (leases socket answers calls)
  opened : ∀ socket addr, .connect socket addr ∈ calls → 0 ≤ socket

namespace Linked

variable {answers : List (Except Nat Unit)} {calls : List Call} {socket : Int}

theorem nil (answers : List (Except Nat Unit)) : Linked answers [] where
  disciplined _ := Lease.disciplined_nil
  opened _ _ mem := by cases mem

/-- No call is made on an error. -/
theorem nonneg (linked : Linked answers calls) (used : leases socket answers calls ≠ []) :
    0 ≤ socket := by
  obtain ⟨lease, rest, first⟩ := List.exists_cons_of_ne_nil used
  have acquires : lease = .acquire := by
    by_contra other
    have holds := linked.disciplined socket [] lease rest first other
    cases holds
  have mem : Lease.acquire ∈ leases socket answers calls := by
    rw [first, acquires]
    exact List.mem_cons_self
  obtain ⟨call, inside, answer, made⟩ := mem_leases mem
  obtain ⟨addr, rfl⟩ := Call.exists_connect_of_acquire made
  exact linked.opened socket addr inside

/-- One more call, which is no use of a descriptor that is not connected. -/
theorem append (linked : Linked answers calls) {call : Call}
    (sound : ∀ s lease, call.lease? s (answers.drop (calls.countP Call.connects)).head? =
      some lease → lease ≠ .acquire → Lease.held id (leases s answers calls) = true)
    (opened : ∀ s addr, call = .connect s addr → 0 ≤ s) : Linked answers (calls ++ [call]) where
  disciplined s := by
    rw [leases_append, leases_singleton]
    rcases made : call.lease? s (answers.drop (calls.countP Call.connects)).head? with _ | lease
    · exact (List.append_nil (leases s answers calls)).symm ▸ linked.disciplined s
    · exact Lease.disciplined_append_singleton.mpr ⟨linked.disciplined s, sound s lease made⟩
  opened s addr mem := by
    rcases List.mem_append.mp mem with inside | last
    · exact linked.opened s addr inside
    · exact opened s addr (List.mem_singleton.mp last).symm

theorem append_socket (linked : Linked answers calls) (family : AddrFamily) :
    Linked answers (calls ++ [.socket family]) :=
  linked.append (fun _ _ made => by cases made) fun _ _ same => by cases same

theorem append_connect (linked : Linked answers calls) (descriptor : 0 ≤ socket)
    (addr : SockAddr) : Linked answers (calls ++ [.connect socket addr]) := by
  refine linked.append (fun s lease made other => ?_) fun s dest same => ?_
  · rcases Call.lease?_connect s socket addr
      (answers.drop (calls.countP Call.connects)).head? with none | acquires
    · cases none.symm.trans made
    · cases acquires.symm.trans made
      exact absurd rfl other
  · cases same
    exact descriptor

theorem append_close (linked : Linked answers calls)
    (held : Lease.held id (leases socket answers calls) = true) :
    Linked answers (calls ++ [.close socket]) := by
  refine linked.append (fun s lease made _ => ?_) fun s dest same => by cases same
  rw [Call.lease?] at made
  split at made
  · next same => exact same ▸ held
  · cases made

theorem append_uses (linked : Linked answers calls)
    (held : Lease.held id (leases socket answers calls) = true) {new : List Call}
    (uses : ∀ call ∈ new, call.Uses socket) : Linked answers (calls ++ new) where
  disciplined s := by
    rw [leases_append, leases_of_uses uses]
    split
    · next same =>
        subst same
        exact (linked.disciplined socket).append_uses held fun _ => List.eq_of_mem_replicate
    · exact (List.append_nil (leases s answers calls)).symm ▸ linked.disciplined s
  opened s addr mem := by
    rcases List.mem_append.mp mem with inside | last
    · exact linked.opened s addr inside
    · exact (uses _ last).elim

end Linked

namespace HttpReplayClient

variable {answers : List (Except Nat Unit)} {c d : HttpReplayClient}

/-- A part of a replay that only writes and reads, on the socket of the client. -/
structure UsesSocket (c d : HttpReplayClient) : Prop where
  socket : d.socket = c.socket
  answers : d.answers.connect = c.answers.connect
  calls : ∃ new, d.calls = c.calls ++ new ∧ ∀ call ∈ new, call.Uses c.socket

theorem usesSocket_send (c : HttpReplayClient) (data : Bytes) : UsesSocket c (c.send data).2 := by
  obtain ⟨new, sends⟩ := c.exists_sends data
  have writes : ∀ call ∈ new, call.writes = true ∧ call.Uses c.socket := by
    intro call mem
    obtain ⟨left, rfl⟩ := sends.mine call mem
    exact ⟨rfl, rfl⟩
  have uses : ∀ call ∈ new, call.Uses c.socket := fun call mem => (writes call mem).2
  rcases sends.ends with ⟨finished, -⟩ | ⟨e, stopped, -⟩
  · rw [finished, Answers.behind_of_writes fun call mem => (writes call mem).1]
    exact ⟨rfl, rfl, new, rfl, uses⟩
  · rw [stopped]
    exact ⟨rfl, rfl, new, rfl, uses⟩

theorem usesSocket_recv (c : HttpReplayClient) (data : Bytes) : UsesSocket c (c.recv data).2 := by
  obtain ⟨new, answers, expected, test, output, left, reads⟩ := c.reads_recv data
  rw [left]
  exact ⟨rfl, rfl, new, rfl, fun call mem => reads call mem ▸ rfl⟩

/-- The calls of a client are linked, on answers of which it has those that are left, and a
connection that it holds is that of its socket. -/
structure Holds (answers : List (Except Nat Unit)) (c : HttpReplayClient) (held : Bool) :
    Prop where
  linked : Linked answers c.calls
  left : c.answers.connect = answers.drop (c.calls.countP Call.connects)
  held : held = true → Lease.held id (leases c.socket answers c.calls) = true

theorem UsesSocket.holds (uses : UsesSocket c d) (holds : Holds answers c true) :
    Holds answers d true := by
  obtain ⟨new, calls, kinds⟩ := uses.calls
  have held := holds.held rfl
  refine ⟨?_, ?_, fun _ => ?_⟩
  · rw [calls]
    exact holds.linked.append_uses held kinds
  · have none : new.countP Call.connects = 0 :=
      List.countP_eq_zero.mpr fun call mem => (kinds call mem).not_connects
    rw [uses.answers, holds.left, calls, List.countP_append, none]
    rfl
  · have used : ∀ lease ∈ List.replicate new.length Lease.use, id lease = .use :=
      fun _ => List.eq_of_mem_replicate
    rw [uses.socket, calls, leases_append, leases_of_uses kinds, if_pos rfl,
      Lease.held_append_of_uses used]
    exact held

/-- A `CONNECT`, stopped or finished. -/
theorem holds_connect {held : Bool} (holds : Holds answers c held) :
    Linked answers c.connect.2.calls ∧
      (c.connect.1 = .ok () → Holds answers c.connect.2 true) := by
  have opening := holds.linked.append_socket c.family
  have connecting (descriptor : Nat) : Linked answers (c.connected descriptor).calls := by
    rw [connected, HttpReplayClient.connecting, List.append_cons]
    exact opening.append_connect (Int.natCast_nonneg descriptor) c.testSockAddr
  rcases c.connect_cases with
    ⟨e, socket, -, stopped⟩ | ⟨descriptor, ⟨e, -, stopped⟩ | ⟨answer, finished⟩⟩
  · rw [stopped]
    exact ⟨opening, fun finished => by cases finished⟩
  · rw [stopped]
    exact ⟨connecting descriptor, fun finished => by cases finished⟩
  · rw [finished]
    refine ⟨connecting descriptor, fun _ => ⟨connecting descriptor, ?_, fun _ => ?_⟩⟩
    · change c.answers.connect.drop 1 = answers.drop ((c.calls ++ _).countP Call.connects)
      rw [holds.left, List.drop_drop, List.countP_append]
      rfl
    · have acquires : leases descriptor c.answers.connect (c.connecting descriptor) =
          [.acquire] := by
        rw [HttpReplayClient.connecting, leases, leases_singleton]
        simp [Call.lease?, Call.connects, answer]
      change Lease.held id (leases descriptor answers (c.calls ++ _)) = true
      rw [leases_append, ← holds.left, acquires]
      exact Lease.held_append_of_acquire rfl

/-- What an action leaves, if it is made without a connection only where it makes one. -/
theorem holds_execute {held : Bool} (holds : Holds answers c held) {action : Action}
    (sound : action.lease ≠ .acquire → held = true) :
    Linked answers (c.execute action).2.calls ∧ ((c.execute action).1 = .ok () →
      Holds answers (c.execute action).2 (Lease.hold Action.lease held action)) := by
  rcases action with ⟨type, data, subTokens⟩
  cases type with
  | connect => exact holds_connect holds
  | send =>
      obtain rfl := sound fun other => by cases other
      have left := (usesSocket_send c data).holds holds
      exact ⟨left.linked, fun _ => left⟩
  | recv =>
      obtain rfl := sound fun other => by cases other
      have left := (usesSocket_recv c data).holds holds
      exact ⟨left.linked, fun _ => left⟩
  | close =>
      obtain rfl := sound fun other => by cases other
      have closed := holds.linked.append_close (holds.held rfl)
      have none : [Call.close c.socket].countP Call.connects = 0 := rfl
      refine ⟨closed, fun _ => ⟨closed, ?_, fun none => by cases none⟩⟩
      change c.answers.connect =
        answers.drop ((c.calls ++ [Call.close c.socket]).countP Call.connects)
      rw [List.countP_append, none]
      exact holds.left

/-- A queue that uses a connection only while it has one is run with linked calls. -/
theorem linked_run (start : Holds answers c false) {queue : List Action}
    (disciplined : Lease.Disciplined Action.lease queue) :
    Linked answers (c.run queue).2.calls ∧
      ((c.run queue).1 = .ok () → ∃ held, Holds answers (c.run queue).2 held) := by
  have step : ∀ before action s t,
      (Lease.Disciplined Action.lease before → Holds answers s (Lease.held Action.lease before)) →
      s.execute action = (.ok (), t) → Lease.Disciplined Action.lease (before ++ [action]) →
        Holds answers t (Lease.held Action.lease (before ++ [action])) := by
    intro before action s t holds runs grown
    obtain ⟨sound, last⟩ := Lease.disciplined_append_singleton.mp grown
    have left := (holds_execute (holds sound) last).2 (congrArg Prod.fst runs)
    rw [runs] at left
    rw [Lease.held_append_singleton]
    exact left
  rw [run]
  rcases Proc.each_cut (fun action (c : HttpReplayClient) => c.execute action) queue c with
    ⟨d, done, runs⟩ | ⟨before, action, behind, d, e, left, split, done, stops, runs⟩
  · have holds := done.keeps (motive := fun before d => Lease.Disciplined Action.lease before →
      Holds answers d (Lease.held Action.lease before)) (fun _ => start) step disciplined
    rw [runs]
    exact ⟨holds.linked, fun _ => ⟨_, holds⟩⟩
  · have holds := done.keeps (motive := fun before d => Lease.Disciplined Action.lease before →
      Holds answers d (Lease.held Action.lease before)) (fun _ => start) step
    rw [split, List.append_cons] at disciplined
    obtain ⟨sound, last⟩ := Lease.disciplined_append_singleton.mp disciplined.of_append
    have part := (holds_execute (holds sound) last).1
    rw [stops] at part
    rw [runs]
    exact ⟨part, fun finished => by cases finished⟩

end HttpReplayClient

/-! ## Conversations of a capture -/

/-- Whatever a file holds, a loaded conversation uses a connection only while it has one. -/
theorem disciplined_of_load {inet : Inet} {testServers : TestServers}
    {opened : Except Bytes Capture.CaptureFile} {store : TypedConversationStore TcpConversation}
    (loaded : Capture.load (tcpConversationFactory inet) ⟨testServers, ∅⟩ opened = .ok store)
    {c : TcpConversation} (mem : c ∈ store.getConversations) :
    Lease.Disciplined Action.lease c.actionQueue := by
  obtain ⟨file, -, -, looped⟩ := Capture.load_eq_ok.mp loaded
  obtain ⟨packets, rfl, -⟩ := Capture.exists_pcapLoop_eq Capture.exists_packetHandler_tcp looped
  obtain ⟨key, found⟩ := TypedConversationStore.mem_getConversations.mp mem
  obtain ⟨before, first, behind, -, -, rfl⟩ := TypedConversationStore.exists_opener found
  have initial := TcpConversation.initial_ofPacket inet first
    (TypedConversationStore.configured (tcpConversationFactory inet) testServers first).join
  exact (initial.sound.captured (first :: behind)).disciplined

namespace HttpReplay

/-- The calls of a run are linked, and the clients of it have those answers that are left. -/
structure Links (answers : List (Except Nat Unit)) (w : HttpWorld) : Prop where
  linked : Linked answers w.calls
  left : w.answers.connect = answers.drop (w.calls.countP Call.connects)

theorem linked_replayAll {answers : List (Except Nat Unit)} {conversations : List TcpConversation}
    (disciplined : ∀ c ∈ conversations, Lease.Disciplined Action.lease c.actionQueue)
    {w : HttpWorld} (links : Links answers w) :
    Linked answers (replayAll conversations w).2.calls := by
  induction conversations generalizing w with
  | nil => exact links.linked
  | cons conversation conversations ih =>
      obtain ⟨first, rest⟩ := List.forall_mem_cons.mp disciplined
      have start : HttpReplayClient.Holds answers (client conversation w) false :=
        ⟨links.linked, links.left, fun none => by cases none⟩
      obtain ⟨here, leaves⟩ := HttpReplayClient.linked_run start first
      rcases Proc.bind_cases (replayConversation conversation) (fun _ => replayAll conversations) w
        with ⟨e, v, runs, whole⟩ | ⟨_, v, runs, whole⟩
      · have stopped : replayAll (conversation :: conversations) w = (.error e, v) := whole
        rw [stopped]
        exact congrArg (·.2.calls) runs ▸ here
      · have goes : replayAll (conversation :: conversations) w = replayAll conversations v := whole
        obtain ⟨held, holds⟩ := leaves (congrArg Prod.fst runs)
        have left : v = HttpReplay.left ((client conversation w).run conversation.actionQueue).2 :=
          (congrArg Prod.snd runs).symm
        rw [goes]
        exact ih rest (left ▸ ⟨holds.linked, holds.left⟩)

/-- Whatever the arguments are, whatever the capture file holds and whatever the system
answers: the program writes to a descriptor, reads from it and closes it only behind a
`connect` on it that has succeeded, with no `close` in between, and never on the error that
`socket` has returned. -/
theorem linked_main (inet : Inet) (openOffline : Bytes → Except Bytes Capture.CaptureFile)
    (name : Bytes) (opts : List Opt) (operands : List Bytes) (answers : Answers) :
    Linked answers.connect
        (main inet openOffline name opts operands { answers := answers }).2.calls ∧
      ∀ socket, leases socket answers.connect
        (main inet openOffline name opts operands { answers := answers }).2.calls ≠ [] →
          0 ≤ socket := by
  have linked : Linked answers.connect
      (main inet openOffline name opts operands { answers := answers }).2.calls := by
    change Linked answers.connect
      (body inet openOffline opts operands { answers := answers }).2.calls
    rcases parsed : parseOptions inet ∅ opts with f | _ | testServers
    · rw [body, Proc.bind_of_error (call_of_error parsed _)]
      exact .nil _
    · rw [body, Proc.bind_of_ok (call_of_ok parsed _)]
      exact .nil _
    · rcases operands with _ | ⟨file, _ | ⟨other, operands⟩⟩
      · rw [body, Proc.bind_of_ok (call_of_ok parsed _)]
        exact .nil _
      · rcases loaded : Capture.load (tcpConversationFactory inet) ⟨testServers, ∅⟩
          (openOffline file) with f | store
        · rw [body, Proc.bind_of_ok (call_of_ok parsed _)]
          dsimp only
          rw [Proc.bind_of_error (call_of_error loaded _)]
          exact .nil _
        · rw [body_of_loaded parsed loaded]
          exact linked_replayAll (fun c => disciplined_of_load loaded) ⟨.nil _, rfl⟩
      · rw [body, Proc.bind_of_ok (call_of_ok parsed _)]
        exact .nil _
  exact ⟨linked, fun _ => linked.nonneg⟩

end HttpReplay

end PacketReplay
