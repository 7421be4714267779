import PacketReplay.Lib.Proc
import PacketReplay.Replay.HttpActions
import PacketReplay.Replay.OpenSocket

/-!
# What an HTTP replay puts on the wire

However the system cuts the writes, the bytes that it takes from a replay are those of the
`SEND`s of the queue, each behind as many `CONNECT`s (`wire_replay`).
-/

namespace PacketReplay

open Lib

namespace HttpReplayClient

/-- The loop of `replay` as a procedure on the client. -/
def run (c : HttpReplayClient) (queue : List Action) : Result :=
  Proc.each (fun action c => c.execute action) queue c

/-- The loop leaves what the last action that is executed leaves, and ends well when each
of them does. -/
theorem run_eq (c : HttpReplayClient) (queue : List Action) :
    (c.run queue).2 = leaves step stops c queue ∧
      ((c.run queue).1 = .ok () ↔ ∀ entry ∈ c.replay queue, entry.1.result = .ok ()) := by
  induction queue generalizing c with
  | nil => exact ⟨rfl, iff_of_true rfl fun entry mem => by cases mem⟩
  | cons action queue ih =>
      cases goes : stops (c.step action).1 with
      | true =>
          rcases executed : c.execute action with ⟨e | _, left⟩
          · have runs : c.run (action :: queue) = (.error e, left) := Proc.bind_of_error executed
            rw [runs, replay, leaves, trace_cons_of_ends goes]
            refine ⟨(congrArg Prod.snd executed).symm, iff_of_false (fun done => by cases done) ?_⟩
            intro finished
            have result := finished _ List.mem_cons_self
            change (c.execute action).1 = .ok () at result
            rw [executed] at result
            cases result
          · rw [step, executed] at goes
            cases goes
      | false =>
          have finished := stops_eq_false_iff.mp goes
          rcases executed : c.execute action with ⟨e | _, left⟩
          · change (c.execute action).1 = .ok () at finished
            rw [executed] at finished
            cases finished
          · have runs : c.run (action :: queue) = left.run queue := Proc.bind_of_ok executed
            have next : (c.step action).2 = left := congrArg Prod.snd executed
            rw [runs, replay, leaves_cons_of_goes goes, trace_cons_of_goes goes, next,
              List.forall_mem_cons]
            refine ⟨(ih left).1, (ih left).2.trans ?_⟩
            exact (and_iff_right finished).symm

/-! ## What goes out -/

/-- What a part of a replay puts on the wire, and the answers to `write` that it leaves. -/
structure Puts (c d : HttpReplayClient) (new : List Call) (actions : List Action) :
    Prop extends Carries new c.answers.write actions where
  calls : d.calls = c.calls ++ new
  write : d.answers.write = c.answers.write.drop (new.countP Call.writes)
  dest : d.testSockAddr = c.testSockAddr
  directed : ∀ call ∈ new, call.GoesTo c.testSockAddr

/-- What an action that is stopped has put on the wire. -/
structure PutsPart (c d : HttpReplayClient) (new : List Call) (action : Action) : Prop where
  calls : d.calls = c.calls ++ new
  bytes : ∀ k, wire k new c.answers.write <+: spoken k [action]
  directed : ∀ call ∈ new, call.GoesTo c.testSockAddr

variable {c d e : HttpReplayClient} {new more : List Call} {action : Action}
  {before behind : List Action}

theorem Puts.part (puts : Puts c d new [action]) : PutsPart c d new action where
  calls := puts.calls
  bytes k := puts.bytes k ▸ List.prefix_rfl
  directed := puts.directed

theorem Puts.append (first : Puts c d new before) (second : Puts d e more behind) :
    Puts c e (new ++ more) (before ++ behind) where
  toCarries := first.toCarries.append (first.write ▸ second.toCarries)
  calls := by rw [second.calls, first.calls, List.append_assoc]
  write := by rw [second.write, first.write, List.drop_drop, List.countP_append]
  dest := second.dest.trans first.dest
  directed := List.forall_mem_append.mpr ⟨first.directed, first.dest ▸ second.directed⟩

/-- Calls that write nothing and connect to nothing, for an action that sends nothing. -/
theorem Puts.of_silent (kinds : ∀ call ∈ new, call.writes = false ∧ call.connects = false)
    (silent : ∀ k, spoken k [action] = []) (stays : action.type ≠ .connect)
    (calls : d.calls = c.calls ++ new) (write : d.answers.write = c.answers.write)
    (dest : d.testSockAddr = c.testSockAddr) : Puts c d new [action] where
  connected := by
    rw [List.countP_cons_of_neg (by simpa using stays), List.countP_nil]
    exact List.countP_eq_zero.mpr fun call mem => Bool.eq_false_iff.mp (kinds call mem).2
  bytes k := by
    rw [silent, wire_of_no_writes fun call mem => (kinds call mem).1]
  calls := calls
  write := by
    rw [write, List.countP_eq_zero.mpr fun call mem => Bool.eq_false_iff.mp (kinds call mem).1]
    rfl
  dest := dest
  directed call mem := Call.goesTo_of_connects (kinds call mem).2 _

/-- A `CONNECT` that is finished makes a connection. -/
theorem exists_puts_connect (c : HttpReplayClient) (data : Bytes) (subTokens : List SubToken) :
    ∃ new, PutsPart c c.connect.2 new ⟨.connect, data, subTokens⟩ ∧
      (c.connect.1 = .ok () → Puts c c.connect.2 new [⟨.connect, data, subTokens⟩]) := by
  have puts (descriptor : Nat) :
      Puts c (c.connected descriptor) (c.connecting descriptor) [⟨.connect, data, subTokens⟩] := by
    refine ⟨⟨rfl, fun k => rfl⟩, rfl, rfl, rfl, fun call mem => ?_⟩
    rcases List.mem_pair.mp mem with rfl | rfl
    · trivial
    · rfl
  rcases c.connect_cases with
    ⟨e, socket, -, stopped⟩ | ⟨descriptor, ⟨e, -, stopped⟩ | ⟨-, finished⟩⟩
  · rw [stopped]
    refine ⟨[.socket c.family], ⟨rfl, fun k => List.nil_prefix, fun call mem => ?_⟩,
      fun finished => by cases finished⟩
    rw [List.mem_singleton.mp mem]
    trivial
  · rw [stopped]
    exact ⟨_, (puts descriptor).part, fun _ => puts descriptor⟩
  · rw [finished]
    exact ⟨_, (puts descriptor).part, fun _ => puts descriptor⟩

/-- A `SEND` writes its data, or a part of it. -/
theorem exists_puts_send (c : HttpReplayClient) (data : Bytes) (subTokens : List SubToken) :
    ∃ new, PutsPart c (c.send data).2 new ⟨.send, data, subTokens⟩ ∧
      ((c.send data).1 = .ok () → Puts c (c.send data).2 new [⟨.send, data, subTokens⟩]) := by
  have spoke (k : Nat) : spoken k [⟨.send, data, subTokens⟩] = data.map (k, ·) :=
    List.append_nil _
  obtain ⟨new, sends⟩ := c.exists_sends data
  have connects : ∀ call ∈ new, call.connects = false := by
    intro call mem
    obtain ⟨left, rfl⟩ := sends.mine call mem
    rfl
  have directed : ∀ call ∈ new, call.GoesTo c.testSockAddr :=
    fun call mem => Call.goesTo_of_connects (connects call mem) _
  refine ⟨new, ?_⟩
  rcases sends.ends with ⟨finished, bytes⟩ | ⟨e, stopped, -⟩
  · have puts : Puts c (c.send data).2 new [⟨.send, data, subTokens⟩] := by
      rw [finished]
      refine ⟨⟨?_, fun k => (bytes k).trans (spoke k).symm⟩, rfl, rfl, rfl, directed⟩
      exact List.countP_eq_zero.mpr fun call mem => Bool.eq_false_iff.mp (connects call mem)
    exact ⟨puts.part, fun _ => puts⟩
  · rw [stopped]
    exact ⟨⟨rfl, fun k => spoke k ▸ sends.part k, directed⟩, fun finished => by cases finished⟩

theorem exists_puts_recv (c : HttpReplayClient) (data : Bytes) (subTokens : List SubToken) :
    ∃ new, Puts c (c.recv data).2 new [⟨.recv, data, subTokens⟩] := by
  obtain ⟨new, answers, expected, test, output, left, reads⟩ := c.reads_recv data
  refine ⟨new, .of_silent (fun call mem => ?_) (fun k => rfl) (by simp) ?_ ?_ ?_⟩
  · rw [reads call mem]
    exact ⟨rfl, rfl⟩
  · rw [left]
  · rw [left]
  · rw [left]

/-- What an action puts on the wire, stopped or finished. -/
theorem exists_puts_execute (c : HttpReplayClient) (action : Action) :
    ∃ new, PutsPart c (c.execute action).2 new action ∧
      ((c.execute action).1 = .ok () → Puts c (c.execute action).2 new [action]) := by
  rcases action with ⟨type, data, subTokens⟩
  cases type with
  | connect => exact exists_puts_connect c data subTokens
  | send => exact exists_puts_send c data subTokens
  | recv =>
      obtain ⟨new, puts⟩ := exists_puts_recv c data subTokens
      exact ⟨new, puts.part, fun _ => puts⟩
  | close =>
      have puts : Puts c c.close.2 [.close c.socket] [⟨.close, data, subTokens⟩] :=
        .of_silent (fun call mem => List.mem_singleton.mp mem ▸ ⟨rfl, rfl⟩) (fun k => rfl)
          (by simp) rfl rfl rfl
      exact ⟨_, puts.part, fun _ => puts⟩

/-- What goes out in a run: what its actions send, up to where it stops. -/
structure Goes (c : HttpReplayClient) (r : Result) (new : List Call) (queue : List Action) :
    Prop where
  calls : r.2.calls = c.calls ++ new
  directed : ∀ call ∈ new, call.GoesTo c.testSockAddr
  part : ∀ k, wire k new c.answers.write <+: spoken k queue
  whole : r.1 = .ok () → Puts c r.2 new queue

theorem exists_goes (c : HttpReplayClient) (queue : List Action) :
    ∃ new, Goes c (c.run queue) new queue := by
  have start : Puts c c [] [] :=
    ⟨.nil, (List.append_nil _).symm, rfl, rfl, fun call mem => by cases mem⟩
  have step : ∀ before action s t, (∃ new, Puts c s new before) →
      s.execute action = (.ok (), t) → ∃ new, Puts c t new (before ++ [action]) := by
    intro before action s t ⟨new, puts⟩ runs
    obtain ⟨more, -, next⟩ := exists_puts_execute s action
    rw [runs] at next
    exact ⟨new ++ more, puts.append (next rfl)⟩
  rw [run]
  rcases Proc.each_cut (fun action (c : HttpReplayClient) => c.execute action) queue c with
    ⟨d, done, runs⟩ | ⟨before, action, behind, d, e, left, split, done, stops, runs⟩
  · obtain ⟨new, puts⟩ := done.keeps (motive := fun before d => ∃ new, Puts c d new before)
      ⟨[], start⟩ step
    rw [runs]
    exact ⟨new, puts.calls, puts.directed, fun k => puts.bytes k ▸ List.prefix_rfl, fun _ => puts⟩
  · obtain ⟨new, puts⟩ := done.keeps (motive := fun before d => ∃ new, Puts c d new before)
      ⟨[], start⟩ step
    obtain ⟨more, part, -⟩ := exists_puts_execute d action
    rw [stops] at part
    rw [runs]
    refine ⟨new ++ more, ?_, ?_, fun k => ?_, fun ended => by cases ended⟩
    · rw [part.calls, puts.calls, List.append_assoc]
    · exact List.forall_mem_append.mpr ⟨puts.directed, puts.dest ▸ part.directed⟩
    · rw [puts.wire_append, ← puts.write, split, spoken_append, List.prefix_append_right_inj,
        ← List.singleton_append, spoken_append]
      exact (part.bytes _).trans (List.prefix_append _ _)

/-- What goes out in a replay of a conversation, on connections to its test server: the
bytes that its queue sends, up to where the replay stops. -/
structure WireOf (conversation : TcpConversation) (answers : Answers) (r : Result) : Prop where
  directed : ∀ call ∈ r.2.calls, call.GoesTo conversation.testSockAddr
  part : wire 0 r.2.calls answers.write <+: spoken 0 conversation.actionQueue
  whole : r.1 = .ok () → wire 0 r.2.calls answers.write = spoken 0 conversation.actionQueue

/-- However the system answers, and however it cuts the writes: what goes out is in front of
what the queue sends, on the same connections, and all of it where no action is stopped. -/
theorem wire_replay (conversation : TcpConversation) (answers : Answers) :
    WireOf conversation answers
      ((ofConversation conversation answers).run conversation.actionQueue) := by
  obtain ⟨new, goes⟩ := exists_goes (ofConversation conversation answers) conversation.actionQueue
  have calls : ((ofConversation conversation answers).run conversation.actionQueue).2.calls = new :=
    goes.calls
  constructor
  · rw [calls]
    exact goes.directed
  · rw [calls]
    exact goes.part 0
  · intro ended
    rw [calls]
    exact (goes.whole ended).bytes 0

end HttpReplayClient

end PacketReplay
