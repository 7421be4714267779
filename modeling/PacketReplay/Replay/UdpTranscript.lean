import PacketReplay.Capture.UdpQueue
import PacketReplay.Replay.UdpLifetimes

/-!
# What a UDP replay sends and reports

A replay that stops has done the actions in front of the one it stops at, whose call has no
answer or has failed, and all of them if it returns (`exists_transcript`). The datagrams
that have been sent are those of the actions that are done, and each datagram that was
received for them is reported when it is not the one that is expected, however long it is.
-/

namespace PacketReplay

open Lib
open UdpWorld

namespace UdpEvent

/-- A datagram that was sent. -/
def datagram : UdpEvent → Option (SockAddr × Bytes)
  | .sendto _ data addr (.ok _) => some (addr, data)
  | _ => none

/-- A datagram that was received. -/
def reply : UdpEvent → Option Bytes
  | .recvfrom _ _ (.ok data) => some data
  | _ => none

end UdpEvent

namespace UdpWorld

/-- Behind actions that are done, the answer to the call of another one stops a run. -/
def StopsAt (w : UdpWorld) (done : List Action) (action : Action) (stop : Stop) : Prop :=
  match action.type with
  | .send => stop.From (w.failure "sendto") w.sendto[(datagrams .send done).length]?
  | .recv => stop.From (w.failure "recvfrom") w.recvfrom[(datagrams .recv done).length]?
  | .connect => False
  | .close => False

/-- The answers that are left behind actions that are done. -/
structure UsedUp (w u : UdpWorld) (done : List Action) : Prop where
  sendto : u.sendto = w.sendto.drop (datagrams .send done).length
  recvfrom : u.recvfrom = w.recvfrom.drop (datagrams .recv done).length
  strerror : u.strerror = w.strerror

variable {w u v : UdpWorld} {done behind : List Action} {action : Action} {stop : Stop}

theorem StopsAt.defined (stops : w.StopsAt done action stop) (x : Undefined) :
    stop ≠ .fault (.undefined x) := by
  rw [StopsAt] at stops
  split at stops
  · exact stops.defined x
  · exact stops.defined x
  · cases stops
  · cases stops

theorem UsedUp.append (first : UsedUp w u done) (second : UsedUp u v behind) :
    UsedUp w v (done ++ behind) where
  sendto := by
    rw [second.sendto, first.sendto, List.drop_drop, datagrams_append, List.length_append]
  recvfrom := by
    rw [second.recvfrom, first.recvfrom, List.drop_drop, datagrams_append, List.length_append]
  strerror := second.strerror.trans first.strerror

theorem UsedUp.failure (used : UsedUp w u done) (call : String) :
    u.failure call = w.failure call := by
  funext errno
  rw [UdpWorld.failure, UdpWorld.failure, used.strerror]

/-- What stops a run on the answers that are left stops it behind the actions that have used
up the others. -/
theorem UsedUp.stopsAt (used : UsedUp w u done) (stops : u.StopsAt behind action stop) :
    w.StopsAt (done ++ behind) action stop := by
  rw [StopsAt] at stops ⊢
  cases type : action.type with
  | send =>
      rw [type] at stops
      simp only at stops ⊢
      rwa [used.sendto, used.failure, List.getElem?_drop, ← List.length_append,
        ← datagrams_append] at stops
  | recv =>
      rw [type] at stops
      simp only at stops ⊢
      rwa [used.recvfrom, used.failure, List.getElem?_drop, ← List.length_append,
        ← datagrams_append] at stops
  | connect =>
      rw [type] at stops
      exact stops
  | close =>
      rw [type] at stops
      exact stops

end UdpWorld

/-- The reports on datagrams that were received where others are expected. -/
def reports (expected replies : List Bytes) : Bytes :=
  (List.zipWith (fun expected reply => if expected = reply then [] else difference)
    expected replies).flatten

theorem reports_append {expected replies more others : List Bytes}
    (size : expected.length = replies.length) :
    reports (expected ++ more) (replies ++ others) =
      reports expected replies ++ reports more others := by
  rw [reports, List.zipWith_append size, List.flatten_append, ← reports, ← reports]

namespace UdpReplayClient

/-- The client compares packets byte by byte. -/
def Compares (c : UdpReplayClient) : Prop := c.validator = PacketValidator.validate

/-- The actions that are done, in the world behind them. -/
structure Transcript (c : UdpReplayClient) (w u : UdpWorld) (done : List Action)
    (new : List UdpEvent) : Prop where
  live : u.validatorLive = true
  events : u.events = w.events ++ new
  sent : new.filterMap UdpEvent.datagram =
    (datagrams .send done).map fun data => (c.testSockAddr, data)
  received : (new.filterMap UdpEvent.reply).length = (datagrams .recv done).length
  output : u.output =
    w.output ++ reports (datagrams .recv done) (new.filterMap UdpEvent.reply)

variable {c : UdpReplayClient} {w u v : UdpWorld} {done : List Action} {action : Action}
  {new : List UdpEvent}

/-- A datagram that is cut to the size of the buffer is not the expected one. -/
theorem judge_received (compares : c.Compares) (live : u.validatorLive = true)
    (expected datagram : Bytes) :
    c.judge expected (datagram.take (expected.length + 1024)) u =
      (.ok (), { u.log (.validate expected (datagram.take (expected.length + 1024))) with
        output := u.output ++ reports [expected] [datagram] }) := by
  have whole : expected = datagram.take (expected.length + 1024) ↔ expected = datagram := by
    constructor
    · intro same
      have size : expected.length = min (expected.length + 1024) datagram.length := by
        rw [← List.length_take, ← same]
      rw [same, List.take_of_length_le (by omega)]
    · intro same
      rw [← same, List.take_of_length_le (by omega)]
  rw [judge_of_live c u live, compares, PacketValidator.validate_eq]
  by_cases same : expected = datagram
  · rw [decide_eq_true (whole.mpr same), reports, List.zipWith_cons_cons, if_pos same]
    simp only [List.zipWith_nil_left, List.flatten_cons, List.flatten_nil, List.append_nil]
    rfl
  · rw [decide_eq_false (mt whole.mp same), reports, List.zipWith_cons_cons, if_neg same]
    simp only [List.zipWith_nil_left, List.flatten_cons, List.flatten_nil, List.append_nil]

/-- An action is done, or the answer to its call stops it, without a datagram and without a
report. -/
theorem exists_transcript_execute (compares : c.Compares) (live : w.validatorLive = true)
    (action : Action) :
    (c.execute action w).1 = .ok () ∧ UsedUp w (c.execute action w).2 [action] ∧
        (∃ new, Transcript c w (c.execute action w).2 [action] new) ∨
      (∃ e, (c.execute action w).1 = .error e ∧ w.StopsAt [] action e) ∧
        ∃ new, Transcript c w (c.execute action w).2 [] new := by
  have idle : Transcript c w w [] [] := ⟨live, (List.append_nil _).symm, rfl, rfl,
    (List.append_nil _).symm⟩
  rw [execute_apply]
  rcases action with ⟨type, data, subTokens⟩
  cases type with
  | connect =>
      exact Or.inl ⟨rfl, ⟨rfl, rfl, rfl⟩, [], live, (List.append_nil _).symm, rfl, rfl,
        (List.append_nil _).symm⟩
  | close =>
      exact Or.inl ⟨rfl, ⟨rfl, rfl, rfl⟩, [], live, (List.append_nil _).symm, rfl, rfl,
        (List.append_nil _).symm⟩
  | send =>
      rcases c.send_cases data w with
        ⟨none_left, sent⟩ | ⟨errno, behind, answers, sent⟩ | ⟨n, behind, answers, sent⟩
      · rw [sent]
        have none : w.sendto[0]? = none := by rw [none_left]; rfl
        exact Or.inr ⟨⟨_, rfl, Or.inl ⟨none, rfl⟩⟩, [], idle⟩
      · rw [sent]
        have failed : w.sendto[0]? = some (.error errno) := by rw [answers]; rfl
        exact Or.inr ⟨⟨_, rfl, Or.inr ⟨errno, failed, rfl⟩⟩, _, live, rfl, rfl, rfl,
          (List.append_nil _).symm⟩
      · rw [sent]
        have left : behind = w.sendto.drop 1 := by rw [answers]; rfl
        exact Or.inl ⟨rfl, ⟨left, rfl, rfl⟩, _, live, rfl, rfl, rfl, (List.append_nil _).symm⟩
  | recv =>
      rcases c.recv_cases data w with
        ⟨none_left, got⟩ | ⟨errno, behind, answers, got⟩ | ⟨datagram, behind, answers, got⟩
      · rw [got]
        have none : w.recvfrom[0]? = none := by rw [none_left]; rfl
        exact Or.inr ⟨⟨_, rfl, Or.inl ⟨none, rfl⟩⟩, [], idle⟩
      · rw [got]
        have failed : w.recvfrom[0]? = some (.error errno) := by rw [answers]; rfl
        exact Or.inr ⟨⟨_, rfl, Or.inr ⟨errno, failed, rfl⟩⟩, _, live, rfl, rfl, rfl,
          (List.append_nil _).symm⟩
      · rw [got, judge_received (u := c.received data w datagram behind) compares live]
        have left : behind = w.recvfrom.drop 1 := by rw [answers]; rfl
        exact Or.inl ⟨rfl, ⟨rfl, left, rfl⟩, _, live, List.append_assoc _ _ _, rfl, rfl, rfl⟩

theorem Transcript.append {behind : List Action} {more : List UdpEvent}
    (first : Transcript c w u done new) (second : Transcript c u v behind more) :
    Transcript c w v (done ++ behind) (new ++ more) where
  live := second.live
  events := by rw [second.events, first.events, List.append_assoc]
  sent := by
    rw [List.filterMap_append, first.sent, second.sent, datagrams_append, List.map_append]
  received := by
    rw [List.filterMap_append, List.length_append, first.received, second.received,
      datagrams_append, List.length_append]
  output := by
    rw [second.output, first.output, List.filterMap_append, datagrams_append,
      reports_append first.received.symm, List.append_assoc]

/-- How a replay ends: behind all actions, or at one whose call has no answer or has
failed. -/
inductive Halts (w : UdpWorld) (done : List Action) : List Action → Except Stop Unit → Prop
  | finished : Halts w done [] (.ok ())
  | stopped {action : Action} {behind : List Action} {stop : Stop}
      (stops : w.StopsAt done action stop) : Halts w done (action :: behind) (.error stop)

theorem Halts.defined {rest : List Action} {r : Except Stop Unit} (halts : Halts w done rest r) :
    ¬ Undefines r := by
  cases halts with
  | finished => exact not_undefines fun u same => by cases same
  | stopped stops => exact not_undefines fun u same => stops.defined u (by cases same; rfl)

theorem Halts.behind {before rest : List Action} {r : Except Stop Unit} (used : UsedUp w u before)
    (halts : Halts u done rest r) : Halts w (before ++ done) rest r := by
  cases halts with
  | finished => exact .finished
  | stopped stops => exact .stopped (used.stopsAt stops)

/-- A replay is done with all actions, or with those in front of one that stops it. -/
theorem exists_transcript (compares : c.Compares) (live : w.validatorLive = true)
    (queue : List Action) :
    ∃ done rest new, queue = done ++ rest ∧ Transcript c w (c.replay queue w).2 done new ∧
      Halts w done rest (c.replay queue w).1 := by
  have begins : Transcript c w w [] [] :=
    ⟨live, (List.append_nil _).symm, rfl, rfl, (List.append_nil _).symm⟩
  have step : ∀ before action s t, UsedUp w s before ∧ (∃ new, Transcript c w s before new) →
      c.execute action s = (.ok (), t) →
        UsedUp w t (before ++ [action]) ∧ ∃ new, Transcript c w t (before ++ [action]) new := by
    intro before action s t ⟨used, new, first⟩ runs
    rcases exists_transcript_execute compares first.live action with
      ⟨-, uses, more, second⟩ | ⟨⟨e, stops, -⟩, -⟩
    · rw [runs] at second uses
      exact ⟨used.append uses, new ++ more, first.append second⟩
    · rw [runs] at stops
      cases stops
  rcases Proc.each_cut c.execute queue w with
    ⟨u, done, runs⟩ | ⟨before, action, behind, u, e, v, rfl, done, stops, runs⟩
  · obtain ⟨-, new, transcript⟩ := done.keeps
      (motive := fun before t => UsedUp w t before ∧ ∃ new, Transcript c w t before new)
      ⟨⟨rfl, rfl, rfl⟩, [], begins⟩ step
    rw [replay, runs]
    exact ⟨queue, [], new, (List.append_nil queue).symm, transcript, .finished⟩
  · obtain ⟨used, new, first⟩ := done.keeps
      (motive := fun before t => UsedUp w t before ∧ ∃ new, Transcript c w t before new)
      ⟨⟨rfl, rfl, rfl⟩, [], begins⟩ step
    rw [replay, runs]
    rcases exists_transcript_execute compares first.live action with
      ⟨finished, -⟩ | ⟨⟨f, stopped, at_action⟩, more, second⟩
    · rw [stops] at finished
      cases finished
    · rw [stops] at second stopped
      cases stopped
      have here := used.stopsAt at_action
      have whole := first.append second
      rw [List.append_nil] at here whole
      exact ⟨before, action :: behind, new ++ more, rfl, whole, .stopped here⟩

/-- How a run over a conversation ends: at the call that opens its socket, or as the replay
on that socket does. -/
inductive Ends (w : UdpWorld) : List Action → List Action → Except Stop Unit → Prop
  | socket {rest : List Action} {stop : Stop}
      (stops : stop.From (w.failure "socket") w.socket.head?) : Ends w [] rest (.error stop)
  | replay {done rest : List Action} {r : Except Stop Unit} {n : Nat}
      (opened : w.socket.head? = some (.ok n)) (halts : Halts w done rest r) : Ends w done rest r

/-- A run that returns has done all actions. -/
theorem Ends.rest_eq_nil {rest : List Action} (ends : Ends w done rest (.ok ())) : rest = [] := by
  cases ends with
  | replay _ halts =>
      cases halts
      rfl

/-- What a run over a conversation has done when the actions are done: the datagrams are
sent to the test server, in order, and every answer that is not the expected datagram is
reported. -/
structure Replayed {α : Type} (conversation : UdpConversation) (done : List Action)
    (r : Except Stop α × UdpWorld) : Prop where
  defined : ¬ Undefines r.1
  sent : r.2.events.filterMap UdpEvent.datagram =
    (datagrams .send done).map fun data => (conversation.testSockAddr, data)
  answered : (r.2.events.filterMap UdpEvent.reply).length = (datagrams .recv done).length
  output : r.2.output = reports (datagrams .recv done) (r.2.events.filterMap UdpEvent.reply)

theorem replayed_nil {conversation : UdpConversation} {r : Except Stop Unit × UdpWorld}
    (defined : ¬ Undefines r.1) (sent : r.2.events.filterMap UdpEvent.datagram = [])
    (answered : r.2.events.filterMap UdpEvent.reply = []) (output : r.2.output = []) :
    Replayed conversation [] r where
  defined := defined
  sent := sent
  answered := congrArg List.length answered
  output := by rw [output, answered]; rfl

theorem filterMap_between {α β : Type} {f : α → Option β} {before behind : List α}
    (none : (before ++ behind).filterMap f = []) (middle : List α) :
    (before ++ (middle ++ behind)).filterMap f = middle.filterMap f := by
  rw [List.filterMap_append, List.append_eq_nil_iff] at none
  rw [List.filterMap_append, List.filterMap_append, none.1, none.2, List.append_nil,
    List.nil_append]

/-- The transcript of a run is that of its replay when nothing was sent and received in
front of it and behind it. -/
theorem Transcript.replayed {conversation : UdpConversation} {r : Except Stop Unit × UdpWorld}
    {before behind : List UdpEvent} (transcript : Transcript c w u done new)
    (dest : c.testSockAddr = conversation.testSockAddr) (defined : ¬ Undefines r.1)
    (start : w.events = before ∧ w.output = []) (finish : r.2.events = u.events ++ behind)
    (output : r.2.output = u.output)
    (silent : (before ++ behind).filterMap UdpEvent.datagram = [] ∧
      (before ++ behind).filterMap UdpEvent.reply = []) : Replayed conversation done r := by
  have events : r.2.events = before ++ (new ++ behind) := by
    rw [finish, transcript.events, start.1, List.append_assoc]
  have replies : r.2.events.filterMap UdpEvent.reply = new.filterMap UdpEvent.reply := by
    rw [events, filterMap_between silent.2]
  refine ⟨defined, ?_, ?_, ?_⟩
  · rw [events, filterMap_between silent.1, transcript.sent, dest]
  · rw [replies, transcript.received]
  · rw [output, transcript.output, start.2, replies]
    rfl

/-- A run over one conversation is a replay of its actions or of those in front of the one
that stops it. -/
theorem exists_replayed (conversation : UdpConversation) (answers : UdpAnswers) :
    ∃ done rest, conversation.actionQueue = done ++ rest ∧
      Replayed conversation done
        (run PacketValidator.validate [conversation] { toUdpAnswers := answers }) ∧
      Ends { toUdpAnswers := answers } done rest
        (run PacketValidator.validate [conversation] { toUdpAnswers := answers }).1 := by
  rw [run_start, replayAll, Proc.each_singleton]
  rcases replayConversation_cases (started answers) PacketValidator.validate conversation with
    ⟨none_left, runs⟩ | ⟨errno, behind, failed, runs⟩ | ⟨n, behind, opened, runs⟩
  · rw [runs]
    have none : answers.socket.head? = none := List.head?_eq_none_iff.mpr none_left
    exact ⟨[], _, rfl, replayed_nil (not_undefines fun u same => (by cases same)) rfl rfl rfl,
      .socket (Or.inl ⟨none, rfl⟩)⟩
  · rw [runs]
    have first : answers.socket.head? = some (.error errno) := by
      rw [show answers.socket = .error errno :: behind from failed, List.head?_cons]
    exact ⟨[], _, rfl, replayed_nil (not_undefines fun u same => (by cases same)) rfl rfl rfl,
      .socket (Or.inr ⟨errno, first, rfl⟩)⟩
  · have created : (0 : Int) ≤ n := Int.natCast_nonneg n
    have first : answers.socket.head? = some (.ok n) := by
      rw [show answers.socket = .ok n :: behind from opened, List.head?_cons]
    have live : ({ started answers with socket := behind }.log
      (.socket conversation.addrFamily (.ok n))).validatorLive = true := rfl
    obtain ⟨done, rest, new, queue, transcript, halts⟩ := exists_transcript
      (c := ⟨conversation.testSockAddr, PacketValidator.validate, n⟩) rfl live
      conversation.actionQueue
    have untouched : UsedUp { toUdpAnswers := answers }
        ({ started answers with socket := behind }.log
          (.socket conversation.addrFamily (.ok n))) [] := ⟨rfl, rfl, rfl⟩
    have ends := Ends.replay (w := { toUdpAnswers := answers }) first (halts.behind untouched)
    have defined := halts.defined
    refine ⟨done, rest, queue, ?_⟩
    rw [runs]
    by_cases returns : Returns (replay ⟨conversation.testSockAddr, PacketValidator.validate, n⟩
      conversation.actionQueue ({ started answers with socket := behind }.log
        (.socket conversation.addrFamily (.ok n)))).1
    · rw [live_of_returns _ created returns, live]
      refine ⟨?_, ends⟩
      exact transcript.replayed rfl defined ⟨rfl, rfl⟩ (List.append_assoc _ _ _) rfl ⟨rfl, rfl⟩
    · rw [live_of_not_returns _ returns]
      refine ⟨?_, ends⟩
      exact transcript.replayed rfl defined ⟨rfl, rfl⟩ (List.append_nil _).symm rfl ⟨rfl, rfl⟩

end UdpReplayClient

end PacketReplay
