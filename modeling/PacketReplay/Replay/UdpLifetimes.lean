import PacketReplay.Lib.Checked
import PacketReplay.Replay.UdpReplay

/-!
# Sockets and the validator of a UDP replay

Each client opens a socket of its own and closes it, so a run over any conversations uses
sockets one after the other (`sockets_run`). The validator is shared: the first client
deletes it, and the second, if there is one, has none (`validator_run`).
-/

namespace PacketReplay

open Lib
open UdpWorld

namespace UdpReplayClient

/-- The call returns or throws. -/
def Returns {α : Type} (r : Except Stop α) : Prop :=
  ∀ e, r = .error e → ∃ exn, e = .fault (.thrown exn)

/-- The events of a replay of the client. -/
def Owns (c : UdpReplayClient) : UdpEvent → Prop
  | .sendto socket _ addr _ => socket = c.socket ∧ addr = c.testSockAddr
  | .recvfrom socket _ _ => socket = c.socket
  | .validate _ _ => True
  | _ => False

theorem owns_sendto (c : UdpReplayClient) (data : Bytes) (answer : Except Nat Nat) :
    c.Owns (.sendto c.socket data c.testSockAddr answer) := ⟨rfl, rfl⟩

theorem owns_recvfrom (c : UdpReplayClient) (size : Nat) (answer : Except Nat Bytes) :
    c.Owns (.recvfrom c.socket size answer) := rfl

theorem owns_validate (c : UdpReplayClient) (expected actual : Bytes) :
    c.Owns (.validate expected actual) := trivial

/-- What a replay of the client does to the world. -/
structure Replays (c : UdpReplayClient) (w u : UdpWorld) : Prop where
  live : u.validatorLive = w.validatorLive
  socket : u.socket = w.socket
  events : ∃ new, u.events = w.events ++ new ∧ ∀ event ∈ new, c.Owns event

section Replay

variable {c : UdpReplayClient} {w u v : UdpWorld}

theorem Replays.refl (c : UdpReplayClient) (w : UdpWorld) : Replays c w w where
  live := rfl
  socket := rfl
  events := ⟨[], (List.append_nil _).symm, fun _ mem => by cases mem⟩

theorem Replays.trans (first : Replays c w u) (second : Replays c u v) : Replays c w v where
  live := second.live.trans first.live
  socket := second.socket.trans first.socket
  events := by
    obtain ⟨new, before, own⟩ := first.events
    obtain ⟨more, behind, also⟩ := second.events
    refine ⟨new ++ more, by rw [behind, before, List.append_assoc], fun event mem => ?_⟩
    rcases List.mem_append.mp mem with inside | last
    · exact own event inside
    · exact also event last

/-- One event, and another state of the answers and the output. -/
theorem Replays.of_log {event : UdpEvent} (own : c.Owns event)
    (live : u.validatorLive = w.validatorLive) (socket : u.socket = w.socket)
    (events : u.events = w.events ++ [event]) : Replays c w u where
  live := live
  socket := socket
  events := ⟨[event], events, fun other mem => by rw [List.mem_singleton.mp mem]; exact own⟩

theorem replays_judge (c : UdpReplayClient) (expected actual : Bytes) (w : UdpWorld) :
    Replays c w (c.judge expected actual w).2 := by
  cases live : w.validatorLive with
  | false =>
      rw [judge_of_dead c w live]
      exact .refl c w
  | true =>
      rw [judge_of_live c w live]
      split
      · exact .of_log (c.owns_validate expected actual) rfl rfl rfl
      · exact .of_log (c.owns_validate expected actual) rfl rfl rfl
      · exact .of_log (c.owns_validate expected actual) rfl rfl rfl

theorem replays_execute (c : UdpReplayClient) (action : Action) (w : UdpWorld) :
    Replays c w (c.execute action w).2 := by
  rw [execute_apply]
  split
  · rcases c.send_cases action.data w with
      ⟨-, sent⟩ | ⟨errno, behind, -, sent⟩ | ⟨n, behind, -, sent⟩
    · rw [sent]
      exact .refl c w
    · rw [sent]
      exact .of_log (c.owns_sendto _ _) rfl rfl rfl
    · rw [sent]
      exact .of_log (c.owns_sendto _ _) rfl rfl rfl
  · rcases c.recv_cases action.data w with
      ⟨-, got⟩ | ⟨errno, behind, -, got⟩ | ⟨datagram, behind, -, got⟩
    · rw [got]
      exact .refl c w
    · rw [got]
      exact .of_log (c.owns_recvfrom _ _) rfl rfl rfl
    · rw [got]
      have first : Replays c w (c.received action.data w datagram behind) :=
        .of_log (c.owns_recvfrom _ _) rfl rfl rfl
      exact first.trans (replays_judge c _ _ _)
  · exact .refl c w
  · exact .refl c w

theorem replays_replay (c : UdpReplayClient) (queue : List Action) (w : UdpWorld) :
    Replays c w (c.replay queue w).2 :=
  Proc.each_along (Replays.refl c) Replays.trans (replays_execute c) queue w

/-- It is only a validator that has been deleted that makes a replay undefined. -/
theorem dead_of_judge {expected actual : Bytes} {f : Undefined}
    (sound : ∀ expected actual, Defined (c.validator expected actual))
    (undefined : (c.judge expected actual w).1 = .error (.fault (.undefined f))) :
    w.validatorLive = false := by
  by_contra live
  rw [Bool.not_eq_false] at live
  rw [judge_of_live c w live] at undefined
  split at undefined
  · next g verdict =>
      cases undefined
      exact sound _ _ f verdict
  · cases undefined
  · cases undefined

theorem dead_of_execute {action : Action} {f : Undefined}
    (sound : ∀ expected actual, Defined (c.validator expected actual))
    (undefined : (c.execute action w).1 = .error (.fault (.undefined f))) :
    w.validatorLive = false := by
  rw [execute_apply] at undefined
  split at undefined
  · rcases c.send_cases action.data w with
      ⟨-, sent⟩ | ⟨errno, behind, -, sent⟩ | ⟨n, behind, -, sent⟩
    · rw [sent] at undefined
      cases undefined
    · rw [sent] at undefined
      cases undefined
    · rw [sent] at undefined
      cases undefined
  · rcases c.recv_cases action.data w with
      ⟨-, got⟩ | ⟨errno, behind, -, got⟩ | ⟨datagram, behind, -, got⟩
    · rw [got] at undefined
      cases undefined
    · rw [got] at undefined
      cases undefined
    · rw [got] at undefined
      exact dead_of_judge (w := c.received action.data w datagram behind) sound undefined
  · cases undefined
  · cases undefined

theorem dead_of_replay {queue : List Action} {f : Undefined}
    (sound : ∀ expected actual, Defined (c.validator expected actual))
    (undefined : (c.replay queue w).1 = .error (.fault (.undefined f))) :
    w.validatorLive = false := by
  rcases Proc.each_cut c.execute queue w with
    ⟨u, -, runs⟩ | ⟨before, action, behind, u, e, v, -, done, stops, runs⟩
  · rw [replay, runs] at undefined
    cases undefined
  · rw [replay, runs] at undefined
    cases undefined
    have replays : Replays c w u := by
      refine done.keeps (motive := fun _ u => Replays c w u) (.refl c w) ?_
      intro _ action u v replays next
      have step := replays_execute c action u
      rw [next] at step
      exact replays.trans step
    rw [← replays.live]
    exact dead_of_execute sound (congrArg Prod.fst stops)

end Replay

/-! ## The life of a client -/

section Life

variable (c : UdpReplayClient) (queue : List Action) (w : UdpWorld)

/-- The world behind a client that is destroyed. -/
def destroyed (w : UdpWorld) : UdpWorld :=
  { (w.log (.close c.socket)).log .deleteValidator with validatorLive := false }

variable {c w}

theorem destroy_of_live (created : 0 ≤ c.socket) (live : w.validatorLive = true) :
    c.destroy w = (.ok (), c.destroyed w) := by
  have closed : happens (.close c.socket) w = (.ok (), w.log (.close c.socket)) := rfl
  rw [destroy, if_pos created]
  exact (Proc.bind_of_ok closed).trans (if_pos live)

theorem destroy_of_dead (created : 0 ≤ c.socket) (dead : w.validatorLive = false) :
    c.destroy w = (.error (.fault (.undefined .indeterminateValue)), w.log (.close c.socket)) := by
  have closed : happens (.close c.socket) w = (.ok (), w.log (.close c.socket)) := rfl
  rw [destroy, if_pos created]
  exact (Proc.bind_of_ok closed).trans
    (if_neg fun live => Bool.false_ne_true (dead.symm.trans live))

/-- A replay that returns or throws destroys the client. -/
theorem live_of_returns (created : 0 ≤ c.socket) (returns : Returns (c.replay queue w).1) :
    c.live queue w =
      match w.validatorLive with
      | true => ((c.replay queue w).1, c.destroyed (c.replay queue w).2)
      | false => (.error (.fault (.undefined .indeterminateValue)),
          (c.replay queue w).2.log (.close c.socket)) := by
  have same := (replays_replay c queue w).live
  rw [live]
  rcases run : c.replay queue w with ⟨e | _, left⟩
  · rw [run] at returns same
    obtain ⟨exn, rfl⟩ := returns e rfl
    rw [← same]
    cases there : left.validatorLive with
    | true => exact Proc.bind_of_ok (destroy_of_live created there)
    | false => exact Proc.bind_of_error (destroy_of_dead created there)
  · rw [run] at same
    rw [← same]
    cases there : left.validatorLive with
    | true => exact destroy_of_live created there
    | false => exact destroy_of_dead created there

/-- One that does not is not left. -/
theorem live_of_not_returns (stuck : ¬ Returns (c.replay queue w).1) :
    c.live queue w = c.replay queue w := by
  rw [live]
  rcases run : c.replay queue w with ⟨((exn | u) | _) | _, left⟩
  · rw [run] at stuck
    exact absurd (fun e error => by cases error; exact ⟨exn, rfl⟩) stuck
  · rfl
  · rfl
  · rw [run] at stuck
    exact absurd (fun e error => by cases error) stuck

end Life

end UdpReplayClient

/-! ## Sockets -/

namespace UdpEvent

/-- The socket that is open behind an event. -/
def socketBehind (held : Option Int) : UdpEvent → Option Int
  | .socket _ (.ok n) => some n
  | .close _ => none
  | _ => held

/-- A socket is opened while none is open, and what is done with a socket is done with the
one that is. -/
def Finds (held : Option Int) : UdpEvent → Prop
  | .socket _ _ => held = none
  | .sendto n _ _ _ => held = some n
  | .recvfrom n _ _ => held = some n
  | .close n => held = some n
  | _ => True

def heldBehind (held : Option Int) (events : List UdpEvent) : Option Int :=
  events.foldl socketBehind held

/-- Every event finds the socket that it needs. -/
def Disciplined (held : Option Int) : List UdpEvent → Prop
  | [] => True
  | event :: events => event.Finds held ∧ Disciplined (socketBehind held event) events

variable {held : Option Int} {events more : List UdpEvent}

theorem heldBehind_append :
    heldBehind held (events ++ more) = heldBehind (heldBehind held events) more :=
  List.foldl_append

theorem disciplined_append :
    Disciplined held (events ++ more) ↔
      Disciplined held events ∧ Disciplined (heldBehind held events) more := by
  induction events generalizing held with
  | nil => exact (true_and _).symm.to_iff
  | cons event events ih =>
      rw [List.cons_append, Disciplined, Disciplined, ih, and_assoc]
      rfl

/-- A socket is opened. -/
def opensSocket : UdpEvent → Bool
  | .socket _ (.ok _) => true
  | _ => false

end UdpEvent

open UdpEvent

namespace UdpReplayClient

variable {c : UdpReplayClient} {w u : UdpWorld} {events : List UdpEvent}

/-- The events of a replay find the socket of the client and leave it open. -/
theorem disciplined_of_owns (own : ∀ event ∈ events, c.Owns event) :
    Disciplined (some c.socket) events ∧ heldBehind (some c.socket) events = some c.socket ∧
      events.countP opensSocket = 0 := by
  induction events with
  | nil => exact ⟨trivial, rfl, rfl⟩
  | cons event events ih =>
      obtain ⟨inside, held, none⟩ := ih fun other mem => own other (List.mem_cons_of_mem event mem)
      have mine := own event List.mem_cons_self
      cases event with
      | sendto socket data addr answer =>
          obtain ⟨rfl, -⟩ := mine
          exact ⟨⟨rfl, inside⟩, held, none⟩
      | recvfrom socket size answer =>
          cases mine
          exact ⟨⟨rfl, inside⟩, held, none⟩
      | validate expected actual => exact ⟨⟨trivial, inside⟩, held, none⟩
      | socket family answer => exact mine.elim
      | close socket => exact mine.elim
      | newValidator => exact mine.elim
      | deleteValidator => exact mine.elim

/-! ## Conversations -/

/-- The call is undefined. -/
def Undefines {α : Type} (r : Except Stop α) : Prop := ∃ u, r = .error (.fault (.undefined u))

theorem not_undefines {α : Type} {r : Except Stop α}
    (defined : ∀ u, r ≠ .error (.fault (.undefined u))) : ¬ Undefines r := not_exists.mpr defined

theorem not_returns_iff {α : Type} {r : Except Stop α} :
    ¬ Returns r ↔ r = .error .blocked ∨ Undefines r := by
  constructor
  · intro stuck
    rcases r with ((exn | u) | _) | a
    · exact absurd (fun e error => by cases error; exact ⟨exn, rfl⟩) stuck
    · exact Or.inr ⟨u, rfl⟩
    · exact Or.inl rfl
    · exact absurd (fun e error => by cases error) stuck
  · rintro (rfl | ⟨u, rfl⟩) returns
    · obtain ⟨exn, error⟩ := returns _ rfl
      cases error
    · obtain ⟨exn, error⟩ := returns _ rfl
      cases error

/-- The events of a client's life. -/
theorem exists_live_events (created : 0 ≤ c.socket) (queue : List Action) (w : UdpWorld) :
    ∃ new, (c.live queue w).2.events = w.events ++ new ∧ Disciplined (some c.socket) new ∧
      (Returns (c.live queue w).1 → heldBehind (some c.socket) new = none) ∧
      new.countP opensSocket = 0 := by
  obtain ⟨new, events, own⟩ := (replays_replay c queue w).events
  obtain ⟨inside, held, none⟩ := disciplined_of_owns own
  by_cases returns : Returns (c.replay queue w).1
  · rw [live_of_returns queue created returns]
    cases w.validatorLive with
    | true =>
        refine ⟨new ++ [.close c.socket, .deleteValidator], ?_, ?_, fun _ => ?_, ?_⟩
        · rw [← List.append_assoc, ← events]
          exact List.append_assoc _ [UdpEvent.close c.socket] [.deleteValidator]
        · exact disciplined_append.mpr ⟨inside, held, trivial, trivial⟩
        · rw [heldBehind_append, held]
          rfl
        · rw [List.countP_append, none]
          rfl
    | false =>
        refine ⟨new ++ [.close c.socket], ?_, ?_, fun _ => ?_, ?_⟩
        · rw [← List.append_assoc, ← events]
          rfl
        · exact disciplined_append.mpr ⟨inside, held, trivial⟩
        · rw [heldBehind_append, held]
          rfl
        · rw [List.countP_append, none]
          rfl
  · rw [live_of_not_returns queue returns]
    exact ⟨new, events, inside, fun yes => absurd yes returns, none⟩

/-- A client that is left without an exception has deleted the validator. -/
theorem deletes_of_live (created : 0 ≤ c.socket) {queue : List Action}
    (ended : (c.live queue w).1 = .ok ()) :
    w.validatorLive = true ∧ (c.live queue w).2.validatorLive = false := by
  by_cases returns : Returns (c.replay queue w).1
  · rw [live_of_returns queue created returns] at ended ⊢
    cases there : w.validatorLive with
    | true => exact ⟨rfl, rfl⟩
    | false =>
        rw [there] at ended
        cases ended
  · rw [live_of_not_returns queue returns] at ended
    exact absurd (fun e error => by rw [ended] at error; cases error) returns

/-- A client without a validator is not left. -/
theorem not_returns_live (created : 0 ≤ c.socket) (queue : List Action)
    (dead : w.validatorLive = false) : ¬ Returns (c.live queue w).1 := by
  by_cases returns : Returns (c.replay queue w).1
  · rw [live_of_returns queue created returns, dead]
    exact not_returns_iff.mpr (Or.inr ⟨_, rfl⟩)
  · rwa [live_of_not_returns queue returns]

/-- A client with a validator is defined. -/
theorem not_undefines_live (created : 0 ≤ c.socket) (queue : List Action)
    (sound : ∀ expected actual, Defined (c.validator expected actual))
    (live : w.validatorLive = true) : ¬ Undefines (c.live queue w).1 := by
  rintro ⟨u, undefined⟩
  have defined : ¬ Undefines (c.replay queue w).1 := by
    rintro ⟨u, undefined⟩
    rw [dead_of_replay sound undefined] at live
    cases live
  by_cases returns : Returns (c.replay queue w).1
  · rw [live_of_returns queue created returns, live] at undefined
    exact defined ⟨u, undefined⟩
  · rw [live_of_not_returns queue returns] at undefined
    exact defined ⟨u, undefined⟩

/-- The part of a run that replays a conversation. -/
structure Session (w : UdpWorld) (r : Except Stop Unit × UdpWorld) (new : List UdpEvent) :
    Prop where
  events : r.2.events = w.events ++ new
  disciplined : Disciplined none new
  released : Returns r.1 → heldBehind none new = none
  few : new.countP opensSocket ≤ 1
  deletes : r.1 = .ok () →
    w.validatorLive = true ∧ r.2.validatorLive = false ∧ new.countP opensSocket = 1
  dead : w.validatorLive = false → (new.countP opensSocket = 1 → ¬ Returns r.1) ∧
    (Undefines r.1 → new.countP opensSocket = 1)

theorem exists_session (validator : Validator) (conversation : UdpConversation) (w : UdpWorld) :
    ∃ new, Session w (replayConversation validator conversation w) new := by
  rcases replayConversation_cases w validator conversation with
    ⟨-, runs⟩ | ⟨errno, behind, -, runs⟩ | ⟨n, behind, -, runs⟩
  · refine ⟨[], ?_⟩
    rw [runs]
    exact {
      events := (List.append_nil _).symm
      disciplined := trivial
      released := fun _ => rfl
      few := Nat.zero_le 1
      deletes := fun ended => by cases ended
      dead := fun _ => ⟨fun one => (by cases one),
        fun undefined => absurd undefined (not_undefines fun u same => by cases same)⟩ }
  · refine ⟨[.socket conversation.addrFamily (.error errno)], ?_⟩
    rw [runs]
    exact {
      events := rfl
      disciplined := ⟨rfl, trivial⟩
      released := fun _ => rfl
      few := Nat.zero_le 1
      deletes := fun ended => by cases ended
      dead := fun _ => ⟨fun one => (by cases one),
        fun undefined => absurd undefined (not_undefines fun u same => by cases same)⟩ }
  · have created : (0 : Int) ≤ n := Int.natCast_nonneg n
    obtain ⟨new, events, inside, released, none⟩ := exists_live_events
      (c := ⟨conversation.testSockAddr, validator, n⟩) created conversation.actionQueue
      ({ w with socket := behind }.log (.socket conversation.addrFamily (.ok n)))
    have one :
        (UdpEvent.socket conversation.addrFamily (.ok n) :: new).countP opensSocket = 1 := by
      rw [List.countP_cons_of_pos rfl, none]
    refine ⟨.socket conversation.addrFamily (.ok n) :: new, ?_⟩
    rw [runs]
    exact {
      events := events.trans (List.append_assoc _ _ _)
      disciplined := ⟨rfl, inside⟩
      released := released
      few := Nat.le_of_eq one
      deletes := fun ended => by
        obtain ⟨there, gone⟩ := deletes_of_live created ended
        exact ⟨there, gone, one⟩
      dead := fun dead => ⟨fun _ => not_returns_live created conversation.actionQueue dead,
        fun _ => one⟩ }

/-- While there is a validator a conversation is defined. -/
theorem not_undefines_conversation {validator : Validator}
    (sound : ∀ expected actual, Defined (validator expected actual))
    (conversation : UdpConversation) (live : w.validatorLive = true) :
    ¬ Undefines (replayConversation validator conversation w).1 := by
  rcases replayConversation_cases w validator conversation with
    ⟨-, runs⟩ | ⟨errno, behind, -, runs⟩ | ⟨n, behind, -, runs⟩
  · rw [runs]
    exact not_undefines fun u same => by cases same
  · rw [runs]
    exact not_undefines fun u same => by cases same
  · rw [runs]
    exact not_undefines_live (Int.natCast_nonneg n) conversation.actionQueue sound live

/-- The conversations that are replayed. Each deletes the validator, so there is one at
most. -/
structure Sessions (w u : UdpWorld) (conversations : List UdpConversation)
    (new : List UdpEvent) : Prop where
  events : u.events = w.events ++ new
  disciplined : Disciplined none new
  released : heldBehind none new = none
  opened : new.countP opensSocket = conversations.length
  deleted : conversations = [] ∧ u.validatorLive = w.validatorLive ∨
    conversations.length = 1 ∧ w.validatorLive = true ∧ u.validatorLive = false

theorem exists_sessions {validator : Validator} {conversations : List UdpConversation}
    {w u : UdpWorld} (done : Proc.Done (replayConversation validator) w conversations u) :
    ∃ new, Sessions w u conversations new := by
  refine done.keeps (motive := fun before t => ∃ new, Sessions w t before new)
    ⟨[], (List.append_nil _).symm, trivial, rfl, rfl, Or.inl ⟨rfl, rfl⟩⟩ ?_
  intro before conversation s t ⟨new, sessions⟩ runs
  obtain ⟨more, session⟩ := exists_session validator conversation s
  rw [runs] at session
  obtain ⟨there, gone, one⟩ := session.deletes rfl
  rcases sessions.deleted with ⟨rfl, same⟩ | ⟨-, -, dead⟩
  · have released := session.released fun e error => by cases error
    refine ⟨new ++ more, ?_, ?_, ?_, ?_, Or.inr ⟨rfl, same ▸ there, gone⟩⟩
    · rw [session.events, sessions.events, List.append_assoc]
    · refine disciplined_append.mpr ⟨sessions.disciplined, ?_⟩
      rw [sessions.released]
      exact session.disciplined
    · rw [heldBehind_append, sessions.released, released]
    · rw [List.countP_append, sessions.opened, one]
      rfl
  · rw [there] at dead
    cases dead

/-! ## Runs -/

/-- What `run` starts in. -/
def started (answers : UdpAnswers) : UdpWorld :=
  { toUdpAnswers := answers, validatorLive := true, events := [.newValidator] }

theorem run_start (validator : Validator) (conversations : List UdpConversation)
    (answers : UdpAnswers) :
    run validator conversations { toUdpAnswers := answers } =
      replayAll validator conversations (started answers) := rfl

/-- In any run a socket is opened while none is open, what is sent, received and closed is
sent, received and closed on the one that is, and it is closed where the run returns or
throws. -/
theorem sockets_run (validator : Validator) (conversations : List UdpConversation)
    (answers : UdpAnswers) :
    Disciplined none (run validator conversations { toUdpAnswers := answers }).2.events ∧
      (Returns (run validator conversations { toUdpAnswers := answers }).1 →
        heldBehind none (run validator conversations { toUdpAnswers := answers }).2.events =
          none) := by
  rw [run_start, replayAll]
  rcases Proc.each_cut (replayConversation validator) conversations (started answers) with
    ⟨u, done, runs⟩ | ⟨before, conversation, behind, u, e, v, rfl, done, stops, runs⟩
  · obtain ⟨new, sessions⟩ := exists_sessions done
    rw [runs, sessions.events]
    exact ⟨⟨trivial, sessions.disciplined⟩, fun _ => sessions.released⟩
  · obtain ⟨new, sessions⟩ := exists_sessions done
    obtain ⟨more, session⟩ := exists_session validator conversation u
    rw [stops] at session
    rw [runs, session.events, sessions.events, List.append_assoc]
    have inside : Disciplined none (new ++ more) := by
      refine disciplined_append.mpr ⟨sessions.disciplined, ?_⟩
      rw [sessions.released]
      exact session.disciplined
    refine ⟨⟨trivial, inside⟩, fun returns => ?_⟩
    · have behind : heldBehind none (new ++ more) = heldBehind none more := by
        rw [heldBehind_append, sessions.released]
      exact behind.trans (session.released returns)

/-- A run that ends well is one over a conversation at most. -/
theorem length_le_one_of_run {validator : Validator} {conversations : List UdpConversation}
    {answers : UdpAnswers}
    (ended : (run validator conversations { toUdpAnswers := answers }).1 = .ok ()) :
    conversations.length ≤ 1 := by
  rw [run_start, replayAll] at ended
  rcases Proc.each_cut (replayConversation validator) conversations (started answers) with
    ⟨u, done, -⟩ | ⟨before, conversation, behind, u, e, v, rfl, -, -, runs⟩
  · obtain ⟨new, sessions⟩ := exists_sessions done
    rcases sessions.deleted with ⟨rfl, -⟩ | ⟨one, -⟩
    · exact Nat.zero_le 1
    · exact Nat.le_of_eq one
  · rw [runs] at ended
    cases ended

/-- A run is undefined exactly when it has opened a second socket and does not wait for an
answer, so it never ends well over more than one conversation. -/
theorem validator_run (validator : Validator)
    (sound : ∀ expected actual, Defined (validator expected actual))
    (conversations : List UdpConversation) (answers : UdpAnswers) :
    (Undefines (run validator conversations { toUdpAnswers := answers }).1 ↔
        (run validator conversations { toUdpAnswers := answers }).1 ≠ .error .blocked ∧
          (run validator conversations { toUdpAnswers := answers }).2.events.countP
            opensSocket = 2) ∧
      (run validator conversations { toUdpAnswers := answers }).2.events.countP opensSocket ≤ 2 ∧
      ((run validator conversations { toUdpAnswers := answers }).1 = .ok () →
        conversations.length ≤ 1) := by
  rw [← and_assoc]
  refine ⟨?_, length_le_one_of_run⟩
  rw [run_start, replayAll]
  rcases Proc.each_cut (replayConversation validator) conversations (started answers) with
    ⟨u, done, runs⟩ | ⟨before, conversation, behind, u, e, v, rfl, done, stops, runs⟩
  · obtain ⟨new, sessions⟩ := exists_sessions done
    have count : u.events.countP opensSocket = conversations.length := by
      rw [sessions.events, List.countP_append, sessions.opened]
      exact Nat.zero_add _
    have few : conversations.length ≤ 1 := by
      rcases sessions.deleted with ⟨rfl, -⟩ | ⟨one, -⟩
      · exact Nat.zero_le 1
      · exact Nat.le_of_eq one
    rw [runs, count]
    refine ⟨⟨fun undefined => ?_, fun both => ?_⟩, by omega⟩
    · exact absurd undefined (not_undefines fun u same => by cases same)
    · have two := both.2
      omega
  · obtain ⟨new, sessions⟩ := exists_sessions done
    obtain ⟨more, session⟩ := exists_session validator conversation u
    have few := session.few
    have count : v.events.countP opensSocket = before.length + more.countP opensSocket := by
      have events := session.events
      rw [stops] at events
      rw [events, sessions.events, List.append_assoc, List.countP_append, List.countP_append,
        sessions.opened]
      exact Nat.zero_add _
    rw [runs, count]
    rcases sessions.deleted with ⟨rfl, live⟩ | ⟨one, -, dead⟩
    · have defined := not_undefines_conversation sound conversation live
      rw [stops] at defined
      rw [List.length_nil, Nat.zero_add]
      exact ⟨⟨fun undefined => absurd undefined defined, fun ⟨_, two⟩ => by omega⟩, by omega⟩
    · have dead := session.dead dead
      rw [stops] at dead
      rw [one]
      refine ⟨⟨fun undefined => ⟨?_, ?_⟩, fun ⟨waits, two⟩ => ?_⟩, by omega⟩
      · intro blocked
        obtain ⟨u, undefined⟩ := undefined
        rw [blocked] at undefined
        cases undefined
      · rw [dead.2 undefined]
      · rcases not_returns_iff.mp (dead.1 (by omega)) with blocked | undefined
        · exact absurd blocked waits
        · exact undefined

/-- A conversation in which nothing is said. -/
def silent : UdpConversation where
  addrFamily := .inet
  testDestAddr := [127, 0, 0, 1]
  testDestPort := 53
  testSockAddr := ⟨.inet, [127, 0, 0, 1], 53⟩

/-- The second of two conversations deletes the validator again. -/
theorem validator_run_twice :
    Undefines (run PacketValidator.validate [silent, silent]
      { toUdpAnswers := { socket := [.ok 3, .ok 4] } }).1 :=
  (validator_run PacketValidator.validate
    (fun expected actual => by rw [PacketValidator.validate_eq]; exact defined_ok _)
    [silent, silent] { socket := [.ok 3, .ok 4] }).1.mpr ⟨by rintro ⟨⟩, by decide⟩

end UdpReplayClient

end PacketReplay
