import PacketReplay.Python.Dns
import PacketReplay.Python.PythonCall
import PacketReplay.Replay.UdpProgram

/-!
# The program for UDP with a function in Python

`-k` replaces the validator by a `PythonPacketValidator`. Whatever its function would say of
the datagrams, `udp_replay` reports nothing then, and it does not end well once it has
received a datagram (`main_unjudged`).
-/

namespace PacketReplay

open Lib
open UdpWorld

namespace PythonPacketValidator

variable {σ : Type}

/-- The constructor, and `validate` in the state that it leaves. `states` is what the
interpreter has come to when a script and a function are named. -/
def create (py : Interpreter σ) (states : Bytes → Bytes → σ) (script function : Bytes) :
    Outcome Validator :=
  match PythonCall.create py script function (states script function) with
  | (.error f, _) => .error f
  | (.ok call, s) => .ok fun expected actual => (call.validate py expected actual s).1

end PythonPacketValidator

/-- A validator that comes to no verdict. -/
def Validator.Mute (validator : Validator) : Prop :=
  ∀ expected actual b, validator expected actual ≠ .ok b

theorem PythonPacketValidator.mute_of_create {σ : Type} {py : Interpreter σ}
    {states : Bytes → Bytes → σ} {script function : Bytes} {validator : Validator}
    (documented : py.Documented) (lends : py.Lends)
    (created : create py states script function = .ok validator) : validator.Mute := by
  rw [create] at created
  rcases made : PythonCall.create py script function (states script function) with ⟨f | call, s⟩
  · rw [made] at created
    cases created
  · rw [made] at created
    cases created
    exact fun expected actual b => call.validate_ne_ok documented lends expected actual s b

/-! ## A run without verdicts -/

/-- The datagrams that have been received. -/
def UdpWorld.replies (w : UdpWorld) : List Bytes := w.events.filterMap UdpEvent.reply

/-- A run reports nothing, receives one datagram at most, and comes to a fault with it. -/
structure Unanswered {α : Type} (w : UdpWorld) (r : Except Stop α × UdpWorld) : Prop where
  output : r.2.output = w.output
  once : r.2.replies.length ≤ w.replies.length + 1
  stops : (∀ f, r.1 ≠ .error (.fault f)) → r.2.replies = w.replies

namespace Unanswered

variable {α β : Type} {w : UdpWorld}

/-- Nothing is received. -/
theorem of_same {r : Except Stop α × UdpWorld} (output : r.2.output = w.output)
    (replies : r.2.replies = w.replies) : Unanswered w r :=
  ⟨output, by rw [replies]; exact Nat.le_succ _, fun _ => replies⟩

theorem of_log {r : Except Stop α × UdpWorld} {event : UdpEvent}
    (output : r.2.output = w.output) (events : r.2.events = w.events ++ [event])
    (silent : event.reply = none) : Unanswered w r := by
  refine of_same output ?_
  rw [UdpWorld.replies, events, List.filterMap_append, List.filterMap_cons, silent]
  exact List.append_nil _

/-- What comes behind a run leaves its datagrams. -/
theorem left {r : Except Stop α × UdpWorld} {v : UdpWorld} (first : Unanswered w r)
    (output : v.output = r.2.output) (replies : v.replies = r.2.replies) :
    Unanswered w (r.1, v) :=
  ⟨output.trans first.output, replies ▸ first.once, fun none => replies.trans (first.stops none)⟩

theorem fault {r : Except Stop α × UdpWorld} {v : UdpWorld} (first : Unanswered w r)
    (output : v.output = r.2.output) (replies : v.replies = r.2.replies) {f : Fault} :
    Unanswered w ((.error (.fault f) : Except Stop β), v) :=
  ⟨output.trans first.output, replies ▸ first.once, fun none => absurd rfl (none f)⟩

theorem bind {x : UdpRun α} {f : α → UdpRun β} (first : Unanswered w (x w))
    (behind : ∀ a v, x w = (.ok a, v) → Unanswered v (f a v)) : Unanswered w ((x >>= f) w) := by
  rcases Proc.bind_cases x f w with ⟨e, v, runs, whole⟩ | ⟨a, v, runs, whole⟩
  · rw [whole]
    rw [runs] at first
    exact ⟨first.output, first.once, fun none => first.stops fun f fault =>
      none f (congrArg Except.error (Except.error.inj fault))⟩
  · rw [whole]
    rw [runs] at first
    have same : v.replies = w.replies := first.stops fun f fault => by cases fault
    have rest := behind a v runs
    exact ⟨rest.output.trans first.output, same ▸ rest.once, fun none =>
      (rest.stops none).trans same⟩

theorem each {f : α → UdpRun Unit} (step : ∀ a w, Unanswered w (f a w)) (as : List α) :
    Unanswered w (Proc.each f as w) := by
  induction as generalizing w with
  | nil => exact of_same rfl rfl
  | cons a as ih => exact bind (step a w) fun _ v _ => ih

end Unanswered

namespace UdpReplayClient

variable {c : UdpReplayClient} {w : UdpWorld}

/-- The datagram that is received is the last. -/
theorem unanswered_received (mute : c.validator.Mute) (data datagram : Bytes)
    (behind : List (Except Nat Bytes)) (actual : Bytes) :
    Unanswered w (c.judge data actual (c.received data w datagram behind)) := by
  have replies : (c.received data w datagram behind).replies = w.replies ++ [datagram] :=
    List.filterMap_append
  have length : (w.replies ++ [datagram]).length ≤ w.replies.length + 1 :=
    (List.length_append).le
  cases live : w.validatorLive with
  | true =>
      rw [judge_of_live c (c.received data w datagram behind) live]
      rcases verdict : c.validator data actual with f | b
      · refine ⟨rfl, ?_, fun none => absurd rfl (none f)⟩
        have same : ((c.received data w datagram behind).log (.validate data actual)).replies =
            (c.received data w datagram behind).replies :=
          List.filterMap_append.trans (List.append_nil _)
        rw [same, replies]
        exact length
      · exact absurd verdict (mute data actual b)
  | false =>
      rw [judge_of_dead c (c.received data w datagram behind) live]
      exact ⟨rfl, replies ▸ length, fun none => absurd rfl (none _)⟩

theorem unanswered_execute (mute : c.validator.Mute) (action : Action) (w : UdpWorld) :
    Unanswered w (c.execute action w) := by
  rw [execute_apply]
  split
  · rcases c.send_cases action.data w with
      ⟨-, sent⟩ | ⟨errno, behind, -, sent⟩ | ⟨n, behind, -, sent⟩
    · rw [sent]
      exact .of_same rfl rfl
    · rw [sent]
      exact .of_log rfl rfl rfl
    · rw [sent]
      exact .of_log rfl rfl rfl
  · rcases c.recv_cases action.data w with
      ⟨-, got⟩ | ⟨errno, behind, -, got⟩ | ⟨datagram, behind, -, got⟩
    · rw [got]
      exact .of_same rfl rfl
    · rw [got]
      exact .of_log rfl rfl rfl
    · rw [got]
      exact unanswered_received mute _ _ _ _
  · exact .of_same rfl rfl
  · exact .of_same rfl rfl

/-- Whether a client is destroyed or not, what it has received stays the same. -/
theorem unanswered_live (mute : c.validator.Mute) (created : 0 ≤ c.socket) (queue : List Action)
    (w : UdpWorld) : Unanswered w (c.live queue w) := by
  have replayed : Unanswered w (c.replay queue w) := .each (unanswered_execute mute) queue
  by_cases returns : Returns (c.replay queue w).1
  · rw [live_of_returns queue created returns]
    cases w.validatorLive with
    | true =>
        refine replayed.left rfl ?_
        exact List.filterMap_append.trans ((List.append_nil _).trans
          (List.filterMap_append.trans (List.append_nil _)))
    | false =>
        refine replayed.fault (v := (c.replay queue w).2.log (.close c.socket)) rfl ?_
        exact List.filterMap_append.trans (List.append_nil _)
  · rwa [live_of_not_returns queue returns]

theorem unanswered_replayConversation {validator : Validator} (mute : validator.Mute)
    (conversation : UdpConversation) (w : UdpWorld) :
    Unanswered w (replayConversation validator conversation w) := by
  rcases replayConversation_cases w validator conversation with
    ⟨-, runs⟩ | ⟨errno, behind, -, runs⟩ | ⟨n, behind, -, runs⟩
  · rw [runs]
    exact .of_same rfl rfl
  · rw [runs]
    exact .of_log rfl rfl rfl
  · rw [runs]
    have rest := unanswered_live (c := ⟨conversation.testSockAddr, validator, n⟩) mute
      (Int.natCast_nonneg n) conversation.actionQueue
      ({ w with socket := behind }.log (.socket conversation.addrFamily (.ok n)))
    have same : ({ w with socket := behind }.log
        (.socket conversation.addrFamily (.ok n))).replies = w.replies :=
      List.filterMap_append.trans (List.append_nil _)
    exact ⟨rest.output, same ▸ rest.once, fun none => (rest.stops none).trans same⟩

end UdpReplayClient

/-! ## The program -/

namespace UdpReplay

variable {inet : Inet} {python : Bytes → Bytes → Outcome Validator}

/-- Every validator that an option names is made by `python`. -/
theorem exists_of_parseValidator {spec : Bytes} {validator : Validator}
    (parsed : parseValidator python spec = .ok validator) :
    ∃ script function, python script function = .ok validator := by
  rw [parseValidator] at parsed
  split at parsed
  · next type script function tokens =>
      split at parsed
      · cases parsed
      · exact ⟨script, function, parsed⟩
  · cases parsed

/-- The last of the options that name a validator holds. -/
theorem mute_of_parseOptions (mute : ∀ script function validator,
      python script function = .ok validator → validator.Mute) {setup left : Setup}
    {opts : List Opt} (parsed : parseOptions inet python setup opts = .ok (some left))
    (some : setup.validator.Mute ∨ ∃ spec, Opt.validator spec ∈ opts) : left.validator.Mute := by
  induction opts generalizing setup with
  | nil =>
      cases parsed
      exact some.resolve_right fun ⟨spec, mem⟩ => by cases mem
  | cons opt opts ih =>
      cases opt with
      | client spec =>
          obtain ⟨testServers, -, rest⟩ := bind_eq_ok.mp parsed
          refine ih rest (some.imp_right ?_)
          rintro ⟨other, mem⟩
          exact ⟨other, (List.mem_cons.mp mem).resolve_left fun same => by cases same⟩
      | validator spec =>
          obtain ⟨validator, made, rest⟩ := bind_eq_ok.mp parsed
          obtain ⟨script, function, created⟩ := exists_of_parseValidator made
          exact ih rest (Or.inl (mute script function validator created))
      | other => cases parsed

theorem unanswered_body (mute : ∀ script function validator,
      python script function = .ok validator → validator.Mute) {opts : List Opt}
    (some : ∃ spec, Opt.validator spec ∈ opts)
    (openOffline : Bytes → Except Bytes Capture.CaptureFile) (operands : List Bytes)
    (w : UdpWorld) : Unanswered w (body inet python openOffline opts operands w) := by
  have made : Unanswered w (makeValidator w) :=
    .of_log rfl (rfl : _ = w.events ++ [UdpEvent.newValidator]) rfl
  refine made.bind fun _ v _ => ?_
  refine .bind (.of_same rfl rfl) fun setup v parsed => ?_
  rcases setup with _ | setup
  · exact .of_same rfl rfl
  · have mute := mute_of_parseOptions mute (ok_of_call parsed) (Or.inr some)
    rcases operands with _ | ⟨file, _ | ⟨other, operands⟩⟩
    · exact .of_same rfl rfl
    · refine .bind (.of_same rfl rfl) fun store v _ => .bind ?_ fun _ v _ => .of_same rfl rfl
      exact .each (UdpReplayClient.unanswered_replayConversation mute) _
    · exact .of_same rfl rfl

/-- What the program does with a validator that is never heard. -/
structure Unjudged (r : Except Stop Exit × UdpWorld) : Prop where
  output : r.2.output = []
  once : r.2.replies.length ≤ 1
  faults : r.2.replies ≠ [] → UdpReplayClient.Undefines r.1 ∨ ∃ cerr, r.1 = .ok ⟨-1, cerr⟩

/-- With `-k` among the options, for an interpreter whose functions keep nothing of what they
are called with: whatever the functions say, whatever is captured and whatever the system
answers, no difference is reported, and with the first datagram that is received the program
ends with -1 or is undefined. -/
theorem main_unjudged {σ : Type} {py : Interpreter σ} (documented : py.Documented)
    (lends : py.Lends) (states : Bytes → Bytes → σ) {opts : List Opt}
    (some : ∃ spec, Opt.validator spec ∈ opts)
    (openOffline : Bytes → Except Bytes Capture.CaptureFile) (name : Bytes)
    (operands : List Bytes) (answers : UdpAnswers) :
    Unjudged (main inet (PythonPacketValidator.create py states) openOffline name opts operands
      { toUdpAnswers := answers }) := by
  have mute : ∀ script function validator,
      PythonPacketValidator.create py states script function = .ok validator → validator.Mute :=
    fun _ _ _ created => PythonPacketValidator.mute_of_create documented lends created
  have runs : Unanswered { toUdpAnswers := answers } (body inet
      (PythonPacketValidator.create py states) openOffline opts operands
      { toUdpAnswers := answers }) := unanswered_body mute some openOffline operands _
  refine ⟨runs.output, runs.once, fun received => ?_⟩
  rw [main]
  rcases ended : (body inet (PythonPacketValidator.create py states) openOffline opts operands
    { toUdpAnswers := answers }).1 with ((exn | u) | _) | finished
  · exact Or.inr ⟨_, rfl⟩
  · exact Or.inl ⟨u, rfl⟩
  · exact absurd (runs.stops fun f fault => by rw [ended] at fault; cases fault) received
  · exact absurd (runs.stops fun f fault => by rw [ended] at fault; cases fault) received

/-! ## The function of `dns.py` -/

/-- The references to objects and the contents of tuples. -/
structure DnsHeap : Type where
  refs : Obj → Nat := fun _ => 0
  tuples : Obj → Option (Bytes × Bytes) := fun _ => none
  next : Nat := 0

namespace DnsHeap

/-- The two `bool`s are there for ever. -/
def count (h : DnsHeap) (o : Obj) : Nat := if o < 2 then 2 ^ 32 - 1 else h.refs o

/-- A new object. -/
def fresh (h : DnsHeap) : Option Obj × DnsHeap :=
  (some (h.next + 2), { h with refs := Function.update h.refs (h.next + 2) 1, next := h.next + 1 })

def release (o : Obj) (h : DnsHeap) : DnsHeap :=
  { h with refs := Function.update h.refs o (h.refs o - 1) }

def pack (h : DnsHeap) (expected actual : Bytes) : DnsHeap :=
  { h.fresh.2 with tuples := Function.update h.tuples (h.next + 2) (some (expected, actual)) }

/-- The function, called with a tuple. -/
def call (h : DnsHeap) (args : Obj) : Option Obj :=
  match h.tuples args with
  | some (expected, actual) =>
      match Dns.validate expected actual with
      | .ok valid => some valid.toNat
      | .error _ => none
  | none => none

theorem count_of_le {o : Obj} (behind : 2 ≤ o) (h : DnsHeap) : h.count o = h.refs o :=
  if_neg (Nat.not_lt.mpr behind)

end DnsHeap

/-- An interpreter whose functions are `validate` of `dns.py`. -/
def dnsPython : Interpreter DnsHeap where
  refs := DnsHeap.count
  release := DnsHeap.release
  runSimpleString _ h := h
  errPrint h := h
  unicodeFromString _ h := h.fresh
  importModule _ h := h.fresh
  getAttrString _ _ h := h.fresh
  buildValue expected actual h := (some (h.next + 2), h.pack expected actual)
  callObject _ args h := (h.call args, h)
  boolCheck o _ := o < 2
  pyTrue := 1

theorem documented_dnsPython : dnsPython.Documented where
  built := by
    intro expected actual h args t built
    cases built
    refine (DnsHeap.count_of_le (Nat.le_add_left 2 h.next) (h.pack expected actual)).trans ?_
    exact Function.update_self ..
  released := by
    intro o h one
    have one : h.count o = 1 := one
    have behind : 2 ≤ o := by
      by_contra bool
      rw [DnsHeap.count, if_pos (Nat.not_le.mp bool)] at one
      cases one
    rw [DnsHeap.count_of_le behind] at one
    refine (DnsHeap.count_of_le behind (h.release o)).trans ?_
    refine (Function.update_self o (h.refs o - 1) h.refs).trans ?_
    rw [one]

theorem lends_dnsPython : dnsPython.Lends := fun lent => lent

/-- The answer that was captured, an empty message, which is sent again. -/
theorem main_unjudged_dns :
    Unjudged (main dottedInet (PythonPacketValidator.create dnsPython fun _ _ => {})
      (fun _ => .ok (WellFormedFrame.file dltNull
        [datagramFrame 1 3 7 53 (ascii "?") (by decide),
          datagramFrame 3 1 53 7 (List.replicate 12 0) (by decide)])) (ascii "udp_replay")
      [.validator (ascii "python:dns.py:validate")] [ascii "dns.pcap"]
      { toUdpAnswers :=
        { socket := [.ok 3], sendto := [.ok 1], recvfrom := [.ok (List.replicate 12 0)] } }) :=
  main_unjudged documented_dnsPython lends_dnsPython _ ⟨_, List.mem_singleton_self _⟩ _ _ _ _

end UdpReplay

end PacketReplay
