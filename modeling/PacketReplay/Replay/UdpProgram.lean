import PacketReplay.Capture.CaptureFile
import PacketReplay.Capture.SpecMatching
import PacketReplay.Replay.Program
import PacketReplay.Replay.UdpTranscript

/-!
# The program for UDP

`main` of `udp_replay`: the options, the capture and the replay of what is recorded. What
it does on a file of well-formed frames is told from the packets that the frames carry
(`main_replays`): it ends with 0 only when at most one conversation is recorded, and sends
the datagrams of that one.
-/

namespace PacketReplay

open Lib
open SpecMatching (addTargetTestServers)
open UdpWorld

namespace UdpReplay

/-- An option as `getopt` takes it off the arguments. -/
inductive Opt : Type
  | client (spec : Bytes)
  | validator (spec : Bytes)
  | other

/-- What the options set. -/
structure Setup : Type where
  testServers : TestServers := ∅
  validator : Validator := PacketValidator.validate

def printUsage (name : Bytes) : Bytes :=
  ascii "Usage: " ++ name ++ ascii "[-c <client spec>] [-k <packet validator spec>] <cap file>\n"

/-- `parseValidator`. The validator of a script and a function is made by `python`. -/
def parseValidator (python : Bytes → Bytes → Outcome Validator) (spec : Bytes) :
    Outcome Validator :=
  let err := ascii "invalid validator spec '" ++ spec ++ ascii "'"
  match tokenize spec 58 with
  | [type, script, function] =>
      if toLower type ≠ ascii "python" then throwInvalid err else python script function
  | _ => throwInvalid err

variable (inet : Inet) (python : Bytes → Bytes → Outcome Validator)

/-- The loop over the options, which an unknown one ends. -/
def parseOptions (setup : Setup) : List Opt → Outcome (Option Setup)
  | [] => .ok (some setup)
  | .client spec :: opts => do
      let testServers ← addTargetTestServer inet setup.testServers spec
      parseOptions { setup with testServers := testServers } opts
  | .validator spec :: opts => do
      let validator ← parseValidator python spec
      parseOptions { setup with validator := validator } opts
  | .other :: _ => .ok none

/-- The body of the `try` block: whether it comes to its end. -/
def body (openOffline : Bytes → Except Bytes Capture.CaptureFile) (opts : List Opt)
    (operands : List Bytes) : UdpRun Bool := do
  makeValidator
  match ← call (parseOptions inet python {} opts) with
  | none => return false
  | some setup =>
      match operands with
      | [file] => do
          let store ← call (Capture.load (udpConversationFactory inet) ⟨setup.testServers, ∅⟩
            (openOffline file))
          UdpReplayClient.replayAll setup.validator store.getConversations
          return true
      | _ => return false

def main (openOffline : Bytes → Except Bytes Capture.CaptureFile) (name : Bytes)
    (opts : List Opt) (operands : List Bytes) : UdpRun Exit := fun w =>
  (exitOf (printUsage name) (body inet python openOffline opts operands w).1,
    (body inet python openOffline opts operands w).2)

/-! ## Runs of the program -/

variable {inet python} {openOffline : Bytes → Except Bytes Capture.CaptureFile} {file : Bytes}

/-- Without validators among the options, the specs are added one after the other. -/
theorem parseOptions_client (setup : Setup) (specs : List Bytes) :
    parseOptions inet python setup (specs.map .client) =
      (addTargetTestServers inet setup.testServers specs).map fun testServers =>
        some { setup with testServers := testServers } := by
  induction specs generalizing setup with
  | nil => rfl
  | cons spec specs ih =>
      rw [List.map_cons, parseOptions, addTargetTestServers, List.foldlM_cons]
      cases addTargetTestServer inet setup.testServers spec with
      | error f => rfl
      | ok testServers => exact ih { setup with testServers := testServers }

/-- The body on a file that is loaded runs over the conversations. -/
theorem body_of_loaded {opts : List Opt} {setup : Setup}
    {store : TypedConversationStore UdpConversation}
    (parsed : parseOptions inet python {} opts = .ok (some setup))
    (loaded : Capture.load (udpConversationFactory inet) ⟨setup.testServers, ∅⟩
      (openOffline file) = .ok store) (answers : UdpAnswers) :
    body inet python openOffline opts [file] { toUdpAnswers := answers } =
      ((UdpReplayClient.run setup.validator store.getConversations
          { toUdpAnswers := answers }).1.map fun _ => true,
        (UdpReplayClient.run setup.validator store.getConversations
          { toUdpAnswers := answers }).2) := by
  have made : makeValidator { toUdpAnswers := answers } =
      (.ok (), UdpReplayClient.started answers) := rfl
  refine (Proc.bind_of_ok made).trans ((Proc.bind_of_ok (call_of_ok parsed _)).trans
    ((Proc.bind_of_ok (call_of_ok loaded _)).trans ?_))
  exact Proc.bind_pure_apply _ (fun _ => true) _

theorem undefines_exitOf {usage : Bytes} {r : Except Stop Unit}
    (undefined : UdpReplayClient.Undefines (exitOf usage (r.map fun _ => true))) :
    UdpReplayClient.Undefines r := by
  obtain ⟨u, undefined⟩ := undefined
  rcases r with ((exn | v) | _) | _
  · cases undefined
  · exact ⟨v, rfl⟩
  · cases undefined
  · cases undefined

open TypedConversationStore (Opens)

/-- What is recorded of packets, for the test servers. -/
def conversations (inet : Inet) (testServers : TestServers) (packets : List TransportPacket) :
    List UdpConversation :=
  (TypedConversationStore.load (udpConversationFactory inet) ⟨testServers, ∅⟩
    packets).getConversations

/-- What the program does on the packets of a capture, with the answers of the system. -/
structure Plays (inet : Inet) (testServers : TestServers) (packets : List TransportPacket)
    (answers : UdpAnswers) (r : Except Stop Exit × UdpWorld) : Prop where
  recorded : ∀ c ∈ conversations inet testServers packets, ∃ before first behind,
    Opens (udpConversationFactory inet) testServers packets before first behind ∧
      UdpConversation.Recorded inet testServers first behind c
  none : conversations inet testServers packets = [] →
    r.1 = .ok ⟨0, []⟩ ∧ r.2.events = [.newValidator] ∧ r.2.output = []
  lone : ∀ c, conversations inet testServers packets = [c] → ∃ done rest ending,
    c.actionQueue = done ++ rest ∧ UdpReplayClient.Replayed c done r ∧
      UdpReplayClient.Ends { toUdpAnswers := answers } done rest ending ∧
        r.1 = exitOfRun ending ∧ (r.1 = .ok ⟨0, []⟩ → rest = [])
  few : r.1 = .ok ⟨0, []⟩ → (conversations inet testServers packets).length ≤ 1

/-- The frame of a datagram between two hosts. -/
def datagramFrame (src dest : UInt8) (srcPort destPort : UInt16) (payload : Bytes)
    (small : payload.length < 2 ^ 15) : WellFormedFrame :=
  .betweenHosts src dest WellFormedFrame.bareUdp srcPort destPort payload (by
    change 20 + (8 + payload.length) < 2 ^ 16
    omega)

/-- On a file of well-formed frames the program replays what their packets record: with one
conversation, once its socket is opened, its actions are done in order up to the first whose
call has no answer or has failed, or all of them if the program ends with 0. The datagrams
to be sent go to the test server, and those that are answered by others than the captured
ones are reported. With more than one conversation the program does not end with 0. -/
theorem main_replays {datalinkType : Int} {frames : List WellFormedFrame}
    (link : ∀ f ∈ frames, f.link.datalinkType = datalinkType)
    (opened : openOffline file = .ok (WellFormedFrame.file datalinkType frames))
    {specs : List Bytes} {testServers : TestServers}
    (added : addTargetTestServers inet ∅ specs = .ok testServers) (name : Bytes)
    (answers : UdpAnswers) :
    Plays inet testServers (frames.map WellFormedFrame.packet) answers
      (main inet python openOffline name (specs.map .client) [file]
        { toUdpAnswers := answers }) := by
  have parsed : parseOptions inet python {} (specs.map .client) =
      .ok (some ⟨testServers, PacketValidator.validate⟩) := by
    rw [parseOptions_client]
    exact map_eq_ok.mpr ⟨testServers, added, rfl⟩
  have loaded : Capture.load (udpConversationFactory inet) ⟨testServers, ∅⟩ (openOffline file) =
      .ok (TypedConversationStore.load (udpConversationFactory inet) ⟨testServers, ∅⟩
        (frames.map WellFormedFrame.packet)) := by
    rw [opened]
    exact WellFormedFrame.load_file_udp link inet _
  rw [main, body_of_loaded parsed loaded, ← conversations]
  constructor
  · exact fun c mem => exists_recorded mem
  · intro none
    rw [none]
    exact ⟨rfl, rfl, rfl⟩
  · intro c one
    rw [one]
    obtain ⟨done, rest, queue, replayed, ends⟩ := UdpReplayClient.exists_replayed c answers
    refine ⟨done, rest, _, queue, ?_, ends, exitOf_map_true _ _, fun zero => ?_⟩
    · exact ⟨fun undefined => replayed.defined (undefines_exitOf undefined), replayed.sent,
        replayed.answered, replayed.output⟩
    · rw [exitOf_eq_zero zero] at ends
      exact ends.rest_eq_nil
  · exact fun zero => UdpReplayClient.length_le_one_of_run (exitOf_eq_zero zero)

/-- A question and its answer, replayed to a server that answers something else. -/
theorem main_replays_question :
    Plays dottedInet ∅
      [(datagramFrame 1 3 7 53 (ascii "?") (by decide)).packet,
        (datagramFrame 3 1 53 7 (ascii "!") (by decide)).packet]
      { socket := [.ok 3], sendto := [.ok 1], recvfrom := [.ok []] }
      (main dottedInet (fun _ _ => throwInvalid []) (fun _ => .ok (WellFormedFrame.file dltNull
          [datagramFrame 1 3 7 53 (ascii "?") (by decide),
            datagramFrame 3 1 53 7 (ascii "!") (by decide)])) (ascii "udp_replay") []
        [ascii "dns.pcap"]
        { toUdpAnswers := { socket := [.ok 3], sendto := [.ok 1], recvfrom := [.ok []] } }) := by
  have link : ∀ f ∈ [datagramFrame 1 3 7 53 (ascii "?") (by decide),
      datagramFrame 3 1 53 7 (ascii "!") (by decide)], f.link.datalinkType = dltNull := by
    simp [datagramFrame, WellFormedFrame.betweenHosts, LinkHeader.datalinkType]
  have added : addTargetTestServers dottedInet ∅ [] = .ok ∅ := rfl
  exact main_replays link rfl added _ _

end UdpReplay

end PacketReplay
