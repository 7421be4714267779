import PacketReplay.Capture.Address
import PacketReplay.Capture.TcpQueue

/-!
# Control packets that are sent again

A packet without payload and without `FIN` moves the state of a conversation at most
once: where it has brought it to, it does nothing more, as long as the two endpoints are
told apart by their addresses (`processTcp_idem`). Repeating it on the spot therefore
changes nothing of what a capture records (`captured_repeated`).
-/

namespace PacketReplay

open Lib

namespace TcpConversation

/-- No packet has the addresses of both captured endpoints. -/
def EndpointsDiffer (c : TcpConversation) : Prop :=
  ∀ addr, c.sameAddr addr c.capSrcAddr = true → c.sameAddr addr c.capDestAddr = false

theorem endpointsDiffer_ofPacket {first : TransportPacket}
    (differ : first.network.srcAddr ≠ first.network.destAddr) (inet : Inet)
    (server : Option TargetTestServer) : EndpointsDiffer (ofPacket inet first server) := by
  intro addr src
  by_contra dest
  rw [Bool.not_eq_false] at dest
  have fromSrc := take_eq_of_memcmp (of_decide_eq_true src)
  have fromDest := take_eq_of_memcmp (of_decide_eq_true dest)
  have same : first.network.srcAddr.take first.network.family.addrSize =
      first.network.destAddr.take first.network.family.addrSize := fromSrc.symm.trans fromDest
  rw [List.take_of_length_le first.network.srcAddr_length.le,
    List.take_of_length_le first.network.destAddr_length.le] at same
  exact differ same

/-- The captured endpoints stay what they are. -/
theorem EndpointsDiffer.captured {c : TcpConversation} (differ : c.EndpointsDiffer)
    (packets : List TransportPacket) : (c.captured packets).EndpointsDiffer := by
  apply captured_rule fun _ d => EndpointsDiffer d
  · exact differ
  · intro packets packet d ih step
    cases step with
    | quiet state socket idle reset => exact ih
    | connected completes => exact ih
    | continued established noReset noFin => exact ih
    | ended established noReset fin => exact ih

/-! ## One packet -/

section Packet

variable {c : TcpConversation} {src : Bytes} {tcp : TcpLayer}

theorem hasAck_of_syn (syn : tcp.flags = thSyn) : tcp.hasAck = false := by
  rw [TcpLayer.hasAck, syn]
  decide

/-- Nothing is recorded of an established connection. -/
theorem estProcess_of_empty (empty : tcp.data = []) (noFin : tcp.hasFin = false) :
    c.estProcessCapturePacket src tcp = c := by
  rw [estProcessCapturePacket]
  simp [empty, noFin]

/-- A packet that does nothing in a state does nothing there again. -/
theorem processTcp_idem_of_eq (still : c.processTcp src tcp = c) :
    (c.processTcp src tcp).processTcp src tcp = c.processTcp src tcp := by
  rw [still, still]

/-- A packet without payload and without `FIN` does nothing where it has led to. -/
theorem processTcp_idem (differ : c.EndpointsDiffer) (empty : tcp.data = [])
    (noFin : tcp.hasFin = false) :
    (c.processTcp src tcp).processTcp src tcp = c.processTcp src tcp := by
  by_cases reset : tcp.hasRst = true
  · have closes : ∀ d : TcpConversation, d.processTcp src tcp = { d with capTcpState := .closed } :=
      fun d => if_pos reset
    rw [closes, closes]
  · cases state : c.capTcpState with
    | closed =>
        have step : c.processTcp src tcp = c.closeProcessCapturePacket src tcp := by
          rw [processTcp, if_neg reset, state]
        by_cases opens : c.sameAddr src c.capSrcAddr ∧ tcp.flags = thSyn
        · -- the copy of the request is no acknowledgement
          have noAck := hasAck_of_syn opens.2
          rw [step, closeProcessCapturePacket, if_pos opens, processTcp, if_neg reset]
          simp [synSentProcessCapturePacket, noAck]
        · exact processTcp_idem_of_eq (step.trans (if_neg opens))
    | synSent =>
        have step : c.processTcp src tcp = c.synSentProcessCapturePacket src tcp := by
          rw [processTcp, if_neg reset, state]
        by_cases answers : c.sameAddr src c.capDestAddr ∧ tcp.hasAck ∧ tcp.hasSyn
        · -- the copy of the answer does not come from the client
          have noClient : ¬ c.sameAddr src c.capSrcAddr = true := by
            intro client
            have server := differ src client
            rw [answers.1] at server
            cases server
          rw [step, synSentProcessCapturePacket, if_pos answers, processTcp, if_neg reset]
          exact if_neg fun both => noClient both.1
        · exact processTcp_idem_of_eq (step.trans (if_neg answers))
    | synReceived =>
        have step : c.processTcp src tcp = c.synRecvProcessCapturePacket src tcp := by
          rw [processTcp, if_neg reset, state]
        by_cases completes : c.sameAddr src c.capSrcAddr ∧ tcp.hasAck
        · rw [step, synRecvProcessCapturePacket, if_pos completes, processTcp, if_neg reset]
          exact estProcess_of_empty empty noFin
        · exact processTcp_idem_of_eq (step.trans (if_neg completes))
    | established =>
        have step : c.processTcp src tcp = c.estProcessCapturePacket src tcp := by
          rw [processTcp, if_neg reset, state]
        exact processTcp_idem_of_eq (step.trans (estProcess_of_empty empty noFin))

end Packet

theorem processCapturePacket_idem {c : TcpConversation} (differ : c.EndpointsDiffer)
    {packet : TransportPacket} (empty : packet.payload = []) (noFin : packet.hasFin = false) :
    (c.processCapturePacket packet).processCapturePacket packet =
      c.processCapturePacket packet := by
  cases transport : packet.transport with
  | udp udp =>
      rw [processCapturePacket_udp transport, processCapturePacket_udp transport]
  | tcp tcp =>
      rw [TransportPacket.payload, transport] at empty
      rw [TransportPacket.hasFin, transport] at noFin
      rw [processCapturePacket_tcp transport, processCapturePacket_tcp transport]
      exact processTcp_idem differ empty noFin

/-! ## Captures -/

/-- Copies of a packet that the conversation stands behind. -/
theorem captured_replicate {c : TcpConversation} {packet : TransportPacket}
    (still : c.processCapturePacket packet = c) (n : Nat) :
    c.captured (List.replicate n packet) = c := by
  induction n with
  | zero => rfl
  | succ n ih =>
      rw [List.replicate_succ]
      change (c.processCapturePacket packet).captured (List.replicate n packet) = c
      rw [still, ih]

/-- Repeating a control packet on the spot changes nothing, neither then nor behind any
later packet. -/
theorem captured_repeated (inet : Inet) (first : TransportPacket)
    (server : Option TargetTestServer) (differ : first.network.srcAddr ≠ first.network.destAddr)
    (before after : List TransportPacket) (packet : TransportPacket) (n : Nat)
    (empty : packet.payload = []) (noFin : packet.hasFin = false) :
    (ofPacket inet first server).captured
        (before ++ packet :: (List.replicate n packet ++ after)) =
      (ofPacket inet first server).captured (before ++ packet :: after) := by
  have apart := (endpointsDiffer_ofPacket differ inet server).captured before
  have still := processCapturePacket_idem apart empty noFin
  have copies := captured_replicate still n
  rw [captured_append, captured_append]
  change ((((ofPacket inet first server).captured before).processCapturePacket packet).captured
    (List.replicate n packet ++ after)) = _
  rw [captured_append, copies]
  rfl

/-- The answer of the server arrives three times. -/
theorem captured_repeated_answer :
    (ofPacket dottedInet (between 1 3 (.tcp ⟨7, 80, thSyn, []⟩)) none).captured
        ([between 1 3 (.tcp ⟨7, 80, thSyn, []⟩)] ++
          between 3 1 (.tcp ⟨80, 7, thSyn ||| thAck, []⟩) ::
            (List.replicate 2 (between 3 1 (.tcp ⟨80, 7, thSyn ||| thAck, []⟩)) ++
              [between 1 3 (.tcp ⟨7, 80, thAck, []⟩)])) =
      (ofPacket dottedInet (between 1 3 (.tcp ⟨7, 80, thSyn, []⟩)) none).captured
        ([between 1 3 (.tcp ⟨7, 80, thSyn, []⟩)] ++
          between 3 1 (.tcp ⟨80, 7, thSyn ||| thAck, []⟩) ::
            [between 1 3 (.tcp ⟨7, 80, thAck, []⟩)]) :=
  captured_repeated _ _ _ (by decide) _ _ _ 2 rfl (by decide)

end TcpConversation

end PacketReplay
