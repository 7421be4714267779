import Mathlib.Data.List.Forall2
import PacketReplay.Capture.Address
import PacketReplay.Capture.Key
import PacketReplay.Capture.TcpQueue

/-!
# Flags without a meaning for the recording

`PSH`, `URG`, `ECE` and `CWR` are not looked at, but for one place: a connection is
only opened by a packet whose flags are `SYN` and nothing else. Two captures that
differ in these flags are recorded alike, packet by packet, exactly when they agree at
this place (`recordsAlike_iff`).
-/

namespace PacketReplay

open Lib

def thPush : UInt8 := 0x08

def thUrg : UInt8 := 0x20

def thEce : UInt8 := 0x40

def thCwr : UInt8 := 0x80

/-- The flags that should not make a difference. -/
def irrelevantFlags : UInt8 := thPush ||| thUrg ||| thEce ||| thCwr

namespace TcpLayer

/-- The flags without the irrelevant ones. -/
def relevantFlags (t : TcpLayer) : UInt8 := t.flags &&& ~~~irrelevantFlags

theorem flags_and_eq {t u : TcpLayer} (same : t.relevantFlags = u.relevantFlags) {flag : UInt8}
    (relevant : ~~~irrelevantFlags &&& flag = flag) : t.flags &&& flag = u.flags &&& flag := by
  rw [relevantFlags, relevantFlags] at same
  rw [← relevant, ← UInt8.and_assoc, ← UInt8.and_assoc, same]

theorem hasSyn_eq {t u : TcpLayer} (same : t.relevantFlags = u.relevantFlags) :
    t.hasSyn = u.hasSyn := by
  rw [hasSyn, hasSyn, flags_and_eq same (by decide)]

theorem hasAck_eq {t u : TcpLayer} (same : t.relevantFlags = u.relevantFlags) :
    t.hasAck = u.hasAck := by
  rw [hasAck, hasAck, flags_and_eq same (by decide)]

theorem hasRst_eq {t u : TcpLayer} (same : t.relevantFlags = u.relevantFlags) :
    t.hasRst = u.hasRst := by
  rw [hasRst, hasRst, flags_and_eq same (by decide)]

theorem hasFin_eq {t u : TcpLayer} (same : t.relevantFlags = u.relevantFlags) :
    t.hasFin = u.hasFin := by
  rw [hasFin, hasFin, flags_and_eq same (by decide)]

/-- Apart from the irrelevant flags, the flags are `SYN` alone. -/
def isRequest (t : TcpLayer) : Bool := t.relevantFlags = thSyn

theorem isRequest_of_flags {t : TcpLayer} (syn : t.flags = thSyn) : t.isRequest = true := by
  rw [isRequest, relevantFlags, syn]
  decide

end TcpLayer

/-- Two packets that differ in nothing but the irrelevant flags. -/
structure SameButFlags (t u : TcpLayer) : Prop where
  srcPort : t.srcPort = u.srcPort
  destPort : t.destPort = u.destPort
  data : t.data = u.data
  relevantFlags : t.relevantFlags = u.relevantFlags

/-- TCP packets that differ in nothing but the irrelevant flags. -/
def SamePacket (p q : TransportPacket) : Prop :=
  p.network = q.network ∧
    ∃ t u, p.transport = .tcp t ∧ q.transport = .tcp u ∧ SameButFlags t u

namespace TcpConversation

/-- A connection request that arrives in `CLOSED` from the captured source address,
whatever irrelevant flags it has. -/
def Requested (c : TcpConversation) (packet : TransportPacket) : Prop :=
  c.capTcpState = .closed ∧ c.sameAddr packet.network.srcAddr c.capSrcAddr = true ∧
    ∃ t, packet.transport = .tcp t ∧ t.isRequest = true

/-- The flags of a packet are `SYN` and nothing else. -/
def bareSyn (packet : TransportPacket) : Bool :=
  match packet.transport with
  | .tcp tcp => tcp.flags = thSyn
  | .udp _ => false

/-- Each connection request is without irrelevant flags in both captures, or in
neither. -/
def Settled (c : TcpConversation) : List TransportPacket → List TransportPacket → Prop
  | p :: ps, q :: qs =>
      (c.Requested p → bareSyn p = bareSyn q) ∧ Settled (c.processCapturePacket p) ps qs
  | _, _ => True

/-- Behind every packet the queue and the state are the same. -/
def RecordsAlike (c : TcpConversation) (ps qs : List TransportPacket) : Prop :=
  ∀ n, (c.captured (ps.take n)).actionQueue = (c.captured (qs.take n)).actionQueue ∧
    (c.captured (ps.take n)).capTcpState = (c.captured (qs.take n)).capTcpState

/-! ## One packet -/

variable {c : TcpConversation} {src : Bytes} {t u : TcpLayer}

theorem synSentProcess_eq (same : SameButFlags t u) :
    c.synSentProcessCapturePacket src t = c.synSentProcessCapturePacket src u := by
  rw [synSentProcessCapturePacket, synSentProcessCapturePacket,
    TcpLayer.hasAck_eq same.relevantFlags, TcpLayer.hasSyn_eq same.relevantFlags]

theorem synRecvProcess_eq (same : SameButFlags t u) :
    c.synRecvProcessCapturePacket src t = c.synRecvProcessCapturePacket src u := by
  rw [synRecvProcessCapturePacket, synRecvProcessCapturePacket,
    TcpLayer.hasAck_eq same.relevantFlags]

theorem estProcess_congr (same : SameButFlags t u) :
    c.estProcessCapturePacket src t = c.estProcessCapturePacket src u := by
  rw [estProcessCapturePacket, estProcessCapturePacket,
    TcpLayer.hasFin_eq same.relevantFlags, same.data, same.srcPort]

/-- In `CLOSED` a packet that is a request either way has to have the same flags. -/
theorem closeProcess_eq (same : SameButFlags t u)
    (settled : c.sameAddr src c.capSrcAddr = true → t.isRequest = true →
      (t.flags = thSyn ↔ u.flags = thSyn)) :
    c.closeProcessCapturePacket src t = c.closeProcessCapturePacket src u := by
  have guards : (c.sameAddr src c.capSrcAddr ∧ t.flags = thSyn) ↔
      (c.sameAddr src c.capSrcAddr ∧ u.flags = thSyn) := by
    refine and_congr_right fun client => ?_
    constructor
    · exact fun syn => (settled client (TcpLayer.isRequest_of_flags syn)).mp syn
    · intro syn
      have request : t.isRequest = true := by
        rw [TcpLayer.isRequest, same.relevantFlags]
        exact TcpLayer.isRequest_of_flags syn
      exact (settled client request).mpr syn
  rw [closeProcessCapturePacket, closeProcessCapturePacket]
  simp only [guards]

variable {p q : TransportPacket}

theorem processCapturePacket_eq (same : SamePacket p q)
    (settled : c.Requested p → bareSyn p = bareSyn q) :
    c.processCapturePacket p = c.processCapturePacket q := by
  obtain ⟨network, t, u, left, right, layers⟩ := same
  rw [processCapturePacket_tcp left, processCapturePacket_tcp right, network, processTcp,
    processTcp, TcpLayer.hasRst_eq layers.relevantFlags]
  split
  · rfl
  · split
    · next closed =>
        apply closeProcess_eq layers
        intro client request
        rw [← network] at client
        have agree := settled ⟨closed, client, t, left, request⟩
        rw [bareSyn, bareSyn, left, right] at agree
        exact decide_eq_decide.mp agree
    · exact synSentProcess_eq layers
    · exact synRecvProcess_eq layers
    · exact estProcess_congr layers

theorem capTcpState_of_requested (requested : c.Requested p) :
    (c.processCapturePacket p).capTcpState = if bareSyn p then .synSent else .closed := by
  obtain ⟨closed, client, t, transport, request⟩ := requested
  have noReset : t.hasRst = false := by
    have relevant : t.relevantFlags = (⟨0, 0, thSyn, []⟩ : TcpLayer).relevantFlags := by
      rw [of_decide_eq_true request]
      decide
    rw [TcpLayer.hasRst_eq relevant]
    decide
  rw [processCapturePacket_tcp transport, processTcp, if_neg (by simp [noReset]), bareSyn,
    transport]
  simp only [closed, closeProcessCapturePacket, client, true_and]
  by_cases syn : t.flags = thSyn
  · simp [syn]
  · simp [syn, closed]

/-- Recorded alike, packets that are requests have the same flags. -/
theorem bareSyn_eq (same : SamePacket p q) (requested : c.Requested p)
    (alike : (c.processCapturePacket p).capTcpState = (c.processCapturePacket q).capTcpState) :
    bareSyn p = bareSyn q := by
  have other : c.Requested q := by
    obtain ⟨closed, client, t, left, request⟩ := requested
    obtain ⟨network, t', u, left', right, layers⟩ := same
    cases left.symm.trans left'
    rw [network] at client
    rw [TcpLayer.isRequest, layers.relevantFlags] at request
    exact ⟨closed, client, u, right, request⟩
  rw [capTcpState_of_requested requested, capTcpState_of_requested other] at alike
  revert alike
  cases bareSyn p <;> cases bareSyn q <;> decide

/-! ## Captures -/

theorem captured_cons (c : TcpConversation) (p : TransportPacket) (ps : List TransportPacket) :
    c.captured (p :: ps) = (c.processCapturePacket p).captured ps := rfl

/-- Settled captures are recorded in the same way. -/
theorem captured_take_eq {ps qs : List TransportPacket} (same : List.Forall₂ SamePacket ps qs)
    (settled : c.Settled ps qs) (n : Nat) : c.captured (ps.take n) = c.captured (qs.take n) := by
  induction same generalizing c n with
  | nil => rfl
  | @cons p q ps qs first rest ih =>
      cases n with
      | zero => rfl
      | succ n =>
          rw [List.take_succ_cons, List.take_succ_cons, captured_cons, captured_cons,
            ← processCapturePacket_eq first settled.1]
          exact ih settled.2 n

/-- Captures that differ in irrelevant flags are recorded alike, packet by packet,
exactly when each connection request has none of them in both, or some in both. -/
theorem recordsAlike_iff (c : TcpConversation) (ps qs : List TransportPacket)
    (same : List.Forall₂ SamePacket ps qs) : RecordsAlike c ps qs ↔ c.Settled ps qs := by
  constructor
  · intro alike
    induction same generalizing c with
    | nil => trivial
    | @cons p q ps qs first rest ih =>
        have settled : c.Requested p → bareSyn p = bareSyn q := by
          intro requested
          exact bareSyn_eq first requested (alike 1).2
        refine ⟨settled, ih _ fun n => ?_⟩
        have later := alike (n + 1)
        rw [List.take_succ_cons, List.take_succ_cons, captured_cons, captured_cons,
          ← processCapturePacket_eq first settled] at later
        exact later
  · intro settled n
    rw [captured_take_eq same settled n]
    exact ⟨rfl, rfl⟩

/-- A handshake in which the last packet is pushed in one of the captures. -/
theorem recordsAlike_iff_push :
    RecordsAlike (ofPacket dottedInet (between 1 3 (.tcp ⟨7, 80, thSyn, []⟩)) none)
      [between 1 3 (.tcp ⟨7, 80, thSyn, []⟩),
        between 3 1 (.tcp ⟨80, 7, thSyn ||| thAck, []⟩),
        between 1 3 (.tcp ⟨7, 80, thAck, []⟩)]
      [between 1 3 (.tcp ⟨7, 80, thSyn, []⟩),
        between 3 1 (.tcp ⟨80, 7, thSyn ||| thAck, []⟩),
        between 1 3 (.tcp ⟨7, 80, thAck ||| thPush, []⟩)] := by
  refine (recordsAlike_iff _ _ _ ?_).mpr ?_
  · refine .cons ?_ (.cons ?_ (.cons ?_ .nil))
    · exact ⟨rfl, _, _, rfl, rfl, rfl, rfl, rfl, rfl⟩
    · exact ⟨rfl, _, _, rfl, rfl, rfl, rfl, rfl, rfl⟩
    · exact ⟨rfl, _, _, rfl, rfl, rfl, rfl, rfl, by decide⟩
  · refine ⟨fun _ => rfl, fun _ => rfl, fun requested => ?_, trivial⟩
    cases requested.1

/-- The request of a client that offers ECN is not recorded. -/
theorem not_recordsAlike_ecn :
    ¬ ∀ (inet : Inet) (first : TransportPacket) (server : Option TargetTestServer)
      (ps qs : List TransportPacket),
      (∀ p ∈ ps, tcpIpGetKey p = tcpIpGetKey first) → List.Forall₂ SamePacket ps qs →
        ((ofPacket inet first server).captured ps).actionQueue =
            ((ofPacket inet first server).captured qs).actionQueue ∧
          ((ofPacket inet first server).captured ps).capTcpState =
            ((ofPacket inet first server).captured qs).capTcpState := by
  intro alike
  have states := (alike dottedInet (between 1 3 (.tcp ⟨7, 80, thSyn, []⟩)) none
    [between 1 3 (.tcp ⟨7, 80, thSyn, []⟩)]
    [between 1 3 (.tcp ⟨7, 80, thSyn ||| thEce ||| thCwr, []⟩)] (by decide +kernel)
    (.cons ⟨rfl, _, _, rfl, rfl, rfl, rfl, rfl, by decide⟩ .nil)).2
  revert states
  decide +kernel

end TcpConversation

end PacketReplay
