import PacketReplay.Capture.DefaultClient
import PacketReplay.Capture.WellFormedFrame

/-!
# Capture files

`Capture::load`, which opens a file and handles its records one by one. A file that is
loaded has recorded packets, one for each record that is not ignored (`exists_pcapLoop_eq`),
and the packets of a file of well-formed frames are those that the frames carry
(`load_file`).
-/

namespace PacketReplay

open Lib

namespace Capture

/-- What libpcap reads of a file: the type of the link, the records with their lengths on
the wire, and what `pcap_loop` returns behind the last. -/
structure CaptureFile : Type where
  datalinkType : Int
  records : List (Nat × Bytes)
  rc : Int := 0
  pcapGeterr : Bytes := []

def pcapError : Int := -1

/-- `std::to_string` of an `int`. -/
def intToDecimal (n : Int) : Bytes :=
  if n < 0 then ascii "-" ++ toDecimal n.natAbs else toDecimal n.natAbs

section Load

variable {T : Type} [Conversation T] [FrameReader T]

/-- `pcap_loop`, with `packetHandler` for each record. -/
def pcapLoop (factory : ConversationFactory T) (datalinkType : Int)
    (store : TypedConversationStore T) (records : List (Nat × Bytes)) :
    Outcome (TypedConversationStore T) :=
  records.foldlM (fun store record =>
    packetHandler factory datalinkType store record.1 record.2) store

/-- `load` on a file that `pcap_open_offline` opens, or fails to open with a text. The type
of the link is kept in an `unsigned char`. -/
def load (factory : ConversationFactory T) (store : TypedConversationStore T)
    (opened : Except Bytes CaptureFile) : Outcome (TypedConversationStore T) :=
  match opened with
  | .error errbuf => .error (.thrown (.runtimeError (ascii "failed to open file: " ++ errbuf)))
  | .ok file => do
      let store ← pcapLoop factory (file.datalinkType % 256) store file.records
      if file.rc = 0 then return store
      else if file.rc = pcapError then
        .error (.thrown (.runtimeError (ascii "packet read failed " ++ file.pcapGeterr)))
      else
        .error (.thrown (.runtimeError (ascii "packet read failed " ++ intToDecimal file.rc)))

/-- A file that is loaded has been read to its end. -/
theorem load_eq_ok {factory : ConversationFactory T} {store left : TypedConversationStore T}
    {opened : Except Bytes CaptureFile} :
    load factory store opened = .ok left ↔
      ∃ file, opened = .ok file ∧ file.rc = 0 ∧
        pcapLoop factory (file.datalinkType % 256) store file.records = .ok left := by
  rcases opened with errbuf | file
  · constructor
    · intro loaded
      cases loaded
    · rintro ⟨file, opened, -⟩
      cases opened
  · constructor
    · intro loaded
      obtain ⟨store, looped, finished⟩ := bind_eq_ok.mp loaded
      split at finished
      · next rc =>
          cases finished
          exact ⟨file, rfl, rc, looped⟩
      · split at finished
        · cases finished
        · cases finished
    · rintro ⟨file, opened, rc, looped⟩
      cases opened
      exact bind_eq_ok.mpr ⟨left, looped, if_pos rc⟩

variable {factory : ConversationFactory T} {datalinkType : Int}

theorem pcapLoop_cons {store left : TypedConversationStore T} {record : Nat × Bytes}
    {records : List (Nat × Bytes)} :
    pcapLoop factory datalinkType store (record :: records) = .ok left ↔
      ∃ next, packetHandler factory datalinkType store record.1 record.2 = .ok next ∧
        pcapLoop factory datalinkType next records = .ok left := by
  rw [pcapLoop, List.foldlM_cons, bind_eq_ok]
  rfl

/-- The packets of a loop over records that are handled each, or ignored. -/
theorem exists_pcapLoop_eq
    (handles : ∀ {store left : TypedConversationStore T} {len frame},
      packetHandler factory datalinkType store len frame = .ok left →
        left = store ∨ ∃ packet, left = TypedConversationStore.packetHandler factory store packet)
    {records : List (Nat × Bytes)} {store left : TypedConversationStore T}
    (looped : pcapLoop factory datalinkType store records = .ok left) :
    ∃ packets, left = TypedConversationStore.load factory store packets ∧
      packets.length ≤ records.length := by
  induction records generalizing store with
  | nil =>
      cases looped
      exact ⟨[], rfl, Nat.le_refl 0⟩
  | cons record records ih =>
      obtain ⟨next, handled, looped⟩ := pcapLoop_cons.mp looped
      obtain ⟨packets, rfl, few⟩ := ih looped
      rcases handles handled with rfl | ⟨packet, rfl⟩
      · exact ⟨packets, rfl, Nat.le_succ_of_le few⟩
      · exact ⟨packet :: packets, rfl, Nat.succ_le_succ few⟩

end Load

end Capture

namespace WellFormedFrame

/-- The file of the frames of a link. -/
def file (datalinkType : Int) (frames : List WellFormedFrame) : Capture.CaptureFile where
  datalinkType := datalinkType
  records := frames.map fun f => (f.encode.length, f.encode)

/-- A file of frames is loaded as the packets that they carry. -/
theorem load_file {T : Type} [Conversation T] [FrameReader T] {factory : ConversationFactory T}
    {datalinkType : Int} {frames : List WellFormedFrame}
    (link : ∀ f ∈ frames, f.link.datalinkType = datalinkType)
    (handles : ∀ f ∈ frames, ∀ store, Capture.packetHandler factory f.link.datalinkType store
      f.encode.length f.encode = .ok (TypedConversationStore.packetHandler factory store f.packet))
    (store : TypedConversationStore T) :
    Capture.load factory store (.ok (file datalinkType frames)) =
      .ok (TypedConversationStore.load factory store (frames.map packet)) := by
  refine Capture.load_eq_ok.mpr ⟨_, rfl, rfl, ?_⟩
  rw [file]
  induction frames generalizing store with
  | nil => rfl
  | cons f frames ih =>
      have here := handles f List.mem_cons_self store
      rw [← f.link.datalinkType_emod, link f List.mem_cons_self] at here
      exact Capture.pcapLoop_cons.mpr ⟨_, here, ih
        (fun g mem => link g (List.mem_cons_of_mem f mem))
        (fun g mem => handles g (List.mem_cons_of_mem f mem)) _⟩

variable {datalinkType : Int} {frames : List WellFormedFrame}

theorem load_file_tcp (link : ∀ f ∈ frames, f.link.datalinkType = datalinkType) (inet : Inet)
    (store : TypedConversationStore TcpConversation) :
    Capture.load (tcpConversationFactory inet) store (.ok (file datalinkType frames)) =
      .ok (TypedConversationStore.load (tcpConversationFactory inet) store (frames.map packet)) :=
  load_file link (fun f _ store =>
    f.packetHandler_eq (Capture.tcp_readsHeader inet) f.exists_readPacket_tcp store) store

theorem load_file_udp (link : ∀ f ∈ frames, f.link.datalinkType = datalinkType) (inet : Inet)
    (store : TypedConversationStore UdpConversation) :
    Capture.load (udpConversationFactory inet) store (.ok (file datalinkType frames)) =
      .ok (TypedConversationStore.load (udpConversationFactory inet) store (frames.map packet)) :=
  load_file link (fun f _ store =>
    f.packetHandler_eq (Capture.udp_readsHeader inet) f.exists_readPacket_udp store) store

/-! ## Frames between two hosts -/

/-- A header without options. -/
def noOptions : HeaderOptions := ⟨[], 0, rfl, by decide⟩

theorem length_checksum : ([0, 0] : Bytes).length = 2 := rfl

/-- A UDP header without a checksum. -/
def bareUdp : TransportHeader := .udp [0, 0] length_checksum

theorem length_host (n : UInt8) : ([10, 0, 0, n] : Bytes).length = AddrFamily.inet.addrSize := rfl

/-- A frame between two hosts of the network 10.0.0.0/24. -/
def betweenHosts (src dest : UInt8) (transport : TransportHeader) (srcPort destPort : UInt16)
    (payload : Bytes) (fits : 20 + (transport.length + payload.length) < 2 ^ 16) :
    WellFormedFrame where
  link := .null false
  ip := .v4 0 [0, 0, 0, 0, 64] [0, 0] noOptions rfl length_checksum
  srcAddr := [10, 0, 0, src]
  destAddr := [10, 0, 0, dest]
  transport := transport
  srcPort := srcPort
  destPort := destPort
  payload := payload
  trailing := []
  carried := rfl
  srcAddr_length := length_host src
  destAddr_length := length_host dest
  fits := fits

end WellFormedFrame

end PacketReplay
