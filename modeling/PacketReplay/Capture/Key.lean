import Mathlib.Data.Sym.Sym2
import PacketReplay.Capture.Packet
import PacketReplay.Lib.Search
import PacketReplay.Util

/-!
# The key of a flow

`tcpIpGetKey` writes the two endpoints of a packet with the smaller one first, so
that both directions of a flow have one key. The text can be taken apart again:
packets of one key have the same two endpoints (`endpoints_of_key_eq`).
-/

namespace PacketReplay

open Lib

def generateKey (addr1 : Bytes) (port1 : UInt16) (addr2 : Bytes) (port2 : UInt16) : Bytes :=
  addr1 ++ ascii ":" ++ toDecimal port1.toNat ++ ascii ":" ++ addr2 ++ ascii ":" ++
    toDecimal port2.toNat

/-- `memcmp(src_addr, dest_addr, addr_size)`, which stays within the addresses. -/
def NetworkLayer.compareAddrs (n : NetworkLayer) : Int :=
  (memcmp n.srcAddr n.destAddr n.family.addrSize).toOption.getD 0

def tcpIpGetKey (packet : TransportPacket) : Bytes :=
  let srcPort := packet.transport.srcPort
  let destPort := packet.transport.destPort
  let srcAddrStr := bytesToHexString packet.network.srcAddr
  let destAddrStr := bytesToHexString packet.network.destAddr
  let comp := packet.network.compareAddrs
  if comp = 0 then
    if srcPort < destPort then generateKey srcAddrStr srcPort destAddrStr destPort
    else generateKey destAddrStr destPort srcAddrStr srcPort
  else if comp < 0 then generateKey srcAddrStr srcPort destAddrStr destPort
  else generateKey destAddrStr destPort srcAddrStr srcPort

theorem NetworkLayer.memcmp_eq_compareAddrs (n : NetworkLayer) :
    memcmp n.srcAddr n.destAddr n.family.addrSize = .ok n.compareAddrs := by
  obtain ⟨r, compared⟩ := exists_memcmp n.srcAddr_length.ge n.destAddr_length.ge
  rw [compareAddrs, compared]
  rfl

namespace TransportPacket

/-- The address and the port a packet goes to. -/
def dest (p : TransportPacket) : Bytes × UInt16 := (p.network.destAddr, p.transport.destPort)

end TransportPacket

/-- The key of two endpoints. -/
def endpointKey (a b : Bytes × UInt16) : Bytes :=
  generateKey (bytesToHexString a.1) a.2 (bytesToHexString b.1) b.2

theorem tcpIpGetKey_eq (p : TransportPacket) :
    tcpIpGetKey p = endpointKey p.source p.dest ∨ tcpIpGetKey p = endpointKey p.dest p.source := by
  unfold tcpIpGetKey
  simp only
  split
  · split
    · exact Or.inl rfl
    · exact Or.inr rfl
  · split
    · exact Or.inl rfl
    · exact Or.inr rfl

theorem endpointKey_inj {a b c d : Bytes × UInt16} (same : endpointKey a b = endpointKey c d) :
    a = c ∧ b = d := by
  have colon : ascii ":" = [58] := rfl
  have hex : ∀ data : Bytes, (58 : UInt8) ∉ bytesToHexString data := by
    intro data mem
    cases isdigit_of_mem_bytesToHexString mem
  have decimal : ∀ n : Nat, (58 : UInt8) ∉ toDecimal n := fun n => not_mem_toDecimal (by decide)
  simp only [endpointKey, generateKey, colon, List.append_assoc, List.singleton_append] at same
  obtain ⟨addr1, same⟩ := append_cons_inj_of_not_mem (hex _) (hex _) same
  obtain ⟨port1, same⟩ := append_cons_inj_of_not_mem (decimal _) (decimal _) same
  obtain ⟨addr2, port2⟩ := append_cons_inj_of_not_mem (hex _) (hex _) same
  have first := UInt16.toNat_inj.mp (toDecimal_injective port1)
  have second := UInt16.toNat_inj.mp (toDecimal_injective port2)
  exact ⟨Prod.ext (bytesToHexString_injective addr1) first,
    Prod.ext (bytesToHexString_injective addr2) second⟩

/-- Packets of one key go between the same endpoints. -/
theorem endpoints_of_key_eq {p q : TransportPacket} (same : tcpIpGetKey p = tcpIpGetKey q) :
    p.source = q.source ∧ p.dest = q.dest ∨ p.source = q.dest ∧ p.dest = q.source := by
  rcases tcpIpGetKey_eq p with keyP | keyP <;> rcases tcpIpGetKey_eq q with keyQ | keyQ <;>
    rw [keyP, keyQ] at same
  · exact Or.inl (endpointKey_inj same)
  · exact Or.inr (endpointKey_inj same)
  · exact Or.inr (endpointKey_inj same).symm
  · exact Or.inl (endpointKey_inj same).symm

/-- The length of an address tells its family. -/
theorem family_eq_of_key_eq {p q : TransportPacket} (same : tcpIpGetKey p = tcpIpGetKey q) :
    p.network.family = q.network.family := by
  have lengths : p.network.family.addrSize = q.network.family.addrSize := by
    rw [← p.network.srcAddr_length]
    rcases endpoints_of_key_eq same with ⟨src, -⟩ | ⟨src, -⟩
    · rw [show p.network.srcAddr = q.network.srcAddr from congrArg Prod.fst src]
      exact q.network.srcAddr_length
    · rw [show p.network.srcAddr = q.network.destAddr from congrArg Prod.fst src]
      exact q.network.destAddr_length
  revert lengths
  cases p.network.family <;> cases q.network.family <;> decide

/-- Packets of one key and one sender have the same receiver. -/
theorem dest_eq_of_key_eq {p q : TransportPacket} (same : tcpIpGetKey p = tcpIpGetKey q)
    (sender : p.source = q.source) : p.dest = q.dest := by
  rcases endpoints_of_key_eq same with ⟨-, receiver⟩ | ⟨out, back⟩
  · exact receiver
  · rw [back, ← sender, out]

/-! ## Both directions of a flow -/

theorem NetworkLayer.compareAddrs_eq_zero_iff (n : NetworkLayer) :
    n.compareAddrs = 0 ↔ n.srcAddr = n.destAddr := by
  have equal := memcmp_eq_zero_iff n.srcAddr_length.ge n.destAddr_length.ge
  rw [n.memcmp_eq_compareAddrs, ← n.srcAddr_length, List.take_length, n.srcAddr_length,
    ← n.destAddr_length, List.take_length] at equal
  rw [← equal]
  exact ⟨congrArg Except.ok, Except.ok.inj⟩

theorem NetworkLayer.compareAddrs_of_swap {m n : NetworkLayer} (family : m.family = n.family)
    (out : m.srcAddr = n.destAddr) (back : m.destAddr = n.srcAddr) :
    m.compareAddrs = -n.compareAddrs := by
  have swapped := memcmp_symm n.memcmp_eq_compareAddrs
  rw [← family, ← out, ← back, m.memcmp_eq_compareAddrs] at swapped
  exact Except.ok.inj swapped

/-- The key does not depend on more than the family and the endpoints. -/
theorem tcpIpGetKey_congr {p q : TransportPacket} (family : p.network.family = q.network.family)
    (sender : p.source = q.source) (receiver : p.dest = q.dest) :
    tcpIpGetKey p = tcpIpGetKey q := by
  have srcAddr : p.network.srcAddr = q.network.srcAddr := congrArg Prod.fst sender
  have srcPort : p.transport.srcPort = q.transport.srcPort := congrArg Prod.snd sender
  have destAddr : p.network.destAddr = q.network.destAddr := congrArg Prod.fst receiver
  have destPort : p.transport.destPort = q.transport.destPort := congrArg Prod.snd receiver
  unfold tcpIpGetKey NetworkLayer.compareAddrs
  rw [family, srcAddr, srcPort, destAddr, destPort]

/-- The two directions of a flow have one key. -/
theorem tcpIpGetKey_of_swap {p q : TransportPacket} (family : p.network.family = q.network.family)
    (out : p.source = q.dest) (back : p.dest = q.source) : tcpIpGetKey p = tcpIpGetKey q := by
  have srcAddr : p.network.srcAddr = q.network.destAddr := congrArg Prod.fst out
  have srcPort : p.transport.srcPort = q.transport.destPort := congrArg Prod.snd out
  have destAddr : p.network.destAddr = q.network.srcAddr := congrArg Prod.fst back
  have destPort : p.transport.destPort = q.transport.srcPort := congrArg Prod.snd back
  have turned := NetworkLayer.compareAddrs_of_swap family srcAddr destAddr
  have tie := q.network.compareAddrs_eq_zero_iff
  unfold tcpIpGetKey
  simp only [srcAddr, srcPort, destAddr, destPort, turned]
  rcases lt_trichotomy q.network.compareAddrs 0 with less | equal | greater
  · rw [if_neg (by omega), if_neg (by omega), if_neg (by omega), if_pos less]
  · have sameAddr := tie.mp equal
    rw [if_pos (by omega), if_pos equal, sameAddr]
    rcases lt_trichotomy q.transport.srcPort.toNat q.transport.destPort.toNat with
      less | equal | greater
    · rw [if_neg (by simp only [UInt16.lt_iff_toNat_lt]; omega),
        if_pos (UInt16.lt_iff_toNat_lt.mpr less)]
    · rw [UInt16.toNat_inj.mp equal]
    · rw [if_pos (UInt16.lt_iff_toNat_lt.mpr greater),
        if_neg (by simp only [UInt16.lt_iff_toNat_lt]; omega)]
  · rw [if_neg (by omega), if_pos (by omega), if_neg (by omega), if_neg (by omega)]

/-- Packets have one key exactly when they are of one family and go between the same
two endpoints, in either direction. -/
theorem tcpIpGetKey_eq_iff (p q : TransportPacket) :
    tcpIpGetKey p = tcpIpGetKey q ↔
      p.network.family = q.network.family ∧ s(p.source, p.dest) = s(q.source, q.dest) := by
  rw [Sym2.eq_iff]
  constructor
  · intro same
    exact ⟨family_eq_of_key_eq same, endpoints_of_key_eq same⟩
  · intro ⟨family, endpoints⟩
    rcases endpoints with ⟨sender, receiver⟩ | ⟨out, back⟩
    · exact tcpIpGetKey_congr family sender receiver
    · exact tcpIpGetKey_of_swap family out back

/-- The keys of a packet's sender among the configured clients, the one with the
port first. -/
def tcpIpGetTargetTestServerKeys (inet : Inet) (packet : TransportPacket) : List Bytes :=
  let srcAddrStr := cstr (inet.ntop packet.network.family packet.network.srcAddr)
  [srcAddrStr ++ ascii ":" ++ toDecimal packet.transport.srcPort.toNat, srcAddrStr]

end PacketReplay
