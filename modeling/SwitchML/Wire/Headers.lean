import SwitchML.Lib.Codec
import SwitchML.Switch.Types

/-!
# SwitchML wire format — headers

The headers of `headers.p4` and the bridged metadata headers of `types.p4`, bit by bit
in the order of their declarations. A record holds the fields of a header, and the
definition with the program's own name for the header (`ethernet_h` is `ethernetH`)
its format.

The headers a packet comes in with have no padding, so their formats are exact
(`*_exact`): writing what was read gives the bits back. The metadata headers have
padding, which the program never reads.
-/

namespace SwitchML.Wire

open BitCodec Codec

-- ---------------------------------------------------------------------------
-- Headers of packets from outside
-- ---------------------------------------------------------------------------

structure Ethernet where
  dstAddr : BitVec 48 := 0
  srcAddr : BitVec 48 := 0
  etherType : BitVec 16 := 0
deriving DecidableEq, Repr

def ethernetH : Codec Ethernet :=
  ((field 48).seq <| (field 48).seq <| field 16).iso
    (fun (dstAddr, srcAddr, etherType) => ⟨dstAddr, srcAddr, etherType⟩)
    (fun h => (h.dstAddr, h.srcAddr, h.etherType)) (fun _ => rfl)

theorem ethernetH_exact : ethernetH.Exact :=
  ((field_exact 48).seq <| (field_exact 48).seq <| field_exact 16).iso fun _ => rfl

structure Ipv4 where
  version : BitVec 4 := 0
  ihl : BitVec 4 := 0
  diffserv : BitVec 8 := 0
  totalLen : BitVec 16 := 0
  identification : BitVec 16 := 0
  flags : BitVec 3 := 0
  fragOffset : BitVec 13 := 0
  ttl : BitVec 8 := 0
  protocol : BitVec 8 := 0
  hdrChecksum : BitVec 16 := 0
  srcAddr : BitVec 32 := 0
  dstAddr : BitVec 32 := 0
deriving DecidableEq, Repr

def ipv4H : Codec Ipv4 :=
  ((field 4).seq <| (field 4).seq <| (field 8).seq <| (field 16).seq <| (field 16).seq <|
    (field 3).seq <| (field 13).seq <| (field 8).seq <| (field 8).seq <| (field 16).seq <|
    (field 32).seq <| field 32).iso
    (fun (version, ihl, diffserv, totalLen, identification, flags, fragOffset, ttl, protocol,
        hdrChecksum, srcAddr, dstAddr) =>
      ⟨version, ihl, diffserv, totalLen, identification, flags, fragOffset, ttl, protocol,
        hdrChecksum, srcAddr, dstAddr⟩)
    (fun h => (h.version, h.ihl, h.diffserv, h.totalLen, h.identification, h.flags,
      h.fragOffset, h.ttl, h.protocol, h.hdrChecksum, h.srcAddr, h.dstAddr)) (fun _ => rfl)

theorem ipv4H_exact : ipv4H.Exact :=
  ((field_exact 4).seq <| (field_exact 4).seq <| (field_exact 8).seq <| (field_exact 16).seq <|
    (field_exact 16).seq <| (field_exact 3).seq <| (field_exact 13).seq <|
    (field_exact 8).seq <| (field_exact 8).seq <| (field_exact 16).seq <|
    (field_exact 32).seq <| field_exact 32).iso fun _ => rfl

structure Icmp where
  msgType : BitVec 8 := 0
  msgCode : BitVec 8 := 0
  checksum : BitVec 16 := 0
deriving DecidableEq, Repr

def icmpH : Codec Icmp :=
  ((field 8).seq <| (field 8).seq <| field 16).iso
    (fun (msgType, msgCode, checksum) => ⟨msgType, msgCode, checksum⟩)
    (fun h => (h.msgType, h.msgCode, h.checksum)) (fun _ => rfl)

theorem icmpH_exact : icmpH.Exact :=
  ((field_exact 8).seq <| (field_exact 8).seq <| field_exact 16).iso fun _ => rfl

structure Arp where
  hwType : BitVec 16 := 0
  protoType : BitVec 16 := 0
  hwAddrLen : BitVec 8 := 0
  protoAddrLen : BitVec 8 := 0
  opcode : BitVec 16 := 0
deriving DecidableEq, Repr

def arpH : Codec Arp :=
  ((field 16).seq <| (field 16).seq <| (field 8).seq <| (field 8).seq <| field 16).iso
    (fun (hwType, protoType, hwAddrLen, protoAddrLen, opcode) =>
      ⟨hwType, protoType, hwAddrLen, protoAddrLen, opcode⟩)
    (fun h => (h.hwType, h.protoType, h.hwAddrLen, h.protoAddrLen, h.opcode)) (fun _ => rfl)

theorem arpH_exact : arpH.Exact :=
  ((field_exact 16).seq <| (field_exact 16).seq <| (field_exact 8).seq <|
    (field_exact 8).seq <| field_exact 16).iso fun _ => rfl

structure ArpIpv4 where
  srcHwAddr : BitVec 48 := 0
  srcProtoAddr : BitVec 32 := 0
  dstHwAddr : BitVec 48 := 0
  dstProtoAddr : BitVec 32 := 0
deriving DecidableEq, Repr

def arpIpv4H : Codec ArpIpv4 :=
  ((field 48).seq <| (field 32).seq <| (field 48).seq <| field 32).iso
    (fun (srcHwAddr, srcProtoAddr, dstHwAddr, dstProtoAddr) =>
      ⟨srcHwAddr, srcProtoAddr, dstHwAddr, dstProtoAddr⟩)
    (fun h => (h.srcHwAddr, h.srcProtoAddr, h.dstHwAddr, h.dstProtoAddr)) (fun _ => rfl)

theorem arpIpv4H_exact : arpIpv4H.Exact :=
  ((field_exact 48).seq <| (field_exact 32).seq <| (field_exact 48).seq <|
    field_exact 32).iso fun _ => rfl

structure Udp where
  srcPort : BitVec 16 := 0
  dstPort : BitVec 16 := 0
  length : BitVec 16 := 0
  checksum : BitVec 16 := 0
deriving DecidableEq, Repr

def udpH : Codec Udp :=
  ((field 16).seq <| (field 16).seq <| (field 16).seq <| field 16).iso
    (fun (srcPort, dstPort, length, checksum) => ⟨srcPort, dstPort, length, checksum⟩)
    (fun h => (h.srcPort, h.dstPort, h.length, h.checksum)) (fun _ => rfl)

theorem udpH_exact : udpH.Exact :=
  ((field_exact 16).seq <| (field_exact 16).seq <| (field_exact 16).seq <|
    field_exact 16).iso fun _ => rfl

/-- `switchml_h`. The pool index is the slot in the low bits and the set in the top
one. -/
structure SwitchmlHeader where
  msgType : BitVec 4 := 0
  opcode : BitVec 12 := 0
  tsi : BitVec 32 := 0
  poolIndex : BitVec 16 := 0
deriving DecidableEq, Repr

def switchmlH : Codec SwitchmlHeader :=
  ((field 4).seq <| (field 12).seq <| (field 32).seq <| field 16).iso
    (fun (msgType, opcode, tsi, poolIndex) => ⟨msgType, opcode, tsi, poolIndex⟩)
    (fun h => (h.msgType, h.opcode, h.tsi, h.poolIndex)) (fun _ => rfl)

theorem switchmlH_exact : switchmlH.Exact :=
  ((field_exact 4).seq <| (field_exact 12).seq <| (field_exact 32).seq <|
    field_exact 16).iso fun _ => rfl

structure IbBth where
  opcode : BitVec 8 := 0
  se : Bool := false
  migrationReq : BitVec 1 := 0
  padCount : BitVec 2 := 0
  transportVersion : BitVec 4 := 0
  partitionKey : BitVec 16 := 0
  fRes1 : BitVec 1 := 0
  bRes1 : BitVec 1 := 0
  reserved : BitVec 6 := 0
  dstQp : BitVec 24 := 0
  ackReq : BitVec 1 := 0
  reserved2 : BitVec 7 := 0
  psn : BitVec 24 := 0
deriving DecidableEq, Repr

def ibBthH : Codec IbBth :=
  ((field 8).seq <| bit.seq <| (field 1).seq <| (field 2).seq <| (field 4).seq <|
    (field 16).seq <| (field 1).seq <| (field 1).seq <| (field 6).seq <| (field 24).seq <|
    (field 1).seq <| (field 7).seq <| field 24).iso
    (fun (opcode, se, migrationReq, padCount, transportVersion, partitionKey, fRes1, bRes1,
        reserved, dstQp, ackReq, reserved2, psn) =>
      ⟨opcode, se, migrationReq, padCount, transportVersion, partitionKey, fRes1, bRes1,
        reserved, dstQp, ackReq, reserved2, psn⟩)
    (fun h => (h.opcode, h.se, h.migrationReq, h.padCount, h.transportVersion, h.partitionKey,
      h.fRes1, h.bRes1, h.reserved, h.dstQp, h.ackReq, h.reserved2, h.psn)) (fun _ => rfl)

theorem ibBthH_exact : ibBthH.Exact :=
  ((field_exact 8).seq <| bit_exact.seq <| (field_exact 1).seq <| (field_exact 2).seq <|
    (field_exact 4).seq <| (field_exact 16).seq <| (field_exact 1).seq <|
    (field_exact 1).seq <| (field_exact 6).seq <| (field_exact 24).seq <|
    (field_exact 1).seq <| (field_exact 7).seq <| field_exact 24).iso fun _ => rfl

def ibRethH : Codec IbReth :=
  ((field 64).seq <| (field 32).seq <| field 32).iso
    (fun (addr, rKey, len) => ⟨addr, rKey, len⟩)
    (fun h => (h.addr, h.rKey, h.len)) (fun _ => rfl)

theorem ibRethH_exact : ibRethH.Exact :=
  ((field_exact 64).seq <| (field_exact 32).seq <| field_exact 32).iso fun _ => rfl

def ibImmediateH : Codec (BitVec 32) := field 32

def exponentsH : Codec (BitVec 16) := field 16

def dataH : Codec Data := (field 32).vector 32

theorem dataH_exact : dataH.Exact := (field_exact 32).vector 32

-- ---------------------------------------------------------------------------
-- Enumerations of the metadata
-- ---------------------------------------------------------------------------

def PacketType.bits (t : PacketType) : BitVec 4 := BitVec.ofNat 4 t.code

def PacketType.ofBits (v : BitVec 4) : PacketType :=
  match v.toNat with
  | 0 => .mirror
  | 1 => .broadcast
  | 2 => .retransmit
  | 3 => .ignore
  | n => if n < 8 then .consume (Fin.ofNat 4 (n - 4)) else .harvest (Fin.ofNat 8 (n - 8))

theorem PacketType.ofBits_bits (t : PacketType) : ofBits (bits t) = t := by
  cases t with
  | consume i => revert i; decide
  | harvest j => revert j; decide
  | _ => rfl

def PacketSize.bits : PacketSize → BitVec 2
  | .mtu128 => 0
  | .mtu256 => 1
  | .mtu512 => 2
  | .mtu1024 => 3

def PacketSize.ofBits (v : BitVec 2) : PacketSize :=
  match v.toNat with
  | 0 => .mtu128
  | 1 => .mtu256
  | 2 => .mtu512
  | _ => .mtu1024

def WorkerType.bits : WorkerType → BitVec 2
  | .forwardOnly => 0
  | .switchmlUdp => 1
  | .roceV2 => 2

/-- The fourth code has no meaning. No state of the parsers has a transition for it, so
that a packet with it is rejected. -/
def WorkerType.ofBits (v : BitVec 2) : Option WorkerType :=
  match v.toNat with
  | 0 => some .forwardOnly
  | 1 => some .switchmlUdp
  | 2 => some .roceV2
  | _ => none

-- ---------------------------------------------------------------------------
-- Bridged metadata
-- ---------------------------------------------------------------------------

/-- `switchml_md_h` as it is on the wire: with the two bits that keep a looped back
packet from looking like a frame with a length field. -/
structure BridgedMd where
  md : SwitchmlMd
  ethHdrLenFieldHighOrderBits : BitVec 2 := 0b01
deriving DecidableEq, Repr

def switchmlMdH : Codec BridgedMd :=
  ((field 16).seq <| (field 16).seq <| (pad 1).seq <| (field 15).seq <| (pad 2).seq <|
    (field 14).seq <| (field 8).seq <|
    ((field 2).iso PacketSize.ofBits PacketSize.bits (by rintro (_ | _) <;> rfl)).seq <|
    ((field 2).partialIso WorkerType.ofBits WorkerType.bits (by rintro (_ | _) <;> rfl)).seq <|
    ((field 4).iso PacketType.ofBits PacketType.bits PacketType.ofBits_bits).seq <|
    bit.seq <| (pad 6).seq <| (field 9).seq <| (field 2).seq <| (pad 3).seq <|
    (field 19).seq <| bit.seq <| (pad 1).seq <| bit.seq <| bit.seq <| bit.seq <| bit.seq <|
    bit.seq bit).iso
    (fun (mgid, workerId, _, poolIndex, _, recircPortSelector, numWorkers, packetSize,
        workerType, packetType, simulateEgressDrop, _, ingressPort,
        ethHdrLenFieldHighOrderBits, _, debugPacketId, ibSolicited, _, firstPacketOfMessage,
        lastPacketOfMessage, firstFlag, lastFlag, mapResultNonzero, bitmapBeforeNonzero) =>
      ⟨⟨mgid, workerId, poolIndex, recircPortSelector, numWorkers, packetSize,
          workerType, packetType, simulateEgressDrop, ingressPort, debugPacketId, ibSolicited,
          firstPacketOfMessage, lastPacketOfMessage, firstFlag, lastFlag, mapResultNonzero,
          bitmapBeforeNonzero⟩,
        ethHdrLenFieldHighOrderBits⟩)
    (fun h => (h.md.mgid, h.md.workerId, (), h.md.poolIndex, (), h.md.recircPortSelector,
      h.md.numWorkers, h.md.packetSize, h.md.workerType, h.md.packetType,
      h.md.simulateEgressDrop, (), h.md.ingressPort, h.ethHdrLenFieldHighOrderBits, (),
      h.md.debugPacketId, h.md.ibSolicited, (), h.md.firstPacketOfMessage,
      h.md.lastPacketOfMessage, h.md.firstFlag, h.md.lastFlag, h.md.mapResultNonzero,
      h.md.bitmapBeforeNonzero)) (fun _ => rfl)

/-- `switchml_udp_md_h`: what the reply to a SwitchML-UDP packet takes over from it. -/
structure SwitchmlUdpMd where
  srcPort : BitVec 16 := 0
  dstPort : BitVec 16 := 0
  tsi : BitVec 32 := 0
  msgType : BitVec 4 := 0
  opcode : BitVec 12 := 0
deriving DecidableEq, Repr

def switchmlUdpMdH : Codec SwitchmlUdpMd :=
  ((field 16).seq <| (field 16).seq <| (field 32).seq <| (field 4).seq <| (pad 4).seq <|
    (pad 4).seq <| field 12).iso
    (fun (srcPort, dstPort, tsi, msgType, _, _, opcode) =>
      ⟨srcPort, dstPort, tsi, msgType, opcode⟩)
    (fun h => (h.srcPort, h.dstPort, h.tsi, h.msgType, (), (), h.opcode)) (fun _ => rfl)

def switchmlRdmaMdH : Codec SwitchmlRdmaMd :=
  ((field 24).seq <| (field 24).seq <| field 64).iso
    (fun (psn, len, addr) => ⟨psn, len, addr⟩)
    (fun h => (h.psn, h.len, h.addr)) (fun _ => rfl)

def switchmlExponentsMdH : Codec ExponentsMd :=
  ((field 8).seq <| field 8).iso (fun (e0, e1) => ⟨e0, e1⟩) (fun h => (h.e0, h.e1))
    (fun _ => rfl)

end SwitchML.Wire
