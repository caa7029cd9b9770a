import SwitchML.Control.AddWorker
import SwitchML.Wire.Ingress

/-!
# SwitchML wire format — the egress pipeline

`EgressParser`, `Egress.apply` and `EgressDeparser`, from the bits that ingress leaves of a
packet to those that leave the switch. A reply is addressed to its worker, by
`SetDestinationAddress` or by `RDMASender`, after it was logged; all other packets that come
here are debug packets and leave with their metadata.

* `egressApply` — the control;
* `egressPass` — the pipeline;
* `egressPass_reply` — what becomes of a reply that is not to be lost.
-/

namespace SwitchML.Wire

open BitCodec Codec MatchAction

-- ---------------------------------------------------------------------------
-- EgressParser
-- ---------------------------------------------------------------------------

/-- A packet in the egress pipeline. -/
structure EgressState where
  hdr : HeaderStack := {}
  md : SwitchmlMd
  ethHdrLenFieldHighOrderBits : BitVec 2 := 0b01
  -- whether the metadata is still part of the packet
  mdValid : Bool := true
  udpMd : SwitchmlUdpMd := {}
  rdmaMd : SwitchmlRdmaMd := {}
  exponents : ExponentsMd := {}
  switchmlDebug : Option Ethernet := none
  updateIpv4Checksum : Bool := false
  dropCtl : Bool := false
  rest : Bits

/-- `EgressParser`. A mirrored packet has only the first header. -/
def egressParser (bits : Bits) : Option EgressState := do
  let (⟨md, highOrderBits⟩, bits) ← switchmlMdH.decode bits
  let st : EgressState := { md, ethHdrLenFieldHighOrderBits := highOrderBits, rest := bits }
  match md.workerType, md.packetType with
  | _, .mirror => some st
  | .switchmlUdp, _ =>
    let (udpMd, bits) ← switchmlUdpMdH.decode bits
    let (exponents, bits) ← switchmlExponentsMdH.decode bits
    some { st with udpMd := udpMd, exponents := exponents, rest := bits }
  | .roceV2, _ =>
    let (rdmaMd, bits) ← switchmlRdmaMdH.decode bits
    let (exponents, bits) ← switchmlExponentsMdH.decode bits
    some { st with rdmaMd := rdmaMd, exponents := exponents, rest := bits }
  | .forwardOnly, _ => some st

-- ---------------------------------------------------------------------------
-- SetDestinationAddress
-- ---------------------------------------------------------------------------

/-- What the control plane sets up for `SetDestinationAddress`. -/
structure UdpEgressConfig where
  switchMac : BitVec 48
  switchIp : BitVec 32
  -- the MAC and IP addresses of the workers, by worker id
  setDstAddr : WorkerId → Option (BitVec 48 × BitVec 32)

/-- `UDP_LENGTH`, in bytes. -/
def udpLength : Nat :=
  udpH.width / 8 + switchmlH.width / 8 + exponentsH.width / 8 + dataH.width / 8 + dataH.width / 8

/-- `IPV4_LENGTH`, in bytes. -/
def ipv4Length : Nat := ipv4H.width / 8 + udpLength

/-- The headers `set_switch_mac_and_ip` fills in. Fields nobody assigned are zero. -/
def setSwitchMacAndIp (cfg : UdpEgressConfig) (st : EgressState) : EgressState :=
  { st with
    updateIpv4Checksum := true
    hdr := { st.hdr with
      ethernet := some { srcAddr := cfg.switchMac, etherType := ethertypeIpv4 }
      ipv4 := some {
        version := 4, ihl := 5, diffserv := 0x00
        totalLen := BitVec.ofNat 16 ipv4Length, identification := 0x0000
        flags := 0b000, fragOffset := 0, ttl := 64, protocol := ipProtocolUdp
        hdrChecksum := 0, srcAddr := cfg.switchIp }
      udp := some { srcPort := st.udpMd.dstPort, length := BitVec.ofNat 16 udpLength }
      switchml := some {
        msgType := st.udpMd.msgType, opcode := st.udpMd.opcode, tsi := st.udpMd.tsi
        -- bits 13 to 0
        poolIndex := 0#2 ++ st.md.poolIndex.extractLsb' 1 14 } } }

/-- `set_dst_addr_for_SwitchML_UDP`. -/
def setDstAddrForSwitchmlUdp (ethDstAddr : BitVec 48) (ipDstAddr : BitVec 32)
    (st : EgressState) : EgressState :=
  { st with
    updateIpv4Checksum := true
    hdr := { st.hdr with
      ethernet := st.hdr.ethernet.map fun h => { h with dstAddr := ethDstAddr }
      ipv4 := st.hdr.ipv4.map fun h => { h with dstAddr := ipDstAddr }
      udp := st.hdr.udp.map fun h => { h with dstPort := st.udpMd.srcPort, checksum := 0 }
      switchml := st.hdr.switchml.map fun h =>
        -- bit 15
        { h with poolIndex := st.md.poolIndex.extractLsb' 0 1 ++ h.poolIndex.extractLsb' 0 15 }
      exponents := some (st.exponents.e1 ++ st.exponents.e0) } }

def setDestinationAddress (cfg : UdpEgressConfig) (st : EgressState) : EgressState :=
  let st := setSwitchMacAndIp cfg st
  match cfg.setDstAddr st.md.workerId with
  | some (ethDstAddr, ipDstAddr) => setDstAddrForSwitchmlUdp ethDstAddr ipDstAddr st
  | none => st

-- ---------------------------------------------------------------------------
-- RDMASender
-- ---------------------------------------------------------------------------

/-- What the control plane sets up for `RDMASender`, by the number of the worker. Workers are
added with `add_write_worker` only. -/
structure RoceEgressConfig where
  switchMac : BitVec 48
  switchIp : BitVec 32
  createRocePacket : ℕ → Option RoceWriteFields
  fillInQpnAndPsn : List (ℕ × SenderEntry)

def ibIcrcH : Codec (BitVec 32) := field 32

/-- The base length of the UDP datagram, in bytes: the ICRC counts. -/
def roceUdpLength : Nat := ibIcrcH.width / 8 + ibBthH.width / 8 + udpH.width / 8

/-- The base length of the IPv4 packet. -/
def roceIpv4Length : Nat := roceUdpLength + ipv4H.width / 8

/-- The code of an opcode. -/
def IbOpcode.bits : IbOpcode → BitVec 8
  | .sendFirst => 0b00100000
  | .sendMiddle => 0b00100001
  | .sendLast => 0b00100010
  | .sendLastImmediate => 0b00100011
  | .sendOnly => 0b00100100
  | .sendOnlyImmediate => 0b00100101
  | .rdmaWriteFirst => 0b00100110
  | .rdmaWriteMiddle => 0b00100111
  | .rdmaWriteLast => 0b00101000
  | .rdmaWriteLastImmediate => 0b00101001
  | .rdmaWriteOnly => 0b00101010
  | .rdmaWriteOnlyImmediate => 0b00101011

/-- `fill_in_roce_fields`. Fields nobody assigned are zero. -/
def fillInRoceFields (cfg : RoceEgressConfig) (destMac : BitVec 48) (destIp : BitVec 32)
    (st : EgressState) : EgressState :=
  { st with
    updateIpv4Checksum := true
    hdr := { st.hdr with
      switchml := none, exponents := none
      ethernet := some {
        dstAddr := destMac, srcAddr := cfg.switchMac, etherType := ethertypeIpv4 }
      ipv4 := some {
        version := 4, ihl := 5, diffserv := 0x02
        totalLen := BitVec.ofNat 16 roceIpv4Length, identification := 0x0001
        flags := 0b010, fragOffset := 0, ttl := 64, protocol := ipProtocolUdp
        hdrChecksum := 0, srcAddr := cfg.switchIp, dstAddr := destIp }
      udp := some {
        srcPort := 1#1 ++ st.md.workerId.extractLsb' 0 15, dstPort := udpPortRoceV2
        length := BitVec.ofNat 16 roceUdpLength, checksum := 0 }
      ibBth := some {
        opcode := IbOpcode.bits .rdmaWriteOnly, migrationReq := 1, partitionKey := 0xffff } } }

/-- Add to both length fields. -/
def addLength (bytes : Nat) (st : EgressState) : EgressState :=
  { st with hdr := { st.hdr with
    ipv4 := st.hdr.ipv4.map fun h => { h with totalLen := h.totalLen + BitVec.ofNat 16 bytes }
    udp := st.hdr.udp.map fun h => { h with length := h.length + BitVec.ofNat 16 bytes } } }

def addPayloadSize (st : EgressState) : EgressState :=
  match st.md.packetSize with
  | .mtu256 => addLength 256 st
  | .mtu1024 => addLength 1024 st
  | _ => st

/-- `fill_in_qpn_and_psn`, with the entry of the queue pair of the pool index. -/
def fillInQpnAndPsn (cfg : RoceEgressConfig) (st : EgressState) : EgressState :=
  match cfg.fillInQpnAndPsn.find? fun e =>
      decide (e.1 = st.md.workerId.toNat) && e.2.hits st.md.poolIndex with
  | some (_, e) =>
    { st with hdr := { st.hdr with
      ibBth := st.hdr.ibBth.map fun h => { h with dstQp := e.qpn, psn := st.rdmaMd.psn } } }
  | none => st

/-- `set_opcode_common`. -/
def setOpcodeCommon (opcode : IbOpcode) (st : EgressState) : EgressState :=
  { st with hdr := { st.hdr with
    ibBth := st.hdr.ibBth.map fun h => { h with opcode := IbOpcode.bits opcode } } }

/-- `set_rdma`: where the worker writes the packet, and the length of the message. -/
def setRdma (rkey : BitVec 32) (st : EgressState) : EgressState :=
  { st with hdr := { st.hdr with
    ibReth := some { addr := st.rdmaMd.addr, rKey := rkey, len := st.rdmaMd.len.setWidth 32 } } }

/-- `set_immediate`. -/
def setImmediateHeader (st : EgressState) : EgressState :=
  { st with hdr := { st.hdr with
    ibImmediate := some (setImmediate st.md.poolIndex st.exponents) } }

/-- `set_opcodes`, by the place of the packet in its message. -/
def setOpcodes (rkey : BitVec 32) (st : EgressState) : EgressState :=
  match st.md.firstPacketOfMessage, st.md.lastPacketOfMessage with
  | true, false => addLength (ibRethH.width / 8) (setRdma rkey (setOpcodeCommon .rdmaWriteFirst st))
  | false, false => setOpcodeCommon .rdmaWriteMiddle st
  | false, true =>
    addLength (ibImmediateH.width / 8)
      (setImmediateHeader (setOpcodeCommon .rdmaWriteLastImmediate st))
  | true, true =>
    addLength (ibImmediateH.width / 8 + ibRethH.width / 8)
      (setImmediateHeader (setRdma rkey (setOpcodeCommon .rdmaWriteOnlyImmediate st)))

/-- `RDMASender`. The base address of the worker's buffer is never used. -/
def rdmaSender (cfg : RoceEgressConfig) (st : EgressState) : EgressState :=
  match cfg.createRocePacket st.md.workerId.toNat with
  | some fields =>
    setOpcodes fields.rkey (fillInQpnAndPsn cfg (addPayloadSize
      (fillInRoceFields cfg fields.destMac fields.destIp st)))
  | none => setOpcodes 0 (fillInQpnAndPsn cfg (addPayloadSize st))

-- ---------------------------------------------------------------------------
-- EgressDebugLog
-- ---------------------------------------------------------------------------

/-- `log_pair_t`. -/
structure LogPair where
  addr : BitVec 32
  data : BitVec 32
deriving DecidableEq, Repr

/-- `address_bits`. It is assigned for RoCE packets of 256 and 1024 bytes only; otherwise it
is what `undefined` says. -/
def addressBits (undefined : BitVec 8) (rdmaMdValid : Bool) (md : SwitchmlMd)
    (rdmaMd : SwitchmlRdmaMd) : BitVec 8 :=
  if rdmaMdValid ∧ md.packetSize = .mtu1024 then rdmaMd.addr.extractLsb' 10 8
  else if rdmaMdValid ∧ md.packetSize = .mtu256 then rdmaMd.addr.extractLsb' 8 8
  else undefined

/-- `value.addr` of both logs. -/
def logAddr (addressBits : BitVec 8) (md : SwitchmlMd) : BitVec 32 :=
  (addressBits ++ md.debugPacketId.extractLsb' 0 11).setWidth 32

/-- The address bits that egress logs: the parser extracts RDMA metadata for RoCE workers. -/
def EgressState.addressBits (undefined : BitVec 8) (st : EgressState) : BitVec 8 :=
  Wire.addressBits undefined (decide (st.md.workerType = .roceV2)) st.md st.rdmaMd

/-- `EgressDebugLog`. -/
def egressDebugLog (undefined : BitVec 8) (egressPort : PortId) (st : EgressState) : LogPair :=
  let md := st.md
  { addr := logAddr (st.addressBits undefined) md
    data :=
      md.ingressPort.extractLsb' 7 2 ++
      md.workerId.extractLsb' 0 5 ++
      BitVec.ofBool md.firstPacketOfMessage ++
      BitVec.ofBool md.lastPacketOfMessage ++
      egressPort.extractLsb' 2 4 ++
      PacketType.bits md.packetType ++
      md.poolIndex }

-- ---------------------------------------------------------------------------
-- Egress.apply
-- ---------------------------------------------------------------------------

/-- What the control plane sets up for the controls of `Egress`. -/
structure EgressConfig where
  udp : UdpEgressConfig
  roce : RoceEgressConfig

/-- `egress_intrinsic_metadata_t`: where a copy of a packet goes. -/
structure EgressIntrinsicMetadata where
  egressPort : PortId
  egressRid : WorkerId

/-- A reply as it is logged. One that is to be lost is dropped, and no longer a reply; the
copies of a broadcast are for the workers of their nodes. -/
def markReply (egressRid : WorkerId) (st : EgressState) : EgressState :=
  let st := if st.md.simulateEgressDrop then
      { st with dropCtl := true, md := { st.md with packetType := .ignore } } else st
  if st.md.packetType = .broadcast then
    { st with md := { st.md with workerId := egressRid } } else st

/-- `Egress.apply`, with the entry of the log, if there is one. -/
def egressApply (cfg : EgressConfig) (undefined : BitVec 8) (intr : EgressIntrinsicMetadata)
    (st : EgressState) : EgressState × Option LogPair :=
  if st.md.packetType = .broadcast ∨ st.md.packetType = .retransmit then
    let st := markReply intr.egressRid st
    let entry := egressDebugLog undefined intr.egressPort st
    let st := if st.md.workerType = .roceV2 then rdmaSender cfg.roce st
      else setDestinationAddress cfg.udp st
    ({ st with mdValid := false }, some entry)
  else
    ({ st with switchmlDebug := some {
        dstAddr := 0x010203040506, srcAddr := 0x0708090a0b0c, etherType := 0x88b6 } }, none)

-- ---------------------------------------------------------------------------
-- EgressDeparser
-- ---------------------------------------------------------------------------

/-- One step of adding with end-around carry. -/
def foldCarry (n : Nat) : Nat := n % 2 ^ 16 + n / 2 ^ 16

/-- The checksum over the fields of an IPv4 header but the checksum itself: the
complement of the ones' complement sum of its nine words, which two folds reduce to
sixteen bits. -/
def ipv4Checksum (h : Ipv4) : BitVec 16 :=
  let words : List (BitVec 16) :=
    [h.version ++ h.ihl ++ h.diffserv, h.totalLen, h.identification, h.flags ++ h.fragOffset,
      h.ttl ++ h.protocol, h.srcAddr.extractLsb' 16 16, h.srcAddr.extractLsb' 0 16,
      h.dstAddr.extractLsb' 16 16, h.dstAddr.extractLsb' 0 16]
  ~~~ BitVec.ofNat 16 (foldCarry (foldCarry (words.map BitVec.toNat).sum))

/-- `EgressDeparser`. -/
def egressDeparser (st : EgressState) : Bits :=
  let ipv4 := if st.updateIpv4Checksum then
      st.hdr.ipv4.map fun h => { h with hdrChecksum := ipv4Checksum h } else st.hdr.ipv4
  emit ethernetH st.switchmlDebug ++
    emit switchmlMdH (if st.mdValid then some ⟨st.md, st.ethHdrLenFieldHighOrderBits⟩ else none) ++
    HeaderStack.front { st.hdr with ipv4 := ipv4 } ++ emit exponentsH st.hdr.exponents ++ st.rest

/-- The egress pipeline. None if the parser rejects the packet, or if it is dropped. -/
def egressPass (cfg : EgressConfig) (undefined : BitVec 8) (intr : EgressIntrinsicMetadata)
    (bits : Bits) : Option Bits := do
  let st ← egressParser bits
  let st := (egressApply cfg undefined intr st).1
  if st.dropCtl then none else some (egressDeparser st)

-- ---------------------------------------------------------------------------
-- Replies
-- ---------------------------------------------------------------------------

@[simp] theorem width_dataH : dataH.width = 1024 := by simp [dataH]

@[simp] theorem width_exponentsH : exponentsH.width = 16 := by simp [exponentsH]

@[simp] theorem width_switchmlH : switchmlH.width = 64 := rfl

@[simp] theorem width_udpH : udpH.width = 64 := rfl

@[simp] theorem width_ipv4H : ipv4H.width = 160 := rfl

/-- The worker a reply goes to: all of a job get the same, each its own copy. -/
def replyWorker (md : SwitchmlMd) (egressRid : WorkerId) : WorkerId :=
  if md.packetType = .broadcast then egressRid else md.workerId

theorem markReply_kept {egressRid : WorkerId} {st : EgressState}
    (hKept : st.md.simulateEgressDrop = false) :
    markReply egressRid st =
      { st with md := { st.md with workerId := replyWorker st.md egressRid } } := by
  have hLost : ¬ st.md.simulateEgressDrop = true := by simp [hKept]
  unfold markReply replyWorker
  dsimp only
  rw [if_neg hLost]
  split <;> rfl

/-- **A reply that is not to be lost** is addressed to its worker, and leaves without the
metadata. -/
theorem egressPass_reply (cfg : EgressConfig) (undefined : BitVec 8)
    (intr : EgressIntrinsicMetadata) {bits : Bits} {st : EgressState}
    (hParse : egressParser bits = some st)
    (hType : st.md.packetType = .broadcast ∨ st.md.packetType = .retransmit)
    (hKept : st.md.simulateEgressDrop = false) :
    let marked := { st with md := { st.md with workerId := replyWorker st.md intr.egressRid } }
    let sent := if st.md.workerType = .roceV2 then rdmaSender cfg.roce marked
      else setDestinationAddress cfg.udp marked
    egressPass cfg undefined intr bits =
      if sent.dropCtl then none else some (egressDeparser { sent with mdValid := false }) := by
  intro marked sent
  rw [egressPass, hParse, Option.bind_eq_bind, Option.bind_some, egressApply, if_pos hType]
  dsimp only
  rw [markReply_kept hKept]

end SwitchML.Wire
