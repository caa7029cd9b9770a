import Mathlib.Algebra.Order.BigOperators.Group.List
import SwitchML.Lib.OnesComplement
import SwitchML.Wire.Egress

/-!
# SwitchML wire format — RoCE replies

The RDMA WRITE packets that `RDMASender` makes of the packets that ingress has harvested, as
the workers receive them.

Egress parses neither the payload nor the ICRC, which stay where they are, behind the
headers that it writes. The length fields, though, have to count both, and the opcode
decides which headers there are.

* `egressPass_roce` — the packet that leaves, header by header;
* `roce_reply_reads_back` — for both packet sizes and each place in a message, the parser
  of the switch reads the reply as the RDMA WRITE it was meant to be, the length fields
  count the bytes there are, and the checksum of the header is right.
-/

namespace SwitchML.Wire

open BitCodec Codec MatchAction

-- ---------------------------------------------------------------------------
-- What a reply looks like
-- ---------------------------------------------------------------------------

/-- The payload, slice by slice. -/
def payloadBits (payload : List Data) : Bits := payload.flatMap dataH.encode

@[simp] theorem payloadBits_nil : payloadBits [] = [] := rfl

@[simp] theorem payloadBits_cons (d : Data) (payload : List Data) :
    payloadBits (d :: payload) = dataH.encode d ++ payloadBits payload := by
  rw [payloadBits, List.flatMap_cons, payloadBits]

/-- What ingress leaves of a harvested packet: the metadata, the payload, and what was
behind the payload when the packet came. -/
def harvestedRoce (md : BridgedMd) (rdmaMd : SwitchmlRdmaMd) (exponents : ExponentsMd)
    (payload : List Data) (tail : Bits) : Bits :=
  switchmlMdH.encode md ++ (switchmlRdmaMdH.encode rdmaMd ++
    (switchmlExponentsMdH.encode exponents ++ (payloadBits payload ++ tail)))

/-- The opcode of a reply. -/
def replyOpcode (md : SwitchmlMd) : IbOpcode :=
  match md.firstPacketOfMessage, md.lastPacketOfMessage with
  | true, false => .rdmaWriteFirst
  | false, false => .rdmaWriteMiddle
  | false, true => .rdmaWriteLastImmediate
  | true, true => .rdmaWriteOnlyImmediate

/-- The RETH header of a reply. -/
def replyReth (md : SwitchmlMd) (rdmaMd : SwitchmlRdmaMd) (rkey : BitVec 32) : Option IbReth :=
  if md.firstPacketOfMessage then
    some { addr := rdmaMd.addr, rKey := rkey, len := rdmaMd.len.setWidth 32 }
  else none

/-- The immediate of a reply. -/
def replyImmediate (md : SwitchmlMd) (exponents : ExponentsMd) : Option (BitVec 32) :=
  if md.lastPacketOfMessage then some (setImmediate md.poolIndex exponents) else none

/-- The bytes that the opcode and the packet size add to the base lengths. -/
def replyBytes (md : SwitchmlMd) : Nat :=
  md.packetSize.bytes + ((if md.lastPacketOfMessage then ibImmediateH.width / 8 else 0) +
    (if md.firstPacketOfMessage then ibRethH.width / 8 else 0))

def replyEthernet (cfg : RoceEgressConfig) (fields : RoceWriteFields) : Ethernet where
  dstAddr := fields.destMac
  srcAddr := cfg.switchMac
  etherType := ethertypeIpv4

/-- The IPv4 header of a reply before its checksum is filled in. -/
def replyIpv4 (cfg : RoceEgressConfig) (fields : RoceWriteFields) (md : SwitchmlMd) : Ipv4 where
  version := 4
  ihl := 5
  diffserv := 0x02
  totalLen := BitVec.ofNat 16 (roceIpv4Length + replyBytes md)
  identification := 0x0001
  flags := 0b010
  ttl := 64
  protocol := ipProtocolUdp
  srcAddr := cfg.switchIp
  dstAddr := fields.destIp

def replyUdp (md : SwitchmlMd) : Udp where
  srcPort := 1#1 ++ md.workerId.extractLsb' 0 15
  dstPort := udpPortRoceV2
  length := BitVec.ofNat 16 (roceUdpLength + replyBytes md)

def replyBth (md : SwitchmlMd) (qpn : BitVec 24) (psn : BitVec 24) : IbBth where
  opcode := IbOpcode.bits (replyOpcode md)
  migrationReq := 1
  partitionKey := 0xffff
  dstQp := qpn
  psn := psn

/-- The packet sizes there are jobs with. -/
def PacketSize.InUse (size : PacketSize) : Prop := size = .mtu256 ∨ size = .mtu1024

theorem rdmaSender_reply {cfg : RoceEgressConfig} {st : EgressState} {fields : RoceWriteFields}
    {worker : ℕ} {entry : SenderEntry} (hHdr : st.hdr = {})
    (hSize : PacketSize.InUse st.md.packetSize)
    (hFields : cfg.createRocePacket st.md.workerId.toNat = some fields)
    (hEntry : (cfg.fillInQpnAndPsn.find? fun e =>
      decide (e.1 = st.md.workerId.toNat) && e.2.hits st.md.poolIndex) = some (worker, entry)) :
    rdmaSender cfg st =
      { st with
        updateIpv4Checksum := true
        hdr := {
          ethernet := some (replyEthernet cfg fields)
          ipv4 := some (replyIpv4 cfg fields st.md)
          udp := some (replyUdp st.md)
          ibBth := some (replyBth st.md entry.qpn st.rdmaMd.psn)
          ibReth := replyReth st.md st.rdmaMd fields.rkey
          ibImmediate := replyImmediate st.md st.exponents } } := by
  have hFound : fillInQpnAndPsn cfg (addPayloadSize
      (fillInRoceFields cfg fields.destMac fields.destIp st)) =
      { st with
        updateIpv4Checksum := true
        hdr := {
          ethernet := some (replyEthernet cfg fields)
          ipv4 := some { replyIpv4 cfg fields st.md with
            totalLen := BitVec.ofNat 16 (roceIpv4Length + st.md.packetSize.bytes) }
          udp := some { replyUdp st.md with
            length := BitVec.ofNat 16 (roceUdpLength + st.md.packetSize.bytes) }
          ibBth := some { replyBth st.md entry.qpn st.rdmaMd.psn with
            opcode := IbOpcode.bits .rdmaWriteOnly } } } := by
    rcases hSize with hSize | hSize <;>
      simp [fillInQpnAndPsn, addPayloadSize, fillInRoceFields, addLength, hSize, hHdr, hEntry,
        replyEthernet, replyIpv4, replyUdp, replyBth, PacketSize.bytes, BitVec.ofNat_add]
  rw [rdmaSender, hFields]
  dsimp only
  rw [hFound]
  cases hFirst : st.md.firstPacketOfMessage <;> cases hLast : st.md.lastPacketOfMessage <;>
    simp [setOpcodes, setOpcodeCommon, setRdma, setImmediateHeader, addLength, hFirst, hLast,
      replyIpv4, replyUdp, replyBth, replyOpcode, replyReth, replyImmediate, replyBytes,
      ← BitVec.ofNat_add, Nat.add_assoc]

theorem egressParser_harvestedRoce {md : BridgedMd} (rdmaMd : SwitchmlRdmaMd)
    (exponents : ExponentsMd) (payload : List Data) (tail : Bits)
    (hWorker : md.md.workerType = .roceV2)
    (hType : md.md.packetType = .broadcast ∨ md.md.packetType = .retransmit) :
    egressParser (harvestedRoce md rdmaMd exponents payload tail) =
      some { md := md.md, ethHdrLenFieldHighOrderBits := md.ethHdrLenFieldHighOrderBits
             rdmaMd := rdmaMd, exponents := exponents
             rest := payloadBits payload ++ tail } := by
  rcases hType with hType | hType <;> simp [egressParser, harvestedRoce, hWorker, hType]

/-- **The packet that leaves.** -/
theorem egressPass_roce (cfg : EgressConfig) (undefined : BitVec 8)
    (intr : EgressIntrinsicMetadata) {md : BridgedMd} (rdmaMd : SwitchmlRdmaMd)
    (exponents : ExponentsMd) (payload : List Data) (tail : Bits)
    (hWorker : md.md.workerType = .roceV2)
    (hType : md.md.packetType = .broadcast ∨ md.md.packetType = .retransmit)
    (hKept : md.md.simulateEgressDrop = false) (hSize : PacketSize.InUse md.md.packetSize)
    {fields : RoceWriteFields}
    (hFields : cfg.roce.createRocePacket (replyWorker md.md intr.egressRid).toNat = some fields)
    {worker : ℕ} {entry : SenderEntry}
    (hEntry : (cfg.roce.fillInQpnAndPsn.find? fun e =>
      decide (e.1 = (replyWorker md.md intr.egressRid).toNat) && e.2.hits md.md.poolIndex) =
        some (worker, entry)) :
    let md' := { md.md with workerId := replyWorker md.md intr.egressRid }
    let ipv4 := replyIpv4 cfg.roce fields md'
    egressPass cfg undefined intr (harvestedRoce md rdmaMd exponents payload tail) =
      some (ethernetH.encode (replyEthernet cfg.roce fields) ++
        (ipv4H.encode { ipv4 with hdrChecksum := ipv4Checksum ipv4 } ++
        (udpH.encode (replyUdp md') ++ (ibBthH.encode (replyBth md' entry.qpn rdmaMd.psn) ++
        (emit ibRethH (replyReth md' rdmaMd fields.rkey) ++
        (emit ibImmediateH (replyImmediate md' exponents) ++
        (payloadBits payload ++ tail))))))) := by
  intro md' ipv4
  have hPass := egressPass_reply cfg undefined intr
    (egressParser_harvestedRoce rdmaMd exponents payload tail hWorker hType) hType hKept
  dsimp only at hPass
  rw [if_pos hWorker, rdmaSender_reply rfl hSize hFields hEntry, if_neg Bool.false_ne_true] at hPass
  rw [hPass]
  simp [egressDeparser, HeaderStack.front, md', ipv4]

-- ---------------------------------------------------------------------------
-- The checksum
-- ---------------------------------------------------------------------------

/-- The bits of a header are words whose ones' complement sum is all ones. -/
def ChecksumOk (bits : Bits) : Prop :=
  ∃ words : List (BitVec 16), bits = words.flatMap (field 16).encode ∧
    foldCarry (foldCarry (words.map BitVec.toNat).sum) = 0xffff

/-- The header in words. -/
theorem encode_ipv4H (h : Ipv4) :
    ipv4H.encode h =
      [h.version ++ h.ihl ++ h.diffserv, h.totalLen, h.identification, h.flags ++ h.fragOffset,
        h.ttl ++ h.protocol, h.hdrChecksum, h.srcAddr.extractLsb' 16 16,
        h.srcAddr.extractLsb' 0 16, h.dstAddr.extractLsb' 16 16,
        h.dstAddr.extractLsb' 0 16].flatMap (field 16).encode := by
  have hAddr : ∀ a : BitVec 32, (field 32).encode a =
      (field 16).encode (a.extractLsb' 16 16) ++ (field 16).encode (a.extractLsb' 0 16) := by
    intro a
    have hSplit : a.extractLsb' 16 16 ++ a.extractLsb' 0 16 = a := by
      rw [BitVec.extractLsb'_append_extractLsb'_eq_extractLsb' (by rfl)]
      exact BitVec.extractLsb'_eq_self
    have hHalves := encode_field_append (a.extractLsb' 16 16) (a.extractLsb' 0 16)
    rw [hSplit] at hHalves
    exact hHalves
  have hFirst : (field 16).encode (h.version ++ h.ihl ++ h.diffserv) =
      (field 4).encode h.version ++ (field 4).encode h.ihl ++ (field 8).encode h.diffserv := by
    have hVersion := encode_field_append (h.version ++ h.ihl) h.diffserv
    rw [encode_field_append h.version h.ihl] at hVersion
    exact hVersion
  have hFlags : (field 16).encode (h.flags ++ h.fragOffset) =
      (field 3).encode h.flags ++ (field 13).encode h.fragOffset :=
    encode_field_append h.flags h.fragOffset
  have hTtl : (field 16).encode (h.ttl ++ h.protocol) =
      (field 8).encode h.ttl ++ (field 8).encode h.protocol :=
    encode_field_append h.ttl h.protocol
  have hEncode : ipv4H.encode h = (field 4).encode h.version ++ ((field 4).encode h.ihl ++
      ((field 8).encode h.diffserv ++ ((field 16).encode h.totalLen ++
      ((field 16).encode h.identification ++ ((field 3).encode h.flags ++
      ((field 13).encode h.fragOffset ++ ((field 8).encode h.ttl ++
      ((field 8).encode h.protocol ++ ((field 16).encode h.hdrChecksum ++
      ((field 32).encode h.srcAddr ++ (field 32).encode h.dstAddr)))))))))) := rfl
  rw [hEncode, hAddr h.srcAddr, hAddr h.dstAddr]
  simp only [List.flatMap_cons, List.flatMap_nil, hFirst, hFlags, hTtl, List.append_assoc,
    List.append_nil]

/-- Adding the complement of their sum to words makes the sum all ones. -/
theorem foldCarry_complement (words : List (BitVec 16)) (hLength : words.length < 2 ^ 16) :
    foldCarry (foldCarry ((words.map BitVec.toNat).sum +
      (~~~ BitVec.ofNat 16 (foldCarry (foldCarry (words.map BitVec.toNat).sum))).toNat)) =
        0xffff := by
  obtain ⟨n, hn⟩ : ∃ n, n = (words.map BitVec.toNat).sum := ⟨_, rfl⟩
  have hSum : n ≤ words.length * (2 ^ 16 - 1) := by
    have hCard := List.sum_le_card_nsmul (words.map BitVec.toNat) (2 ^ 16 - 1) (by
      intro m hm
      obtain ⟨word, _, rfl⟩ := List.mem_map.mp hm
      exact Nat.le_pred_of_lt word.isLt)
    rwa [List.length_map, smul_eq_mul, ← hn] at hCard
  have hWord : foldCarry (foldCarry n) < 2 ^ 16 :=
    OnesComplement.fold_fold_lt (w := 16) (n := n) (by omega)
  rw [← hn, BitVec.toNat_not, BitVec.toNat_ofNat, Nat.mod_eq_of_lt hWord]
  exact OnesComplement.fold_verifies (w := 16) (n := n) (by decide) (by omega)

/-- The checksum that the deparser computes is the one a receiver asks for. -/
theorem ipv4Checksum_verifies (h : Ipv4) :
    ChecksumOk (ipv4H.encode { h with hdrChecksum := ipv4Checksum h }) := by
  refine ⟨_, encode_ipv4H _, ?_⟩
  refine Eq.trans (congrArg (fun n => foldCarry (foldCarry n)) ?_) (foldCarry_complement
    [h.version ++ h.ihl ++ h.diffserv, h.totalLen, h.identification, h.flags ++ h.fragOffset,
      h.ttl ++ h.protocol, h.srcAddr.extractLsb' 16 16, h.srcAddr.extractLsb' 0 16,
      h.dstAddr.extractLsb' 16 16, h.dstAddr.extractLsb' 0 16] (by simp))
  simp only [ipv4Checksum, List.map_cons, List.map_nil, List.sum_cons, List.sum_nil]
  omega

-- ---------------------------------------------------------------------------
-- Reading a reply
-- ---------------------------------------------------------------------------

theorem IbOpcode.ofBits_bits (opcode : IbOpcode) :
    IbOpcode.ofBits (IbOpcode.bits opcode) = some opcode := by
  cases opcode <;> rfl

@[simp] theorem width_ibBthH : ibBthH.width = 96 := rfl

@[simp] theorem width_ibRethH : ibRethH.width = 128 := rfl

@[simp] theorem width_ibImmediateH : ibImmediateH.width = 32 := rfl

@[simp] theorem width_ibIcrcH : ibIcrcH.width = 32 := rfl

theorem length_payloadBits (payload : List Data) :
    (payloadBits payload).length = 8 * (128 * payload.length) := by
  simp [payloadBits]
  omega

/-- An RDMA WRITE packet in a UDP datagram in an IPv4 packet: the length fields count the
bytes there are, and the checksum of the header is right. -/
structure Datagram (ipv4 : Ipv4) (udp : Udp) (body : Bits) : Prop where
  totalLen : (ipv4H.encode ipv4 ++ (udpH.encode udp ++ body)).length = 8 * ipv4.totalLen.toNat
  length : (udpH.encode udp ++ body).length = 8 * udp.length.toNat
  checksum : ChecksumOk (ipv4H.encode ipv4)

/-- The fields of a reply as a RoCE packet. -/
def replyPacket (cfg : RoceEgressConfig) (fields : RoceWriteFields) (qpn : BitVec 24)
    (md : SwitchmlMd) (rdmaMd : SwitchmlRdmaMd) (exponents : ExponentsMd) : RocePacket where
  srcAddr := cfg.switchIp
  dstAddr := fields.destIp
  opcode := replyOpcode md
  dstQp := qpn
  psn := rdmaMd.psn
  reth := (replyReth md rdmaMd fields.rkey).getD {}
  immediate := (replyImmediate md exponents).getD 0
  payload := []

/-- The bits of a reply behind the UDP header. -/
def roceBody (fields : RoceWriteFields) (qpn : BitVec 24) (md : SwitchmlMd)
    (rdmaMd : SwitchmlRdmaMd) (exponents : ExponentsMd) (payload : List Data) (tail : Bits) :
    Bits :=
  ibBthH.encode (replyBth md qpn rdmaMd.psn) ++ (emit ibRethH (replyReth md rdmaMd fields.rkey) ++
    (emit ibImmediateH (replyImmediate md exponents) ++ (payloadBits payload ++ tail)))

/-- The opcode and the packet size account for what is behind the base headers. -/
theorem length_roceBody (fields : RoceWriteFields) (qpn : BitVec 24) {md : SwitchmlMd}
    (rdmaMd : SwitchmlRdmaMd) (exponents : ExponentsMd) {payload : List Data} {tail : Bits}
    (hPayload : 128 * payload.length = md.packetSize.bytes) (hTail : tail.length = ibIcrcH.width)
    (udp : Udp) :
    (udpH.encode udp ++ roceBody fields qpn md rdmaMd exponents payload tail).length =
      8 * (roceUdpLength + replyBytes md) := by
  have hBits := length_payloadBits payload
  rw [hPayload] at hBits
  cases hFirst : md.firstPacketOfMessage <;> cases hLast : md.lastPacketOfMessage <;>
    simp [roceBody, replyReth, replyImmediate, replyBytes, roceUdpLength, hFirst, hLast, hBits,
      hTail] <;> omega

/-- The length fields do not overflow. -/
theorem replyBytes_lt {md : SwitchmlMd} (hSize : PacketSize.InUse md.packetSize) :
    roceIpv4Length + replyBytes md < 2 ^ 16 := by
  rcases hSize with hSize | hSize <;> cases hFirst : md.firstPacketOfMessage <;>
    cases hLast : md.lastPacketOfMessage <;>
    simp [roceIpv4Length, roceUdpLength, replyBytes, PacketSize.bytes, hSize, hFirst, hLast]

/-- The base headers of a reply, with at least two slices behind them, are parsed. -/
theorem parseUdp_reply {fields : RoceWriteFields} {qpn : BitVec 24} {md : SwitchmlMd}
    {rdmaMd : SwitchmlRdmaMd} {exponents : ExponentsMd} (d0 d1 : Data) (payload : List Data)
    (tail : Bits) {w : IngressState} (hReth : w.hdr.ibReth = none)
    (hImmediate : w.hdr.ibImmediate = none)
    (hRest : w.rest = udpH.encode (replyUdp md) ++
      roceBody fields qpn md rdmaMd exponents (d0 :: d1 :: payload) tail) :
    ∃ w', parseUdp w = some w' ∧
      w'.hdr = { w.hdr with
        udp := some (replyUdp md), ibBth := some (replyBth md qpn rdmaMd.psn)
        ibReth := replyReth md rdmaMd fields.rkey, ibImmediate := replyImmediate md exponents } ∧
      dataHeaders w'.pass ++ w'.rest = payloadBits (d0 :: d1 :: payload) ++ tail := by
  have hOpcode := IbOpcode.ofBits_bits (replyOpcode md)
  cases hFirst : md.firstPacketOfMessage <;> cases hLast : md.lastPacketOfMessage <;>
    simp only [replyOpcode, hFirst, hLast] at hOpcode <;>
    simp [parseUdp, hRest, roceBody, parseIbBth, replyBth, hOpcode, replyOpcode, replyUdp, hFirst,
      hLast, replyReth, replyImmediate, parseIbImmediate, parseIbReth, parseIbRethImmediate,
      parseIbPayload, dataHeaders, hReth, hImmediate]

/-- The bits are, for the parser of a switch, the headers of an RDMA WRITE packet with the
fields of `rp`, in front of `payload`. -/
def ReadsAs (cfg : SwitchConfig) (port : PortId) (bits : Bits) (rp : RocePacket)
    (payload : Bits) : Prop :=
  ∃ w, ingressParser cfg port bits = some w ∧ rocePacket w.hdr = some rp ∧
    (w.hdr.ibReth.isSome = rp.opcode.isFirst) ∧ (w.hdr.ibImmediate.isSome = rp.opcode.isLast) ∧
    dataHeaders w.pass ++ w.rest = payload

/-- The parser hands the UDP packets that come from outside to `parse_udp`. -/
theorem ingressParser_parseUdp (cfg : SwitchConfig) {port : PortId} (ethernet : Ethernet)
    (ipv4 : Ipv4) (bits : Bits) (hPort : isRecirculationPort port = false)
    (hType : ethernet.etherType = ethertypeIpv4) (hIhl : ipv4.ihl = 5)
    (hOffset : ipv4.fragOffset = 0) (hProtocol : ipv4.protocol = ipProtocolUdp) :
    ingressParser cfg port (ethernetH.encode ethernet ++ (ipv4H.encode ipv4 ++ bits)) =
      parseUdp { start cfg port bits with
        hdr := { ethernet := some ethernet, ipv4 := some ipv4 } } := by
  have hArp : ethertypeIpv4 ≠ ethertypeArp := by decide
  have hIcmp : ipProtocolUdp ≠ ipProtocolIcmp := by decide
  simp [ingressParser, hPort, parseEthernet, start, parseIpv4, hType, hArp, hIhl, hOffset,
    hProtocol, hIcmp]

theorem ingressParser_reply (scfg : SwitchConfig) {port : PortId} (cfg : RoceEgressConfig)
    (fields : RoceWriteFields) (qpn : BitVec 24) (md : SwitchmlMd) (rdmaMd : SwitchmlRdmaMd)
    (exponents : ExponentsMd) (d0 d1 : Data) (payload : List Data) (tail : Bits)
    (hPort : isRecirculationPort port = false) (checksum : BitVec 16) :
    ReadsAs scfg port (ethernetH.encode (replyEthernet cfg fields) ++
      (ipv4H.encode { replyIpv4 cfg fields md with hdrChecksum := checksum } ++
      (udpH.encode (replyUdp md) ++
        roceBody fields qpn md rdmaMd exponents (d0 :: d1 :: payload) tail)))
      (replyPacket cfg fields qpn md rdmaMd exponents)
      (payloadBits (d0 :: d1 :: payload) ++ tail) := by
  have hUdp := ingressParser_parseUdp scfg (replyEthernet cfg fields)
    { replyIpv4 cfg fields md with hdrChecksum := checksum }
    (udpH.encode (replyUdp md) ++
      roceBody fields qpn md rdmaMd exponents (d0 :: d1 :: payload) tail) hPort rfl rfl rfl rfl
  obtain ⟨w, hParse, hHdr, hData⟩ := parseUdp_reply (w := { start scfg port _ with
    hdr := {
      ethernet := some (replyEthernet cfg fields)
      ipv4 := some { replyIpv4 cfg fields md with hdrChecksum := checksum } } })
    d0 d1 payload tail rfl rfl rfl
  refine ⟨w, hUdp.trans hParse, ?_, ?_, ?_, hData⟩
  · rw [hHdr]
    simp [rocePacket, replyPacket, replyBth, IbOpcode.ofBits_bits, replyIpv4]
  · rw [hHdr]
    cases hFirst : md.firstPacketOfMessage <;> cases hLast : md.lastPacketOfMessage <;>
      simp [replyReth, replyPacket, replyOpcode, IbOpcode.isFirst, hFirst, hLast]
  · rw [hHdr]
    cases hFirst : md.firstPacketOfMessage <;> cases hLast : md.lastPacketOfMessage <;>
      simp [replyImmediate, replyPacket, replyOpcode, IbOpcode.isLast, hFirst, hLast]

/-- **A reply is the RDMA WRITE packet it was meant to be.** For every harvested packet of a
RoCE job that is not marked to be lost (`simulateEgressDrop`), of either packet size and at any
place in its message, whatever its data, egress sends an IPv4 packet to the worker's addresses
whose length fields count the bytes there are and whose checksum is right. The parser reads it
as the RDMA WRITE to the queue pair of the pool index, with the address of the message in its
first packet and the immediate in its last, in front of the payload and the ICRC as ingress
left them. -/
theorem roce_reply_reads_back (scfg : SwitchConfig) {port : PortId} (cfg : EgressConfig)
    (undefined : BitVec 8) (intr : EgressIntrinsicMetadata) (md : BridgedMd)
    (rdmaMd : SwitchmlRdmaMd) (exponents : ExponentsMd) {payload : List Data} {tail : Bits}
    {fields : RoceWriteFields} {worker : ℕ} {entry : SenderEntry}
    (hPort : isRecirculationPort port = false) (hWorker : md.md.workerType = .roceV2)
    (hType : md.md.packetType = .broadcast ∨ md.md.packetType = .retransmit)
    (hKept : md.md.simulateEgressDrop = false) (hSize : PacketSize.InUse md.md.packetSize)
    (hPayload : 128 * payload.length = md.md.packetSize.bytes)
    (hTail : tail.length = ibIcrcH.width)
    (hFields : cfg.roce.createRocePacket (replyWorker md.md intr.egressRid).toNat = some fields)
    (hEntry : (cfg.roce.fillInQpnAndPsn.find? fun e =>
      decide (e.1 = (replyWorker md.md intr.egressRid).toNat) && e.2.hits md.md.poolIndex) =
        some (worker, entry)) :
    ∃ ethernet ipv4 udp body,
      egressPass cfg undefined intr (harvestedRoce md rdmaMd exponents payload tail) =
        some (ethernetH.encode ethernet ++ (ipv4H.encode ipv4 ++ (udpH.encode udp ++ body))) ∧
      ethernet.dstAddr = fields.destMac ∧ Datagram ipv4 udp body ∧
      ReadsAs scfg port
        (ethernetH.encode ethernet ++ (ipv4H.encode ipv4 ++ (udpH.encode udp ++ body)))
        (replyPacket cfg.roce fields entry.qpn md.md rdmaMd exponents)
        (payloadBits payload ++ tail) := by
  obtain ⟨md', hmd'⟩ : ∃ md' : SwitchmlMd,
    md' = { md.md with workerId := replyWorker md.md intr.egressRid } := ⟨_, rfl⟩
  have hBits := egressPass_roce cfg undefined intr rdmaMd exponents payload tail hWorker hType
    hKept hSize hFields hEntry
  rw [← hmd'] at hBits
  have hBytes : 128 * payload.length = md'.packetSize.bytes := by rw [hmd', hPayload]
  have hLength := length_roceBody fields entry.qpn rdmaMd exponents hBytes hTail (replyUdp md')
  have hSmall : roceIpv4Length + replyBytes md' < 2 ^ 16 :=
    replyBytes_lt (by rw [hmd']; exact hSize)
  refine ⟨_, _, _, roceBody fields entry.qpn md' rdmaMd exponents payload tail, hBits, rfl,
    ⟨?_, ?_, ipv4Checksum_verifies _⟩, ?_⟩
  · rw [List.length_append, hLength, length_encode, replyIpv4, BitVec.toNat_ofNat,
      Nat.mod_eq_of_lt hSmall, width_ipv4H, roceIpv4Length, width_ipv4H]
    omega
  · rw [hLength, replyUdp, BitVec.toNat_ofNat, Nat.mod_eq_of_lt]
    exact lt_of_le_of_lt (Nat.add_le_add_right (Nat.le_add_right _ _) _) hSmall
  · -- both packet sizes have two slices for the parser to read
    obtain ⟨d0, d1, slices, rfl⟩ : ∃ d0 d1 slices, payload = d0 :: d1 :: slices := by
      have hTwo : 2 ≤ payload.length := by
        rcases hSize with hSize | hSize <;> rw [hSize, PacketSize.bytes] at hPayload <;> omega
      rcases payload with _ | ⟨d0, _ | ⟨d1, slices⟩⟩
      · exact absurd hTwo (by simp)
      · exact absurd hTwo (by simp)
      · exact ⟨d0, d1, slices, rfl⟩
    have hPacket : replyPacket cfg.roce fields entry.qpn md.md rdmaMd exponents =
        replyPacket cfg.roce fields entry.qpn md' rdmaMd exponents := by
      rw [hmd']
      rfl
    rw [hPacket]
    exact ingressParser_reply scfg cfg.roce fields entry.qpn md' rdmaMd exponents d0 d1 slices
      tail hPort _

/-- The tables for one worker, with one queue pair for all slots. -/
def soleRoceWorker : EgressConfig where
  udp := { switchMac := 0x06, switchIp := 0xc0a80106, setDstAddr := fun _ => none }
  roce := {
    switchMac := 0x06, switchIp := 0xc0a80106
    createRocePacket := fun worker =>
      if worker = 3 then some ⟨0x0a, 0xc0a8010a, 0, 0x1234⟩ else none
    fillInQpnAndPsn := [(3, ⟨0, 0, 0x11⟩)] }

/-- A result on its way to the worker: the last packet of a message of many. -/
def lastRoceMd : BridgedMd where
  md := {
    numWorkers := 1, packetSize := .mtu1024, workerType := .roceV2, packetType := .broadcast
    poolIndex := 14, lastPacketOfMessage := true }

theorem roce_reply_reads_back_last :
    ∃ ethernet ipv4 udp body,
      egressPass soleRoceWorker 0 ⟨5, 3⟩ (harvestedRoce lastRoceMd {} ⟨1, 2⟩
        (List.replicate 8 fun _ => 7) (List.replicate 32 false)) =
          some (ethernetH.encode ethernet ++ (ipv4H.encode ipv4 ++ (udpH.encode udp ++ body))) ∧
      ethernet.dstAddr = 0x0a ∧ Datagram ipv4 udp body ∧
      ReadsAs { workers := [] } 0
        (ethernetH.encode ethernet ++ (ipv4H.encode ipv4 ++ (udpH.encode udp ++ body)))
        { srcAddr := 0xc0a80106, dstAddr := 0xc0a8010a, opcode := .rdmaWriteLastImmediate
          dstQp := 0x11, psn := 0, immediate := 0x000e0201, payload := [] }
        (payloadBits (List.replicate 8 fun _ => 7) ++ List.replicate 32 false) :=
  roce_reply_reads_back { workers := [] } soleRoceWorker 0 ⟨5, 3⟩ lastRoceMd {} ⟨1, 2⟩
    (by decide) rfl (.inl rfl) rfl (.inr rfl) rfl rfl rfl rfl

end SwitchML.Wire
