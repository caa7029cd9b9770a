import SwitchML.Wire.Parser

/-!
# SwitchML wire format — one ingress pass

`Ingress.apply` on a parsed packet, for both protocols and for the packets that are not
SwitchML's: the receive stages with the headers they invalidate, the shared part of a
pass, ARP and ICMP, and plain forwarding. The controls that work on metadata, registers
and data headers alone are those of `SwitchML.Switch`.

A field of a header that is not valid reads as zero.
-/

namespace SwitchML.Wire

open BitCodec MatchAction

-- ---------------------------------------------------------------------------
-- GetWorkerBitmap
-- ---------------------------------------------------------------------------

/-- The actions of `get_worker_bitmap`. Of the arguments of `set_bitmap`, the packet
type, the complete bitmap and the two of the pool are never used; the others are those
of the RoCE receive actions. -/
inductive WorkerBitmapAction where
  | drop
  | setBitmap (args : ReceiveArgs)
  | forward
deriving DecidableEq

structure WorkerBitmapKey where
  ingressPort : PortId
  ethSrcAddr : BitVec 48
  ethDstAddr : BitVec 48
  ipSrcAddr : BitVec 32
  ipDstAddr : BitVec 32
  udpDstPort : BitVec 16

/-- `set_bitmap`. The slot moves up by one bit to make room for the set. -/
def setBitmap (args : ReceiveArgs) (w : IngressState) : IngressState :=
  let udp := w.hdr.udp.getD {}
  let switchml := w.hdr.switchml.getD {}
  let exponents := w.hdr.exponents.getD 0
  { w with
    pass := { w.pass with
      workerBitmap := args.workerBitmap
      md := { w.pass.md with
        numWorkers := args.numWorkers
        mgid := args.mgid
        workerType := args.workerType
        workerId := args.workerId
        packetSize := args.packetSize
        recircPortSelector := switchml.poolIndex.setWidth 14
        poolIndex := switchml.poolIndex.extractLsb' 0 14 ++ switchml.poolIndex.extractLsb' 15 1
        firstPacketOfMessage := true
        lastPacketOfMessage := true }
      exponents := ⟨exponents.extractLsb' 8 8, exponents.extractLsb' 0 8⟩ }
    exponentsMdValid := true
    udpMd := some {
      srcPort := udp.srcPort, dstPort := udp.dstPort
      msgType := switchml.msgType, opcode := switchml.opcode, tsi := switchml.tsi }
    hdr := { w.hdr with
      exponents := none, ethernet := none, ipv4 := none, udp := none, switchml := none } }

def WorkerBitmapAction.run (w : IngressState) : WorkerBitmapAction → IngressState
  | .drop =>
    { w with
      pass := { w.pass with dropCtl := true, md := { w.pass.md with packetType := .ignore } } }
  | .setBitmap args => Wire.setBitmap args w
  | .forward => { w with pass := { w.pass with md := { w.pass.md with packetType := .ignore } } }

/-- The key `get_worker_bitmap` matches on. -/
def workerBitmapKey (w : IngressState) : WorkerBitmapKey where
  ingressPort := w.pass.ingressPort
  ethSrcAddr := (w.hdr.ethernet.getD {}).srcAddr
  ethDstAddr := (w.hdr.ethernet.getD {}).dstAddr
  ipSrcAddr := (w.hdr.ipv4.getD {}).srcAddr
  ipDstAddr := (w.hdr.ipv4.getD {}).dstAddr
  udpDstPort := (w.hdr.udp.getD {}).dstPort

-- ---------------------------------------------------------------------------
-- RDMAReceiver
-- ---------------------------------------------------------------------------

/-- The header fields the RoCE receive stage reads. None for an opcode that no entry of
its table can have. -/
def rocePacket (hdr : HeaderStack) : Option RocePacket :=
  let ipv4 := hdr.ipv4.getD {}
  let bth := hdr.ibBth.getD {}
  (IbOpcode.ofBits bth.opcode).map fun opcode =>
    { srcAddr := ipv4.srcAddr, dstAddr := ipv4.dstAddr
      partitionKey := bth.partitionKey, opcode := opcode, se := bth.se
      dstQp := bth.dstQp, psn := bth.psn
      reth := hdr.ibReth.getD {}, immediate := hdr.ibImmediate.getD 0
      payload := [] }

/-- The headers a receive action leaves valid. -/
def keptHeaders (hdr : HeaderStack) : ReceiveAction → HeaderStack
  | .forward => hdr
  | .onlyPacketImmediate _ | .lastPacketImmediate _ =>
    { hdr with
      ibImmediate := none
      ethernet := none, ipv4 := none, udp := none, ibBth := none, ibReth := none }
  | _ =>
    { hdr with ethernet := none, ipv4 := none, udp := none, ibBth := none, ibReth := none }

/-- The action `receive_roce` takes. -/
def receiveRoceAction (workers : List ReceiveEntry) (hdr : HeaderStack) : ReceiveAction :=
  match rocePacket hdr with
  | none => .forward
  | some rp => lookup .forward (receiveKey rp) (receiveRoceEntries workers)

def rdmaReceiver (workers : List ReceiveEntry) (regs : Registers) (w : IngressState) :
    Registers × IngressState :=
  match rocePacket w.hdr with
  | none =>
    (regs, { w with pass := { w.pass with md := { w.pass.md with packetType := .ignore } } })
  | some rp =>
    let (regs, pass) := SwitchML.rdmaReceiver workers rp regs w.pass
    (regs, { w with pass := pass, hdr := keptHeaders w.hdr (receiveRoceAction workers w.hdr) })

-- ---------------------------------------------------------------------------
-- ARPandICMP
-- ---------------------------------------------------------------------------

inductive ArpAndIcmpAction where
  | sendArpReply (switchMac : BitVec 48) (switchIp : BitVec 32)
  | sendIcmpEchoReply (switchMac : BitVec 48) (switchIp : BitVec 32)
  | noAction
deriving DecidableEq

structure ArpAndIcmpKey where
  arpIpv4Valid : Bool
  icmpValid : Bool
  arpOpcode : BitVec 16
  dstProtoAddr : BitVec 32
  icmpMsgType : BitVec 8
  ipDstAddr : BitVec 32

/-- The key `arp_and_icmp` matches on. -/
def arpAndIcmpKey (hdr : HeaderStack) : ArpAndIcmpKey where
  arpIpv4Valid := hdr.arpIpv4.isSome
  icmpValid := hdr.icmp.isSome
  arpOpcode := (hdr.arp.getD {}).opcode
  dstProtoAddr := (hdr.arpIpv4.getD {}).dstProtoAddr
  icmpMsgType := (hdr.icmp.getD {}).msgType
  ipDstAddr := (hdr.ipv4.getD {}).dstAddr

def sendBack (w : IngressState) : IngressState :=
  { w with pass := { w.pass with ucastEgressPort := some w.pass.ingressPort } }

def ArpAndIcmpAction.run (w : IngressState) : ArpAndIcmpAction → IngressState
  | .sendArpReply switchMac switchIp =>
    let arpIpv4 := w.hdr.arpIpv4.getD {}
    sendBack { w with
      hdr := { w.hdr with
        ethernet := w.hdr.ethernet.map fun h =>
          { h with dstAddr := arpIpv4.srcHwAddr, srcAddr := switchMac }
        arp := w.hdr.arp.map fun h => { h with opcode := 0x0002 }
        arpIpv4 := w.hdr.arpIpv4.map fun h =>
          { dstHwAddr := h.srcHwAddr, dstProtoAddr := h.srcProtoAddr
            srcHwAddr := switchMac, srcProtoAddr := switchIp } } }
  | .sendIcmpEchoReply switchMac switchIp =>
    sendBack { w with
      hdr := { w.hdr with
        ethernet := w.hdr.ethernet.map fun h =>
          { h with dstAddr := h.srcAddr, srcAddr := switchMac }
        ipv4 := w.hdr.ipv4.map fun h => { h with dstAddr := h.srcAddr, srcAddr := switchIp }
        icmp := w.hdr.icmp.map fun h => { h with msgType := 0x00, checksum := 0 } } }
  | .noAction => w

-- ---------------------------------------------------------------------------
-- NonSwitchMLForward
-- ---------------------------------------------------------------------------

inductive ForwardAction where
  | setEgressPort (egressPort : PortId)
  | flood (floodMgid : MulticastGroupId)
deriving DecidableEq

/-- `level1_exclusion_id` of a flooded packet: not back to the port it came from. -/
def floodExclusionId (port : PortId) : BitVec 16 := 0b1000000#7 ++ port

def ForwardAction.run (w : IngressState) : ForwardAction → IngressState
  | .setEgressPort egressPort =>
    { w with
      pass := { w.pass with
        ucastEgressPort := some egressPort, bypassEgress := true, dropCtl := false }
      mdValid := false, rdmaMdValid := false }
  | .flood floodMgid =>
    { w with
      pass := { w.pass with
        mcastGrpA := some floodMgid
        level1ExclusionId := floodExclusionId w.pass.ingressPort
        bypassEgress := true, dropCtl := false }
      mdValid := false, rdmaMdValid := false }

-- ---------------------------------------------------------------------------
-- Ingress.apply
-- ---------------------------------------------------------------------------

/-- What the control plane sets up for the controls of `Ingress`. The rows of a worker
carry its protocol (`add_udp_entry` and `add_entry`), and the port that may replace the
loopback port of the `HARVEST4` pass is one of pipe 1. -/
structure WireConfig extends SwitchConfig where
  udpWorkers : Table WorkerBitmapKey WorkerBitmapAction := []
  arpAndIcmp : Table ArpAndIcmpKey ArpAndIcmpAction := []
  forward : BitVec 48 → Option ForwardAction := fun _ => none
  workers_type : ∀ e ∈ workers, e.args.workerType = .roceV2
  udpWorkers_type : ∀ row ∈ udpWorkers, ∀ args, row.2 = .setBitmap args →
    args.workerType = .switchmlUdp
  alternate_pipe : ∀ port ∈ alternateRecircPort, pipeOf port = 1

/-- A switch without SwitchML-UDP workers. -/
theorem noUdpWorkers_type : ∀ row ∈ ([] : Table WorkerBitmapKey WorkerBitmapAction),
    ∀ args, row.2 = .setBitmap args → args.workerType = .switchmlUdp := by
  simp

/-- A switch without RoCE workers. -/
theorem noWorkers_type : ∀ e ∈ ([] : List ReceiveEntry), e.args.workerType = .roceV2 := by
  simp

/-- A switch without an alternate recirculation port. -/
theorem noAlternate_pipe : ∀ port ∈ (none : Option PortId), pipeOf port = 1 := by
  simp

/-- The action `get_worker_bitmap` takes. -/
def WireConfig.workerBitmapAction (cfg : WireConfig) (w : IngressState) : WorkerBitmapAction :=
  lookup .forward (workerBitmapKey w) cfg.udpWorkers

/-- The action `arp_and_icmp` takes. -/
def WireConfig.arpAndIcmpAction (cfg : WireConfig) (w : IngressState) : ArpAndIcmpAction :=
  lookup .noAction (arpAndIcmpKey w.hdr) cfg.arpAndIcmp

/-- The action `forward` takes, if any. -/
def WireConfig.forwardAction (cfg : WireConfig) (w : IngressState) : Option ForwardAction :=
  cfg.forward (w.hdr.ethernet.getD {}).dstAddr

/-- The stages only the first pass of a packet meets. -/
def firstPass (cfg : WireConfig) (rng : Rng) (regs : Registers) (w : IngressState) :
    Registers × IngressState :=
  let (regs, pass) := debugPacketId regs w.pass
  let w := { w with pass := pass }
  let (regs, w) := if w.hdr.ibBth.isSome then rdmaReceiver cfg.workers regs w
    else (regs, (cfg.workerBitmapAction w).run w)
  (regs, { w with
    pass := egressDropSimulator rng.egress (ingressDropSimulator rng.ingress w.pass) })

/-- What a pass does with the packets that are not SwitchML's. -/
def forwardPass (cfg : WireConfig) (w : IngressState) : IngressState :=
  let w := (cfg.arpAndIcmpAction w).run w
  match cfg.forwardAction w with
  | some act => act.run w
  | none => w

/-- The part of `Ingress.apply` that all passes share. A sequence number makes the RDMA
metadata valid. -/
def sharedPass (cfg : WireConfig) (regs : Registers) (w : IngressState) :
    Registers × IngressState :=
  let (regs, pass) := checkSlot regs w.pass
  let w := { w with pass := pass }
  if pass.dropCtl then (regs, w)
  else if PacketType.code (.consume 0) ≤ pass.md.packetType.code then
    let (regs, pass) := processSlot cfg.toSwitchConfig regs pass
    (regs, { w with pass := pass, rdmaMdValid := w.rdmaMdValid || startsHarvest pass })
  else (regs, forwardPass cfg w)

def ingressApply (cfg : WireConfig) (rng : Rng) (regs : Registers) (w : IngressState) :
    Registers × IngressState :=
  if w.pass.md.packetType = .consume 0 then
    let (regs, w) := firstPass cfg rng regs w
    sharedPass cfg regs w
  else if PacketType.code (.consume 1) ≤ w.pass.md.packetType.code then
    sharedPass cfg regs { w with pass := reconstructWorkerBitmap w.pass }
  else sharedPass cfg regs w

/-- An ingress pass over the bits that arrive at a port, up to the deparser. None if the
parser rejects them. -/
def ingressPass (cfg : WireConfig) (rng : Rng) (port : PortId) (bits : Bits)
    (regs : Registers) : Registers × Option IngressState :=
  match ingressParser cfg.toSwitchConfig port bits with
  | none => (regs, none)
  | some w =>
    let (regs, w) := ingressApply cfg rng regs w
    (regs, some w)

theorem ingressPass_of_parse {cfg : WireConfig} {port : PortId} {bits : Bits}
    {w : IngressState} (h : ingressParser cfg.toSwitchConfig port bits = some w) (rng : Rng)
    (regs : Registers) :
    (ingressPass cfg rng port bits regs).2 = some (ingressApply cfg rng regs w).2 := by
  rw [ingressPass, h]

/-- What the traffic manager is handed after a pass. -/
structure Output where
  ucastEgressPort : Option PortId := none
  -- the multicast group, and where not to send it
  mcast : Option (MulticastGroupId × BitVec 16) := none
  bypassEgress : Bool
  bits : Bits
deriving DecidableEq

def IngressState.output (w : IngressState) : Option Output :=
  if w.pass.dropCtl then none
  else some {
    ucastEgressPort := w.pass.ucastEgressPort
    mcast := w.pass.mcastGrpA.map fun group => (group, w.pass.level1ExclusionId)
    bypassEgress := w.pass.bypassEgress
    bits := ingressDeparser w }

/-! ## The drop simulators -/

theorem ingressDropSimulator_eq (rng : DropProbability) (st : PassState) :
    ∃ p, ingressDropSimulator rng st = { st with ingressDropProbability := p } := by
  unfold ingressDropSimulator
  split
  · exact ⟨_, rfl⟩
  · exact ⟨_, rfl⟩

theorem egressDropSimulator_eq (rng : DropProbability) (st : PassState) :
    ∃ p drop, egressDropSimulator rng st =
      { st with
        egressDropProbability := p
        md := { st.md with ingressPort := st.ingressPort, simulateEgressDrop := drop } } := by
  unfold egressDropSimulator
  split
  · exact ⟨_, _, rfl⟩
  · exact ⟨_, _, rfl⟩

end SwitchML.Wire
