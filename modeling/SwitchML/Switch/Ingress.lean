import SwitchML.Switch.NextStep
import SwitchML.Switch.Receiver

/-!
# SwitchML switch — one ingress pass

`Ingress.apply` between the parser and the deparser, for RoCE packets that arrive
at a front-panel port (`receiveRoce`) and for packets that come back from a
recirculation port (`recirculate`). A pass takes the registers of the pipe it runs
in to their new values and says where the packet goes (`Emission`).

The receive stage of UDP packets, ARP, ICMP and plain forwarding are left out: a
packet the receive stage does not recognise is `forwarded`. The values of the
random number generators are inputs.
-/

namespace SwitchML

/-- What the control plane sets up for the controls modelled here. -/
structure SwitchConfig where
  workers : List ReceiveEntry
  alternateRecircPort : Option PortId := none
  -- the port metadata
  ingressDropProbability : PortId → DropProbability := fun _ => 0
  egressDropProbability : PortId → DropProbability := fun _ => 0

-- ---------------------------------------------------------------------------
-- Parser and deparser
-- ---------------------------------------------------------------------------

/-- The pipe a port belongs to, `port[8:7]`. -/
def pipeOf (port : PortId) : Fin 4 := ⟨port.toNat / 128, by have := port.isLt; omega⟩

/-- Where `parse_port_metadata` goes to `parse_recirculate`: the CPU and the
recirculation port of pipe 0, and every port of the other pipes but the CPU port of
pipe 2. -/
def isRecirculationPort (port : PortId) : Bool :=
  decide (port = 64) || decide (port = 68) || (decide (port ≠ 320) && decide (pipeOf port ≠ 0))

theorem isRecirculationPort_of_pipe {p : PortId} {i : Fin 4} (hi : i = 1 ∨ i = 3)
    (hPipe : pipeOf p = i) : isRecirculationPort p = true := by
  have hNe : p ≠ 320 := by
    rintro rfl
    rcases hi with rfl | rfl <;> exact absurd hPipe (by decide)
  have hZero : pipeOf p ≠ 0 := by
    rcases hi with rfl | rfl <;> simp [hPipe]
  simp [isRecirculationPort, hZero]
  exact .inr hNe

/-- `parse_ib_bth` and the states behind it: every UC opcode ends in
`parse_ib_payload`, which extracts two slices. -/
def parseRoce (cfg : SwitchConfig) (port : PortId) (rp : RocePacket) : Option PassState :=
  if isRecirculationPort port then none
  else match rp.payload with
    | d0 :: d1 :: rest =>
      some {
        md := { packetType := .consume 0, ibSolicited := rp.se }
        ingressDropProbability := cfg.ingressDropProbability port
        egressDropProbability := cfg.egressDropProbability port
        d0, d1, d0Valid := true, d1Valid := true, payload := rest, ingressPort := port }
    | _ => none

/-- `parse_recirculate`: consume passes extract two slices, harvest passes make room
for the ones they read from the registers. -/
def parseRecirculate (cfg : SwitchConfig) (port : PortId) (pkt : Packet) : Option PassState :=
  let st : PassState :=
    { md := pkt.md, rdmaMd := pkt.rdmaMd, exponents := pkt.exponents
      ingressDropProbability := cfg.ingressDropProbability port
      egressDropProbability := cfg.egressDropProbability port
      d0Valid := true, d1Valid := true, payload := pkt.payload, ingressPort := port }
  if isRecirculationPort port then
    match pkt.md.workerType, pkt.md.packetType, pkt.payload with
    | .forwardOnly, _, _ => none
    | _, .consume _, d0 :: d1 :: rest => some { st with d0, d1, payload := rest }
    | _, .consume _, _ => none
    | _, _, _ => some st
  else none

/-- The payload the deparser emits: the valid data headers, then what was not parsed. -/
def deparsePayload (st : PassState) : List Data :=
  (if st.d0Valid then [st.d0] else []) ++ (if st.d1Valid then [st.d1] else []) ++ st.payload

def deparse (st : PassState) : Packet :=
  { md := st.md, rdmaMd := st.rdmaMd, exponents := st.exponents, payload := deparsePayload st }

/-- Where a packet goes after a pass. -/
inductive Emission where
  | dropped
  | forwarded
  | recirculated (port : PortId) (pkt : Packet)
  | multicast (group : MulticastGroupId) (pkt : Packet)
  | unicast (port : PortId) (pkt : Packet)

def emission (st : PassState) : Emission :=
  if st.dropCtl then .dropped
  else match st.mcastGrpA, st.ucastEgressPort with
    | some group, _ => .multicast group (deparse st)
    | none, some port =>
      if st.bypassEgress then .recirculated port (deparse st) else .unicast port (deparse st)
    | none, none => .forwarded

-- ---------------------------------------------------------------------------
-- Ingress.apply
-- ---------------------------------------------------------------------------

/-- `DebugPacketId`: number the packets that come in. -/
def debugPacketId (regs : Registers) (st : PassState) : Registers × PassState :=
  ({ regs with packetId := regs.packetId + 1 },
    { st with md := { st.md with debugPacketId := regs.packetId.setWidth 19 } })

/-- `IngressDropSimulator`: a sum of `0xffff` means that the packet is to be dropped. -/
def ingressDropSimulator (rng : DropProbability) (st : PassState) : PassState :=
  if st.ingressDropProbability ≠ 0 then
    { st with ingressDropProbability := satAdd rng st.ingressDropProbability }
  else st

/-- `EgressDropSimulator`; it also stores the port for retransmissions. -/
def egressDropSimulator (rng : DropProbability) (st : PassState) : PassState :=
  let st := if st.egressDropProbability ≠ 0 then
      { st with egressDropProbability := satAdd rng st.egressDropProbability }
    else st
  { st with
    md := { st.md with
      ingressPort := st.ingressPort
      simulateEgressDrop := decide (st.egressDropProbability = 0xffff) } }

/-- The values of the two drop simulators' random number generators. -/
structure Rng where
  ingress : DropProbability := 0
  egress : DropProbability := 0

/-- The stages only the first pass of a packet meets. -/
def firstPass (cfg : SwitchConfig) (rng : Rng) (rp : RocePacket) (regs : Registers)
    (st : PassState) : Registers × PassState :=
  let (regs, st) := debugPacketId regs st
  let (regs, st) := rdmaReceiver cfg.workers rp regs st
  (regs, egressDropSimulator rng.egress (ingressDropSimulator rng.ingress st))

/-- `RDMASequenceNumberAssignment`. -/
def sequenceNumberAssignment (regs : Registers) (st : PassState) : Registers × PassState :=
  let qp := st.md.recircPortSelector
  ({ regs with psn := Function.update regs.psn qp (regs.psn qp + 1) },
    { st with rdmaMd := { st.rdmaMd with psn := (regs.psn qp &&& 0x00ffffff).setWidth 24 } })

/-- Record the packet and find the slot status, in each pipe anew. -/
def checkSlot (regs : Registers) (st : PassState) : Registers × PassState :=
  match st.dropCtl, st.md.packetType with
  | false, .consume _ =>
    let (regs, st) := updateAndCheckWorkerBitmap regs st
    countWorkers regs st
  | _, _ => (regs, st)

/-- `RDMASequenceNumberAssignment` is applied when a packet starts to be harvested. -/
def startsHarvest (st : PassState) : Bool :=
  (decide (st.md.workerType = .roceV2) &&
    (decide (st.md.packetSize = .mtu1024) && decide (st.md.packetType = .harvest 1))) ||
  (decide (st.md.packetSize = .mtu256) && decide (st.md.packetType = .harvest 7))

/-- Aggregate the packet into the slot or read the slot, and decide what is next. -/
def processSlot (cfg : SwitchConfig) (regs : Registers) (st : PassState) :
    Registers × PassState :=
  let (regs, st) := if st.md.lastPacketOfMessage then exponentMax regs st else (regs, st)
  let (regs, st) := significandSums regs st
  let st := nextStep cfg.alternateRecircPort st
  if startsHarvest st then sequenceNumberAssignment regs st else (regs, st)

/-- The part of `Ingress.apply` that all passes share. -/
def switchmlPass (cfg : SwitchConfig) (regs : Registers) (st : PassState) :
    Registers × PassState :=
  let (regs, st) := checkSlot regs st
  if st.dropCtl then (regs, st)
  else if PacketType.code (.consume 0) ≤ st.md.packetType.code then processSlot cfg regs st
  else (regs, st)

/-- The pass of a RoCE packet that arrives at a front-panel port. -/
def receiveRoce (cfg : SwitchConfig) (rng : Rng) (port : PortId) (rp : RocePacket)
    (regs : Registers) : Registers × Emission :=
  match parseRoce cfg port rp with
  | none => (regs, .dropped)
  | some st =>
    let (regs, st) := firstPass cfg rng rp regs st
    let (regs, st) := switchmlPass cfg regs st
    (regs, emission st)

/-- The pass of a packet that comes back from a recirculation port. `next_step` never
recirculates a packet as `CONSUME0`, and the UDP receive stage that such a packet
would meet is not modelled. -/
def recirculate (cfg : SwitchConfig) (port : PortId) (pkt : Packet) (regs : Registers) :
    Registers × Emission :=
  match parseRecirculate cfg port pkt with
  | none => (regs, .dropped)
  | some st =>
    if st.md.packetType = .consume 0 then (regs, .dropped)
    else
      let st := if PacketType.code (.consume 1) ≤ st.md.packetType.code then
          reconstructWorkerBitmap st else st
      let (regs, st) := switchmlPass cfg regs st
      (regs, emission st)

end SwitchML
