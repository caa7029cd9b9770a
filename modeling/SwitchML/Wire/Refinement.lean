import SwitchML.Lib.Looped
import SwitchML.Wire.PacketId
import SwitchML.Wire.Recirculation
import SwitchML.Wire.RoceReply

/-!
# SwitchML wire format — bits and fields

The protocol is verified over a switch whose packets are records of fields (`receiveRoce`,
`recirculate`). Here is why that is the switch on the wire: the passes of `Ingress` over the
bits of packets, from the parser to the deparser, do to the registers and to the packets
what those passes over fields do, whatever the order in which packets arrive and come back.

Both are machines of `Lib.Looped`. A RoCE packet on the wire is a `RoceFrame`, which any
headers in front and any ICRC make of it; between two passes a packet is the bits of its
metadata, its payload, and the ICRC it came with.

* `LeavesPayload` — no control looks at the part of the payload that was not parsed;
* `wire_simulates_fields` — one pass;
* `wire_refines_fields` — whole runs.
-/

namespace SwitchML

open MatchAction

-- ---------------------------------------------------------------------------
-- What was not parsed
-- ---------------------------------------------------------------------------

/-- A control that neither reads nor changes the slices that were not parsed. -/
def LeavesPayload (f : Registers → PassState → Registers × PassState) : Prop :=
  ∀ regs st payload, f regs { st with payload := payload } =
    ((f regs st).1, { (f regs st).2 with payload := payload })

theorem LeavesPayload.payload {f : Registers → PassState → Registers × PassState}
    (h : LeavesPayload f) (regs : Registers) (st : PassState) :
    (f regs st).2.payload = st.payload := by
  have hSame := h regs st st.payload
  rw [show ({ st with payload := st.payload } : PassState) = st from rfl] at hSame
  exact congrArg (fun r => r.2.payload) hSame

theorem leavesPayload_updateAndCheckWorkerBitmap : LeavesPayload updateAndCheckWorkerBitmap := by
  intro regs st payload
  unfold updateAndCheckWorkerBitmap
  dsimp only
  split <;> rfl

theorem leavesPayload_countWorkers : LeavesPayload countWorkers := by
  intro regs st payload
  unfold countWorkers
  dsimp only
  split <;> rfl

theorem leavesPayload_exponentMax : LeavesPayload exponentMax := by
  intro regs st payload
  unfold exponentMax
  dsimp only
  split <;> rfl

theorem leavesPayload_significandSums : LeavesPayload significandSums := fun _ _ _ => rfl

theorem leavesPayload_sequenceNumberAssignment : LeavesPayload sequenceNumberAssignment :=
  fun _ _ _ => rfl

theorem nextStep_payload (alternate : Option PortId) (st : PassState) (payload : List Data) :
    nextStep alternate { st with payload := payload } =
      { nextStep alternate st with payload := payload } := by
  have hKey : nextStepKey alternate { st with payload := payload } = nextStepKey alternate st :=
    rfl
  unfold nextStep
  rw [hKey]
  cases lookup .drop (nextStepKey alternate st) nextStepEntries <;> rfl

theorem leavesPayload_checkSlot : LeavesPayload checkSlot := by
  intro regs st payload
  unfold checkSlot
  dsimp only
  split
  · rw [leavesPayload_updateAndCheckWorkerBitmap]
    exact leavesPayload_countWorkers _ _ _
  · rfl

theorem leavesPayload_processSlot (cfg : SwitchConfig) : LeavesPayload (processSlot cfg) := by
  intro regs st payload
  obtain ⟨r, hr⟩ : ∃ r, (if st.md.lastPacketOfMessage then exponentMax regs st
      else (regs, st)) = r := ⟨_, rfl⟩
  have hExponents : (if st.md.lastPacketOfMessage then
        exponentMax regs { st with payload := payload }
      else (regs, { st with payload := payload })) =
      (r.1, { r.2 with payload := payload }) := by
    subst hr
    split
    · exact leavesPayload_exponentMax regs st payload
    · rfl
  unfold processSlot
  rw [hr]
  dsimp only
  rw [hExponents, leavesPayload_significandSums, nextStep_payload]
  dsimp only
  have hStarts : ∀ s : PassState, startsHarvest { s with payload := payload } = startsHarvest s :=
    fun _ => rfl
  rw [hStarts]
  split
  · exact leavesPayload_sequenceNumberAssignment _ _ _
  · rfl

theorem leavesPayload_switchmlPass (cfg : SwitchConfig) : LeavesPayload (switchmlPass cfg) := by
  intro regs st payload
  unfold switchmlPass
  rw [leavesPayload_checkSlot]
  dsimp only
  split
  · rfl
  · split
    · exact leavesPayload_processSlot cfg _ _ _
    · rfl

theorem leavesPayload_firstPass (cfg : SwitchConfig) (rng : Rng) (rp : RocePacket) :
    LeavesPayload (firstPass cfg rng rp) := by
  have hReceive : LeavesPayload (rdmaReceiver cfg.workers rp) := by
    intro regs st payload
    unfold rdmaReceiver
    cases lookup .forward (receiveKey rp) (receiveRoceEntries cfg.workers) <;> rfl
  have hDrops : ∀ (st : PassState) (payload : List Data),
      egressDropSimulator rng.egress (ingressDropSimulator rng.ingress
        { st with payload := payload }) =
      { egressDropSimulator rng.egress (ingressDropSimulator rng.ingress st) with
        payload := payload } := by
    intro st payload
    unfold ingressDropSimulator egressDropSimulator
    dsimp only
    split <;> split <;> rfl
  intro regs st payload
  unfold firstPass
  have hNumber : debugPacketId regs { st with payload := payload } =
      ((debugPacketId regs st).1, { (debugPacketId regs st).2 with payload := payload }) := rfl
  rw [hNumber]
  dsimp only
  rw [hReceive, hDrops]

namespace Wire

open BitCodec Codec Looped

-- ---------------------------------------------------------------------------
-- Frames
-- ---------------------------------------------------------------------------

/-- A RoCEv2 packet on a link: an IPv4 packet without options that is no fragment. The
opcode says which headers are there. -/
structure RoceFrame where
  ethernet : Ethernet
  ipv4 : Ipv4
  udp : Udp
  bth : IbBth
  opcode : IbOpcode
  reth : Option IbReth
  immediate : Option (BitVec 32)
  payload : List Data
  -- what is left is too short for a slice
  tail : Bits
  tail_short : tail.length < dataH.width
  etherType : ethernet.etherType = ethertypeIpv4
  ihl : ipv4.ihl = 5
  fragOffset : ipv4.fragOffset = 0
  protocol : ipv4.protocol = ipProtocolUdp
  dstPort : udp.dstPort = udpPortRoceV2
  opcode_bits : IbOpcode.ofBits bth.opcode = some opcode
  reth_isSome : reth.isSome = opcode.isFirst
  immediate_isSome : immediate.isSome = carriesImmediate opcode

namespace RoceFrame

variable (f : RoceFrame)

def bits : Bits :=
  ethernetH.encode f.ethernet ++ (ipv4H.encode f.ipv4 ++ (udpH.encode f.udp ++
    (ibBthH.encode f.bth ++ (emit ibRethH f.reth ++ (emit ibImmediateH f.immediate ++
      (payloadBits f.payload ++ f.tail))))))

def headers : HeaderStack where
  ethernet := some f.ethernet
  ipv4 := some f.ipv4
  udp := some f.udp
  ibBth := some f.bth
  ibReth := f.reth
  ibImmediate := f.immediate

/-- The fields that the switch reads. -/
def packet : RocePacket where
  srcAddr := f.ipv4.srcAddr
  dstAddr := f.ipv4.dstAddr
  partitionKey := f.bth.partitionKey
  opcode := f.opcode
  se := f.bth.se
  dstQp := f.bth.dstQp
  psn := f.bth.psn
  reth := f.reth.getD {}
  immediate := f.immediate.getD 0
  payload := f.payload

theorem rocePacket_headers : rocePacket f.headers = some { f.packet with payload := [] } := by
  simp [rocePacket, headers, packet, f.opcode_bits]

end RoceFrame

/-- Bits too few for a header are rejected. -/
theorem decode_short {α : Type} {c : Codec α} {bits : Bits} (h : bits.length < c.width) :
    c.decode bits = none := by
  cases hDecode : c.decode bits with
  | none => rfl
  | some read =>
    have hLength := c.length_decode hDecode
    omega

/-- Of a payload the next slice is read, and what is too short for one is left. -/
theorem decode_payloadBits (payload : List Data) {tail : Bits} (hTail : tail.length < dataH.width) :
    dataH.decode (payloadBits payload ++ tail) =
      payload.head?.map fun d => (d, payloadBits payload.tail ++ tail) := by
  cases payload with
  | nil =>
    rw [payloadBits_nil, List.nil_append]
    exact decode_short hTail
  | cons d slices =>
    rw [payloadBits_cons, List.append_assoc, decode_encode]
    rfl

/-- What the parser makes of the payload of a packet: two slices, or nothing. -/
theorem parseIbPayload_payload {w : IngressState} (payload : List Data) {tail : Bits}
    (hTail : tail.length < dataH.width) (hRest : w.rest = payloadBits payload ++ tail) :
    parseIbPayload w =
      match payload with
      | d0 :: d1 :: slices => some { w with
          pass := { w.pass with d0 := d0, d1 := d1, d0Valid := true, d1Valid := true }
          rest := payloadBits slices ++ tail }
      | _ => none := by
  simp only [parseIbPayload, hRest, decode_payloadBits _ hTail]
  rcases payload with _ | ⟨d0, _ | ⟨d1, slices⟩⟩
  · rfl
  · simp only [List.head?_cons, List.tail_cons, Option.map_some, Option.bind_eq_bind,
      Option.bind_some, decode_payloadBits _ hTail, List.head?_nil, Option.map_none,
      Option.bind_none]
  · simp only [List.head?_cons, List.tail_cons, Option.map_some, Option.bind_eq_bind,
      Option.bind_some, decode_payloadBits _ hTail]

/-- The parser meets the payload of a RoCE packet behind the headers of its opcode. -/
theorem parseIbBth_payload {w : IngressState} {bth : IbBth} {opcode : IbOpcode}
    {reth : Option IbReth} {immediate : Option (BitVec 32)} {bits : Bits}
    (hReth : w.hdr.ibReth = none) (hImmediate : w.hdr.ibImmediate = none)
    (hOpcode : IbOpcode.ofBits bth.opcode = some opcode)
    (hFirst : reth.isSome = opcode.isFirst) (hCarries : immediate.isSome = carriesImmediate opcode)
    (hRest : w.rest = ibBthH.encode bth ++ (emit ibRethH reth ++
      (emit ibImmediateH immediate ++ bits))) :
    parseIbBth w = parseIbPayload { w with
      hdr := { w.hdr with ibBth := some bth, ibReth := reth, ibImmediate := immediate }
      mdValid := true, ethHdrLenFieldHighOrderBits := 0b01
      rdmaMdValid := true, exponentsMdValid := true
      pass := { w.pass with
        md := { packetType := .consume 0, ibSolicited := bth.se }
        rdmaMd := {}, exponents := {} }
      rest := bits } := by
  cases opcode <;> cases reth <;> cases immediate <;>
    first
    | exact Bool.noConfusion hFirst
    | exact Bool.noConfusion hCarries
    | simp [parseIbBth, hRest, hOpcode, parseIbReth, parseIbImmediate, parseIbRethImmediate,
        hReth, hImmediate]

-- ---------------------------------------------------------------------------
-- From fields to bits
-- ---------------------------------------------------------------------------

/-- A RoCE packet inside a pass over bits: the headers that are still valid, and the rest of
the payload where the parser left it. -/
def onWire (hdr : HeaderStack) (tail : Bits) (st : PassState) : IngressState where
  hdr := hdr
  pass := { st with payload := [] }
  mdValid := true
  rdmaMdValid := true
  exponentsMdValid := true
  rest := payloadBits st.payload ++ tail

/-- A RoCE packet between two passes. -/
def packetBits (tail : Bits) (pkt : Packet) : Bits :=
  harvestedRoce ⟨pkt.md, 0b01⟩ pkt.rdmaMd pkt.exponents pkt.payload tail

theorem parseUdp_roce {w : IngressState} {udp : Udp} {bits : Bits}
    (hPort : udp.dstPort = udpPortRoceV2) (hRest : w.rest = udpH.encode udp ++ bits) :
    parseUdp w = parseIbBth { w with hdr := { w.hdr with udp := some udp }, rest := bits } := by
  simp [parseUdp, hRest, hPort]

theorem ingressParser_frame (cfg : SwitchConfig) {port : PortId}
    (hPort : isRecirculationPort port = false) (f : RoceFrame) :
    ingressParser cfg port f.bits =
      (parseRoce cfg port f.packet).map (onWire f.headers f.tail) := by
  calc ingressParser cfg port f.bits
    _ = parseUdp { start cfg port (udpH.encode f.udp ++ (ibBthH.encode f.bth ++
          (emit ibRethH f.reth ++ (emit ibImmediateH f.immediate ++
            (payloadBits f.payload ++ f.tail))))) with
          hdr := { ethernet := some f.ethernet, ipv4 := some f.ipv4 } } :=
      ingressParser_parseUdp cfg f.ethernet f.ipv4 _ hPort f.etherType f.ihl f.fragOffset
        f.protocol
    _ = parseIbBth { start cfg port (ibBthH.encode f.bth ++ (emit ibRethH f.reth ++
          (emit ibImmediateH f.immediate ++ (payloadBits f.payload ++ f.tail)))) with
          hdr := { ethernet := some f.ethernet, ipv4 := some f.ipv4, udp := some f.udp } } :=
      parseUdp_roce f.dstPort rfl
    _ = parseIbPayload { start cfg port (payloadBits f.payload ++ f.tail) with
          hdr := f.headers
          mdValid := true, ethHdrLenFieldHighOrderBits := 0b01
          rdmaMdValid := true, exponentsMdValid := true
          pass := { (start cfg port []).pass with
            md := { packetType := .consume 0, ibSolicited := f.bth.se }
            rdmaMd := {}, exponents := {} } } :=
      parseIbBth_payload rfl rfl f.opcode_bits f.reth_isSome f.immediate_isSome rfl
    _ = (parseRoce cfg port f.packet).map (onWire f.headers f.tail) := by
      rw [parseIbPayload_payload f.payload f.tail_short rfl, parseRoce, hPort,
        show f.packet.payload = f.payload from rfl]
      rcases f.payload with _ | ⟨d0, _ | ⟨d1, slices⟩⟩ <;> rfl

/-- The valid data headers go in front of what was not parsed, whatever the format. -/
theorem flatMap_deparsePayload (encode : Data → Bits) (st : PassState) (tail : Bits) :
    ((if st.d0Valid then encode st.d0 else []) ++ (if st.d1Valid then encode st.d1 else [])) ++
      (st.payload.flatMap encode ++ tail) = (deparsePayload st).flatMap encode ++ tail := by
  cases h0 : st.d0Valid <;> cases h1 : st.d1Valid <;> simp [deparsePayload, h0, h1]

theorem dataHeaders_onWire (hdr : HeaderStack) (tail : Bits) (st : PassState) :
    dataHeaders (onWire hdr tail st).pass ++ (onWire hdr tail st).rest =
      payloadBits (deparsePayload st) ++ tail := by
  rw [onWire, dataHeaders, payloadBits, payloadBits, ← flatMap_deparsePayload]

theorem ingressDeparser_onWire (tail : Bits) (st : PassState) :
    ingressDeparser (onWire {} tail st) = packetBits tail (deparse st) := by
  have hPacket : packetBits tail (deparse st) =
      harvestedRoce ⟨st.md, 0b01⟩ st.rdmaMd st.exponents (deparsePayload st) tail := rfl
  rw [ingressDeparser_framed (w := onWire {} tail st) rfl rfl rfl, dataHeaders_onWire, onWire,
    if_pos rfl, emit_none, List.nil_append, hPacket, harvestedRoce]

theorem ingressParser_packetBits (cfg : SwitchConfig) {port : PortId}
    (hPort : isRecirculationPort port = true) {tail : Bits} (hTail : tail.length < dataH.width)
    {pkt : Packet} (hWorker : pkt.md.workerType = .roceV2) :
    ingressParser cfg port (packetBits tail pkt) =
      (SwitchML.parseRecirculate cfg port pkt).map (onWire {} tail) := by
  have hMetadata := parseMetadata_roce cfg port ⟨pkt.md, 0b01⟩ pkt.rdmaMd pkt.exponents
    (payloadBits pkt.payload ++ tail) hWorker
  rw [ingressParser, if_pos hPort, parseRecirculate, packetBits, harvestedRoce, hMetadata,
    SwitchML.parseRecirculate, if_pos hPort, hWorker]
  simp only [Option.bind_eq_bind, Option.bind_some]
  cases pkt.md.packetType with
  | consume i =>
    -- both states read the data headers alike
    have hConsume : ∀ w, parseConsume w = parseIbPayload w := fun _ => rfl
    simp only [hConsume]
    rw [parseIbPayload_payload pkt.payload hTail rfl]
    rcases pkt.payload with _ | ⟨d0, _ | ⟨d1, slices⟩⟩ <;> rfl
  | _ => rfl

-- ---------------------------------------------------------------------------
-- One pass
-- ---------------------------------------------------------------------------

/-- The receive stage does not look at the payload. -/
theorem rdmaReceiver_packet (workers : List ReceiveEntry) (rp : RocePacket) (payload : List Data)
    (regs : Registers) (st : PassState) :
    SwitchML.rdmaReceiver workers { rp with payload := payload } regs st =
      SwitchML.rdmaReceiver workers rp regs st := by
  have hKey : receiveKey { rp with payload := payload } = receiveKey rp := rfl
  unfold SwitchML.rdmaReceiver
  rw [hKey]
  cases lookup .forward (receiveKey rp) (receiveRoceEntries workers) <;> rfl

/-- The headers that the receive stage leaves of a frame. -/
def RoceFrame.kept (cfg : SwitchConfig) (f : RoceFrame) : HeaderStack :=
  keptHeaders f.headers (receiveRoceAction cfg.workers f.headers)

theorem firstPass_onWire (cfg : WireConfig) (rng : Rng) (regs : Registers) (f : RoceFrame)
    (st : PassState) :
    firstPass cfg rng regs (onWire f.headers f.tail st) =
      ((SwitchML.firstPass cfg.toSwitchConfig rng f.packet regs st).1,
        onWire (f.kept cfg.toSwitchConfig) f.tail
          (SwitchML.firstPass cfg.toSwitchConfig rng f.packet regs st).2) := by
  have hPayload := leavesPayload_firstPass cfg.toSwitchConfig rng f.packet regs st []
  have hKeeps := (leavesPayload_firstPass cfg.toSwitchConfig rng f.packet).payload regs st
  have hPass : firstPass cfg rng regs (onWire f.headers f.tail st) =
      ((SwitchML.firstPass cfg.toSwitchConfig rng f.packet regs { st with payload := [] }).1,
        { onWire (f.kept cfg.toSwitchConfig) f.tail st with
          pass := (SwitchML.firstPass cfg.toSwitchConfig rng f.packet regs
            { st with payload := [] }).2 }) := by
    have hBth : (onWire f.headers f.tail st).hdr.ibBth.isSome = true := rfl
    have hRead : rocePacket (onWire f.headers f.tail st).hdr = _ := f.rocePacket_headers
    unfold firstPass
    simp only [hBth, if_true, rdmaReceiver, hRead, rdmaReceiver_packet]
    rfl
  rw [hPass, hPayload]
  unfold onWire
  rw [hKeeps]

theorem dropSimulators_eq (rng : Rng) (st : PassState) : ∃ p q drop,
    egressDropSimulator rng.egress (ingressDropSimulator rng.ingress st) =
      { st with
        ingressDropProbability := p, egressDropProbability := q
        md := { st.md with ingressPort := st.ingressPort, simulateEgressDrop := drop } } := by
  obtain ⟨p, hIngress⟩ := ingressDropSimulator_eq rng.ingress st
  obtain ⟨q, drop, hEgress⟩ :=
    egressDropSimulator_eq rng.egress { st with ingressDropProbability := p }
  exact ⟨p, q, drop, by rw [hIngress, hEgress]⟩

/-- No control has said yet where the packet goes. -/
structure Unrouted (st : PassState) : Prop where
  ucastEgressPort : st.ucastEgressPort = none
  mcastGrpA : st.mcastGrpA = none

/-- What the receive stage makes of a frame: it is not SwitchML's and otherwise as it was, or
it is ready for the first pass, without its headers. -/
theorem firstPass_sorts (cfg : WireConfig) (rng : Rng) (regs : Registers) (f : RoceFrame)
    {st : PassState} (hType : st.md.packetType = .consume 0) (hUnrouted : Unrouted st) :
    let st' := (SwitchML.firstPass cfg.toSwitchConfig rng f.packet regs st).2
    Unrouted st' ∧
      (st'.md.packetType = .ignore ∧ st'.dropCtl = st.dropCtl ∧
          st'.bypassEgress = st.bypassEgress ∨
        f.kept cfg.toSwitchConfig = {} ∧ st'.md.packetType = .consume 0 ∧
          st'.md.workerType = .roceV2 ∧ st'.ingressPort = st.ingressPort) := by
  intro st'
  have hKept : f.kept cfg.toSwitchConfig = keptHeaders f.headers
      (lookup .forward (receiveKey f.packet) (receiveRoceEntries cfg.workers)) := by
    rw [RoceFrame.kept, receiveRoceAction, f.rocePacket_headers]
    rfl
  have hImmediate : f.immediate.isSome → carriesImmediate f.packet.opcode = true := by
    rw [f.immediate_isSome]
    exact id
  obtain ⟨p, q, drop, hDrops⟩ := dropSimulators_eq rng
    (SwitchML.rdmaReceiver cfg.workers f.packet (debugPacketId regs st).1
      (debugPacketId regs st).2).2
  have hSt' : st' = _ := hDrops
  rcases lookup_receiveRoce_cases cfg.workers f.packet with hAct | ⟨hWrite, e, he, hAct⟩
  · rw [hSt', SwitchML.rdmaReceiver, hAct]
    exact ⟨⟨hUnrouted.ucastEgressPort, hUnrouted.mcastGrpA⟩, .inl ⟨rfl, rfl, rfl⟩⟩
  · have hNone : f.kept cfg.toSwitchConfig = {} := by
      rw [hKept, hAct]
      exact keptHeaders_receiveAction e.args hWrite hImmediate
    rw [hSt', SwitchML.rdmaReceiver, hAct, receiveAction_run _ _ _ hWrite, receiveFields_eq]
    exact ⟨⟨hUnrouted.ucastEgressPort, hUnrouted.mcastGrpA⟩,
      .inr ⟨hNone, hType, cfg.workers_type e he, rfl⟩⟩

/-- From the slot on, a pass over bits is the pass over fields. -/
theorem sharedPass_onWire (cfg : WireConfig) (regs : Registers) (tail : Bits) {st : PassState}
    (hCode : PacketType.code (.consume 0) ≤ st.md.packetType.code) :
    sharedPass cfg regs (onWire {} tail st) =
      ((switchmlPass cfg.toSwitchConfig regs st).1,
        onWire {} tail (switchmlPass cfg.toSwitchConfig regs st).2) := by
  have hPayload := leavesPayload_switchmlPass cfg.toSwitchConfig regs st []
  have hKeeps := (leavesPayload_switchmlPass cfg.toSwitchConfig).payload regs st
  have hPass : sharedPass cfg regs (onWire {} tail st) =
      ((switchmlPass cfg.toSwitchConfig regs { st with payload := [] }).1,
        { onWire {} tail st with
          pass := (switchmlPass cfg.toSwitchConfig regs { st with payload := [] }).2 }) := by
    have hCheck := checkSlot_keeps regs { st with payload := [] }
    have hWire : (onWire {} tail st).pass = { st with payload := [] } := rfl
    unfold sharedPass switchmlPass
    rw [hWire]
    generalize checkSlot regs { st with payload := [] } = r at hCheck ⊢
    obtain ⟨regs', st'⟩ := r
    dsimp only at hCheck ⊢
    by_cases hDrop : st'.dropCtl = true
    · rw [if_pos hDrop, if_pos hDrop]
    · have hCode' : PacketType.code (.consume 0) ≤ st'.md.packetType.code := by
        rw [(hCheck.resolve_left hDrop).1]
        exact hCode
      rw [if_neg hDrop, if_neg hDrop, if_pos hCode', if_pos hCode']
      rfl
  rw [hPass, hPayload]
  unfold onWire
  rw [hKeeps]

-- ---------------------------------------------------------------------------
-- The two machines
-- ---------------------------------------------------------------------------

/-- A pass in the pipe of a port. -/
def inPipe {α : Type*} (port : PortId) (pass : Registers → Registers × α)
    (regs : Fin 4 → Registers) : (Fin 4 → Registers) × α :=
  let (r, a) := pass (regs (pipeOf port))
  (Function.update regs (pipeOf port) r, a)

/-- Where a packet of fields goes; what is behind its payload goes with it. -/
def fieldExit (tail : Bits) : Emission → Exit (PortId × Packet × Bits) (Emission × Bits)
  | .dropped => .gone
  | .recirculated port pkt => .back (port, pkt, tail)
  | out => .out (out, tail)

/-- The switch over fields. -/
def fieldMachine (cfg : SwitchConfig) : Machine Rng (Fin 4 → Registers)
    (PortId × RocePacket × Bits) (PortId × Packet × Bits) (Emission × Bits) where
  first rng a := inPipe a.1 fun regs =>
    let (regs, out) := receiveRoce cfg rng a.1 a.2.1 regs
    (regs, fieldExit a.2.2 out)
  again _ p := inPipe p.1 fun regs =>
    let (regs, out) := recirculate cfg p.1 p.2.1 regs
    (regs, fieldExit p.2.2 out)

/-- Where the traffic manager puts a packet. -/
def wireExit : Option IngressState → Exit (PortId × Bits) Output
  | none => .gone
  | some w =>
    match w.loopback, w.output with
    | some port, _ => .back (port, ingressDeparser w)
    | none, some o => .out o
    | none, none => .gone

/-- The switch over bits. -/
def wireMachine (cfg : WireConfig) : Machine Rng (Fin 4 → Registers) (PortId × Bits)
    (PortId × Bits) Output where
  first rng a := inPipe a.1 fun regs =>
    let (regs, w) := ingressPass cfg rng a.1 a.2 regs
    (regs, wireExit w)
  again rng p := inPipe p.1 fun regs =>
    let (regs, w) := ingressPass cfg rng p.1 p.2 regs
    (regs, wireExit w)

-- ---------------------------------------------------------------------------
-- Simulation
-- ---------------------------------------------------------------------------

/-- A frame that comes from outside. -/
structure Arrival where
  port : PortId
  frame : RoceFrame
  front : isRecirculationPort port = false

def Arrival.fields (a : Arrival) : PortId × RocePacket × Bits :=
  (a.port, a.frame.packet, a.frame.tail)

def Arrival.wire (a : Arrival) : PortId × Bits := (a.port, a.frame.bits)

/-- A RoCE packet on its route, in fields and in bits. -/
structure OnLoop (p : PortId × Packet × Bits) (p' : PortId × Bits) : Prop where
  wire : p' = (p.1, packetBits p.2.2 p.2.1)
  tail_short : p.2.2.length < dataH.width
  workerType : p.2.1.md.workerType = .roceV2
  code : PacketType.code (.consume 0) ≤ p.2.1.md.packetType.code
  isRecirculationPort : isRecirculationPort p.1 = true
  onRoute : OnRoute p.1 p.2.1.md.packetType

/-- A reply, in fields and in bits, on its way to egress. Packets that are not SwitchML's are
not followed further. -/
def Leaves : Emission × Bits → Output → Prop
  | (.multicast group pkt, tail), o =>
    o = { mcast := some (group, nullLevel1ExclusionId), bypassEgress := false
          bits := packetBits tail pkt }
  | (.unicast port pkt, tail), o =>
    o = { ucastEgressPort := some port, bypassEgress := false, bits := packetBits tail pkt }
  | _, _ => True

/-- The next hop is one of the passes of SwitchML packets. -/
theorem nextHop_code {alternate : Option PortId} {port port' : PortId} {id : WorkerId}
    {ty ty' : PacketType} (h : nextHop alternate port id ty = some (ty', port')) :
    PacketType.code (.consume 0) ≤ ty'.code := by
  have hSome : ∀ {ty₀ : PacketType} {port₀ : PortId}, some (ty₀, port₀) = some (ty', port') →
      PacketType.code (.consume 0) ≤ ty₀.code → PacketType.code (.consume 0) ≤ ty'.code := by
    intro ty₀ port₀ hEq hCode
    rw [← (Prod.mk.inj (Option.some.inj hEq)).1]
    exact hCode
  unfold nextHop at h
  split at h <;> first | exact hSome h (by decide) | cases h

/-- Where `next_step` sends a packet. -/
inductive Routed (st : PassState) : Prop
  | dropped (hDrop : st.dropCtl = true)
  | back (port : PortId) (hDrop : st.dropCtl = false) (hBypass : st.bypassEgress = true)
      (hUcast : st.ucastEgressPort = some port) (hMcast : st.mcastGrpA = none)
  | multicast (group : MulticastGroupId) (hDrop : st.dropCtl = false)
      (hBypass : st.bypassEgress = false) (hUcast : st.ucastEgressPort = none)
      (hMcast : st.mcastGrpA = some group)
      (hExclusion : st.level1ExclusionId = nullLevel1ExclusionId)
  | unicast (port : PortId) (hDrop : st.dropCtl = false) (hBypass : st.bypassEgress = false)
      (hUcast : st.ucastEgressPort = some port) (hMcast : st.mcastGrpA = none)

theorem nextStep_routed (alternate : Option PortId) {st : PassState} (h : Unrouted st) :
    Routed (nextStep alternate st) := by
  unfold nextStep
  cases lookup .drop (nextStepKey alternate st) nextStepEntries with
  | drop | finishConsume => exact .dropped rfl
  | broadcastUdp | broadcastRoce => exact .multicast _ rfl rfl h.ucastEgressPort rfl rfl
  | retransmitUdp | retransmitRoce => exact .unicast _ rfl rfl rfl h.mcastGrpA
  | _ => exact .back _ rfl rfl rfl h.mcastGrpA

theorem checkSlot_unrouted {regs : Registers} {st : PassState} (h : Unrouted st) :
    Unrouted (checkSlot regs st).2 := by
  have hUpdate : Unrouted (updateAndCheckWorkerBitmap regs st).2 := by
    unfold updateAndCheckWorkerBitmap
    dsimp only
    split <;> exact ⟨h.ucastEgressPort, h.mcastGrpA⟩
  unfold checkSlot
  split
  · unfold countWorkers
    dsimp only
    split <;> exact ⟨hUpdate.ucastEgressPort, hUpdate.mcastGrpA⟩
  · exact h

theorem processSlot_routed (cfg : SwitchConfig) (regs : Registers) {st : PassState}
    (h : Unrouted st) : Routed (processSlot cfg regs st).2 := by
  obtain ⟨r, hr⟩ : ∃ r, (if st.md.lastPacketOfMessage then exponentMax regs st
      else (regs, st)) = r := ⟨_, rfl⟩
  have hExponents : Unrouted r.2 := by
    rw [← hr]
    split
    · unfold exponentMax
      dsimp only
      split <;> exact ⟨h.ucastEgressPort, h.mcastGrpA⟩
    · exact h
  have hProcess : processSlot cfg regs st =
      finishPass cfg (significandSums r.1 r.2).1 (significandSums r.1 r.2).2 := by
    rw [← hr]
    rfl
  have hSums : Unrouted (significandSums r.1 r.2).2 :=
    ⟨hExponents.ucastEgressPort, hExponents.mcastGrpA⟩
  rw [hProcess, finishPass_state]
  -- the sequence number does not matter
  cases nextStep_routed cfg.alternateRecircPort hSums with
  | dropped hDrop => exact .dropped hDrop
  | back port hDrop hBypass hUcast hMcast => exact .back port hDrop hBypass hUcast hMcast
  | multicast group hDrop hBypass hUcast hMcast hExclusion =>
    exact .multicast group hDrop hBypass hUcast hMcast hExclusion
  | unicast port hDrop hBypass hUcast hMcast => exact .unicast port hDrop hBypass hUcast hMcast

section SlotPass

variable {cfg : SwitchConfig} {regs : Registers} {st : PassState}
  (hCode : PacketType.code (.consume 0) ≤ st.md.packetType.code)

include hCode

/-- A pass of a SwitchML packet ends in the bitmap or goes through the slot. -/
theorem switchmlPass_cases (cfg : SwitchConfig) (regs : Registers) :
    (switchmlPass cfg regs st).2.dropCtl = true ∨
    (checkSlot regs st).2.dropCtl = false ∧ (checkSlot regs st).2.md = st.md ∧
      switchmlPass cfg regs st = processSlot cfg (checkSlot regs st).1 (checkSlot regs st).2 := by
  have hCheck := checkSlot_keeps regs st
  unfold switchmlPass
  generalize checkSlot regs st = r at hCheck ⊢
  obtain ⟨regs', st'⟩ := r
  dsimp only at hCheck ⊢
  by_cases hDrop : st'.dropCtl = true
  · rw [if_pos hDrop]
    exact .inl hDrop
  · have hMd := (hCheck.resolve_left hDrop).1
    rw [if_neg hDrop, if_pos (by rw [hMd]; exact hCode)]
    exact .inr ⟨Bool.eq_false_iff.mpr hDrop, hMd, rfl⟩

theorem switchmlPass_routed (h : Unrouted st) : Routed (switchmlPass cfg regs st).2 := by
  rcases switchmlPass_cases hCode cfg regs with hDrop | ⟨-, -, hPass⟩
  · exact .dropped hDrop
  · rw [hPass]
    exact processSlot_routed cfg _ (checkSlot_unrouted h)

/-- What comes back is a SwitchML packet again. -/
theorem switchmlPass_back_code {port : PortId}
    (hDrop : (switchmlPass cfg regs st).2.dropCtl = false)
    (hBypass : (switchmlPass cfg regs st).2.bypassEgress = true)
    (hUcast : (switchmlPass cfg regs st).2.ucastEgressPort = some port) :
    PacketType.code (.consume 0) ≤ (switchmlPass cfg regs st).2.md.packetType.code := by
  rcases switchmlPass_cases hCode cfg regs with hDrop' | ⟨-, -, hPass⟩
  · exact absurd hDrop' (by simp [hDrop])
  · obtain ⟨regs', st', hProcess, -, -⟩ :=
      processSlot_keeps (checkSlot regs st).1 (checkSlot regs st).2 cfg
    rw [hPass, hProcess, finishPass_state] at hDrop hBypass hUcast ⊢
    rcases nextStep_recirculates hDrop hBypass hUcast with ⟨-, hHop⟩ | ⟨-, hHop⟩
    · obtain ⟨hType, -⟩ := Prod.mk.inj hHop
      exact hType ▸ by decide
    · exact nextHop_code hHop

end SlotPass

/-- Where the packet goes is the same in fields and in bits. -/
theorem exit_rel {tail : Bits} {st : PassState} (hRouted : Routed st)
    (hBack : ∀ port, st.dropCtl = false → st.bypassEgress = true →
      st.ucastEgressPort = some port → isRecirculationPort port = true ∧
        OnLoop (port, deparse st, tail) (port, packetBits tail (deparse st))) :
    Exit.Rel OnLoop Leaves (fieldExit tail (emission st))
      (wireExit (some (onWire {} tail st))) := by
  have hBits := ingressDeparser_onWire tail st
  cases hRouted with
  | dropped hDrop =>
    have hEmission : emission st = .dropped := by simp [emission, hDrop]
    have hLoopback : (onWire {} tail st).loopback = none := by
      simp [IngressState.loopback, onWire, hDrop]
    have hOutput : (onWire {} tail st).output = none := by
      simp [IngressState.output, onWire, hDrop]
    simp only [hEmission, fieldExit, wireExit, hLoopback, hOutput]
    exact .gone
  | back port hDrop hBypass hUcast hMcast =>
    obtain ⟨hPort, hLoop⟩ := hBack port hDrop hBypass hUcast
    have hEmission : emission st = .recirculated port (deparse st) := by
      simp [emission, hDrop, hBypass, hUcast, hMcast]
    have hLoopback : (onWire {} tail st).loopback = some port := by
      simp [IngressState.loopback, onWire, hDrop, hBypass, hUcast, hMcast, Option.filter, hPort]
    simp only [hEmission, fieldExit, wireExit, hLoopback, hBits]
    exact .back hLoop
  | multicast group hDrop hBypass hUcast hMcast hExclusion =>
    have hEmission : emission st = .multicast group (deparse st) := by
      simp [emission, hDrop, hMcast]
    have hLoopback : (onWire {} tail st).loopback = none := by
      simp [IngressState.loopback, onWire, hBypass]
    have hOutput : (onWire {} tail st).output = some
        { mcast := some (group, nullLevel1ExclusionId), bypassEgress := false
          bits := packetBits tail (deparse st) } := by
      rw [IngressState.output, hBits]
      simp [onWire, hDrop, hBypass, hUcast, hMcast, hExclusion]
    simp only [hEmission, fieldExit, wireExit, hLoopback, hOutput]
    exact .out rfl
  | unicast port hDrop hBypass hUcast hMcast =>
    have hEmission : emission st = .unicast port (deparse st) := by
      simp [emission, hDrop, hBypass, hUcast, hMcast]
    have hLoopback : (onWire {} tail st).loopback = none := by
      simp [IngressState.loopback, onWire, hBypass]
    have hOutput : (onWire {} tail st).output = some
        { ucastEgressPort := some port, bypassEgress := false
          bits := packetBits tail (deparse st) } := by
      rw [IngressState.output, hBits]
      simp [onWire, hDrop, hBypass, hUcast, hMcast]
    simp only [hEmission, fieldExit, wireExit, hLoopback, hOutput]
    exact .out rfl

/-- A packet on its route, ready to meet the slot. -/
structure Ready (tail : Bits) (st : PassState) : Prop where
  tail_short : tail.length < dataH.width
  code : PacketType.code (.consume 0) ≤ st.md.packetType.code
  workerType : st.md.workerType = .roceV2
  onRoute : OnRoute st.ingressPort st.md.packetType
  unrouted : Unrouted st

/-- The outcome of a pass: the registers, and where the packet goes. -/
theorem Ready.pass {tail : Bits} {st : PassState} (h : Ready tail st) (cfg : WireConfig)
    (regs : Registers) :
    (sharedPass cfg regs (onWire {} tail st)).1 = (switchmlPass cfg.toSwitchConfig regs st).1 ∧
      Exit.Rel OnLoop Leaves
        (fieldExit tail (emission (switchmlPass cfg.toSwitchConfig regs st).2))
        (wireExit (some (sharedPass cfg regs (onWire {} tail st)).2)) := by
  have hPass := sharedPass_onWire cfg regs tail h.code
  refine ⟨by rw [hPass], ?_⟩
  rw [hPass]
  refine exit_rel (switchmlPass_routed h.code h.unrouted) fun port hDrop hBypass hUcast => ?_
  have hCode := switchmlPass_back_code h.code hDrop hBypass hUcast
  have hSent : (sharedPass cfg regs (onWire {} tail st)).2.Recirculates port := by
    rw [hPass]
    exact ⟨hDrop, hBypass, hUcast, hCode⟩
  have hDeparts := sharedPass_departs (w := onWire {} tail st) rfl h.onRoute hSent
  rw [hPass] at hDeparts
  exact ⟨hDeparts.isRecirculationPort, rfl, h.tail_short,
    hDeparts.workerType.trans h.workerType, hCode, hDeparts.isRecirculationPort,
    hDeparts.onRoute⟩

/-- The `forward` table sends packets out of the front panel only. -/
def WireConfig.ForwardsOut (cfg : WireConfig) : Prop :=
  ∀ mac port, cfg.forward mac = some (.setEgressPort port) → isRecirculationPort port = false

/-- A packet that is not SwitchML's leaves. -/
theorem forwardPass_out {cfg : WireConfig} (hForward : cfg.ForwardsOut) {w : IngressState}
    (hDrop : w.pass.dropCtl = false) (hBypass : w.pass.bypassEgress = false) :
    ∃ o, wireExit (some (forwardPass cfg w)) = .out o := by
  have hArp : ((cfg.arpAndIcmpAction w).run w).pass.dropCtl = false ∧
      ((cfg.arpAndIcmpAction w).run w).pass.bypassEgress = false := by
    cases cfg.arpAndIcmpAction w <;> exact ⟨hDrop, hBypass⟩
  unfold forwardPass
  dsimp only
  generalize (cfg.arpAndIcmpAction w).run w = w' at hArp ⊢
  have hOut : ∀ w'' : IngressState, w''.loopback = none → w''.pass.dropCtl = false →
      ∃ o, wireExit (some w'') = .out o := by
    intro w'' hLoopback hDrop''
    simp only [wireExit, hLoopback, IngressState.output, hDrop'']
    exact ⟨_, rfl⟩
  cases hAct : cfg.forwardAction w' with
  | none => exact hOut w' (by simp [IngressState.loopback, hArp.2]) hArp.1
  | some act =>
    cases act with
    | setEgressPort port =>
      have hFront := hForward _ port hAct
      exact hOut _ (by simp [IngressState.loopback, ForwardAction.run, Option.filter, hFront]) rfl
    | flood group => exact hOut _ (by simp [IngressState.loopback, ForwardAction.run]) rfl

section Ignored

variable (cfg : WireConfig) (regs : Registers) {st : PassState}
  (hType : st.md.packetType = .ignore) (hDrop : st.dropCtl = false)

include hType hDrop

theorem switchmlPass_ignore (cfg : SwitchConfig) : switchmlPass cfg regs st = (regs, st) := by
  have hCheck : checkSlot regs st = (regs, st) := by simp [checkSlot, hType]
  simp [switchmlPass, hCheck, hDrop, hType, PacketType.code]

theorem sharedPass_onWire_ignore (hdr : HeaderStack) (tail : Bits) :
    sharedPass cfg regs (onWire hdr tail st) = (regs, forwardPass cfg (onWire hdr tail st)) := by
  have hCheck : checkSlot regs (onWire hdr tail st).pass = (regs, (onWire hdr tail st).pass) := by
    simp [checkSlot, onWire, hType]
  have hDrop' : (onWire hdr tail st).pass.dropCtl = false := hDrop
  have hCode : ¬ PacketType.code (.consume 0) ≤
      (onWire hdr tail st).pass.md.packetType.code := by
    rw [show (onWire hdr tail st).pass.md.packetType = .ignore from hType]
    decide
  unfold sharedPass
  rw [hCheck]
  dsimp only
  rw [hDrop', if_neg Bool.false_ne_true, if_neg hCode]

end Ignored

theorem parseRoce_eq_some {cfg : SwitchConfig} {port : PortId} {rp : RocePacket}
    {st : PassState} (h : parseRoce cfg port rp = some st) :
    st.md.packetType = .consume 0 ∧ st.ingressPort = port ∧ st.dropCtl = false ∧
      st.bypassEgress = false ∧ Unrouted st := by
  unfold parseRoce at h
  split at h
  · cases h
  · split at h
    · obtain rfl := Option.some.inj h
      exact ⟨rfl, rfl, rfl, rfl, rfl, rfl⟩
    · cases h

/-- The first pass of a frame. -/
theorem receive_rel {cfg : WireConfig} (hForward : cfg.ForwardsOut) (a : Arrival) (rng : Rng)
    (regs : Registers) :
    (ingressPass cfg rng a.port a.frame.bits regs).1 =
        (receiveRoce cfg.toSwitchConfig rng a.port a.frame.packet regs).1 ∧
      Exit.Rel OnLoop Leaves
        (fieldExit a.frame.tail
          (receiveRoce cfg.toSwitchConfig rng a.port a.frame.packet regs).2)
        (wireExit (ingressPass cfg rng a.port a.frame.bits regs).2) := by
  have hParser := ingressParser_frame cfg.toSwitchConfig a.front a.frame
  unfold ingressPass receiveRoce
  rw [hParser]
  cases hParse : parseRoce cfg.toSwitchConfig a.port a.frame.packet with
  | none => exact ⟨rfl, .gone⟩
  | some st =>
    obtain ⟨hType, hPort, hDrop, hBypass, hUnrouted⟩ := parseRoce_eq_some hParse
    dsimp only [Option.map_some]
    have hFirst : ingressApply cfg rng regs (onWire a.frame.headers a.frame.tail st) =
        sharedPass cfg (firstPass cfg rng regs (onWire a.frame.headers a.frame.tail st)).1
          (firstPass cfg rng regs (onWire a.frame.headers a.frame.tail st)).2 := by
      rw [ingressApply, if_pos (show (onWire a.frame.headers a.frame.tail st).pass.md.packetType =
        .consume 0 from hType)]
    rw [hFirst, firstPass_onWire]
    have hSorts := firstPass_sorts cfg rng regs a.frame hType hUnrouted
    generalize SwitchML.firstPass cfg.toSwitchConfig rng a.frame.packet regs st = r at hSorts ⊢
    obtain ⟨regs', st'⟩ := r
    dsimp only at hSorts ⊢
    obtain ⟨hUnrouted', ⟨hIgnore, hDrop', hBypass'⟩ | ⟨hKept, hType', hWorker, hPort'⟩⟩ := hSorts
    · have hField := switchmlPass_ignore regs' hIgnore (hDrop'.trans hDrop) cfg.toSwitchConfig
      have hWire := sharedPass_onWire_ignore cfg regs' hIgnore (hDrop'.trans hDrop)
        (a.frame.kept cfg.toSwitchConfig) a.frame.tail
      obtain ⟨o, hOut⟩ := forwardPass_out hForward
        (w := onWire (a.frame.kept cfg.toSwitchConfig) a.frame.tail st')
        (hDrop'.trans hDrop) (hBypass'.trans hBypass)
      have hEmission : emission st' = .forwarded := by
        simp [emission, hDrop', hDrop, hUnrouted'.mcastGrpA, hUnrouted'.ucastEgressPort]
      rw [hField, hWire]
      dsimp only
      rw [hOut, hEmission]
      exact ⟨rfl, .out trivial⟩
    · rw [hKept]
      exact Ready.pass
        { tail_short := a.frame.tail_short
          code := by rw [hType']
          workerType := hWorker
          onRoute := by
            rw [hType', hPort', hPort]
            exact a.front
          unrouted := hUnrouted' } cfg regs'

theorem reconstructWorkerBitmap_onWire (hdr : HeaderStack) (tail : Bits) (st : PassState) :
    { onWire hdr tail st with pass := reconstructWorkerBitmap (onWire hdr tail st).pass } =
      onWire hdr tail (reconstructWorkerBitmap st) := by
  rw [reconstructWorkerBitmap_fields, reconstructWorkerBitmap_fields]
  rfl

theorem parseRecirculate_eq_some {cfg : SwitchConfig} {port : PortId} {pkt : Packet}
    {st : PassState} (h : SwitchML.parseRecirculate cfg port pkt = some st) :
    st.md = pkt.md ∧ st.ingressPort = port ∧ Unrouted st := by
  unfold SwitchML.parseRecirculate at h
  dsimp only at h
  split at h
  · split at h
    · cases h
    · obtain rfl := Option.some.inj h
      exact ⟨rfl, rfl, rfl, rfl⟩
    · cases h
    · obtain rfl := Option.some.inj h
      exact ⟨rfl, rfl, rfl, rfl⟩
  · cases h

/-- A later pass. -/
theorem recirculate_rel {cfg : WireConfig} {p : PortId × Packet × Bits} {p' : PortId × Bits}
    (h : OnLoop p p') (rng : Rng) (regs : Registers) :
    (ingressPass cfg rng p'.1 p'.2 regs).1 =
        (recirculate cfg.toSwitchConfig p.1 p.2.1 regs).1 ∧
      Exit.Rel OnLoop Leaves
        (fieldExit p.2.2 (recirculate cfg.toSwitchConfig p.1 p.2.1 regs).2)
        (wireExit (ingressPass cfg rng p'.1 p'.2 regs).2) := by
  obtain ⟨port, pkt, tail⟩ := p
  obtain ⟨rfl, hTail, hWorker, hCode, hPort, hRoute⟩ := h
  have hParser := ingressParser_packetBits cfg.toSwitchConfig hPort hTail hWorker
  dsimp only at hTail hWorker hCode hPort hRoute ⊢
  unfold ingressPass recirculate
  rw [hParser]
  cases hParse : SwitchML.parseRecirculate cfg.toSwitchConfig port pkt with
  | none => exact ⟨rfl, .gone⟩
  | some st =>
    obtain ⟨hMd, hIngress, hUnrouted⟩ := parseRecirculate_eq_some hParse
    have hReady : Ready tail st :=
      { tail_short := hTail
        code := by rw [hMd]; exact hCode
        workerType := by rw [hMd]; exact hWorker
        onRoute := by rw [hMd, hIngress]; exact hRoute
        unrouted := hUnrouted }
    have hLater : st.md.packetType ≠ .consume 0 := by
      intro hFirst
      rw [← hMd, hFirst] at hRoute
      exact absurd hPort (by rw [show isRecirculationPort port = false from hRoute]; simp)
    have hLater' : (onWire {} tail st).pass.md.packetType ≠ .consume 0 := hLater
    dsimp only [Option.map_some]
    rw [ingressApply, if_neg hLater', if_neg hLater]
    by_cases hCode' : PacketType.code (.consume 1) ≤ st.md.packetType.code
    · have hMd' := reconstructWorkerBitmap_md st
      rw [if_pos (show PacketType.code (.consume 1) ≤
        (onWire {} tail st).pass.md.packetType.code from hCode'), if_pos hCode',
        reconstructWorkerBitmap_onWire]
      exact Ready.pass
        { tail_short := hTail
          code := by rw [hMd']; exact hReady.code
          workerType := by rw [hMd']; exact hReady.workerType
          onRoute := by
            rw [hMd', reconstructWorkerBitmap_ingressPort]
            exact hReady.onRoute
          unrouted := by
            rw [reconstructWorkerBitmap_fields]
            exact ⟨hUnrouted.ucastEgressPort, hUnrouted.mcastGrpA⟩ } cfg regs
    · rw [if_neg (show ¬ PacketType.code (.consume 1) ≤
        (onWire {} tail st).pass.md.packetType.code from hCode'), if_neg hCode']
      exact hReady.pass cfg regs

theorem inPipe_rel {P P' O O' : Type*} {onLoop : P → P' → Prop} {outside : O → O' → Prop}
    {port : PortId} {pass : Registers → Registers × Exit P O}
    {pass' : Registers → Registers × Exit P' O'} {regs : Fin 4 → Registers}
    (h : (pass' (regs (pipeOf port))).1 = (pass (regs (pipeOf port))).1 ∧
      Exit.Rel onLoop outside (pass (regs (pipeOf port))).2 (pass' (regs (pipeOf port))).2) :
    (inPipe port pass' regs).1 = (inPipe port pass regs).1 ∧
      Exit.Rel onLoop outside (inPipe port pass regs).2 (inPipe port pass' regs).2 :=
  ⟨congrArg (Function.update regs (pipeOf port)) h.1, h.2⟩

/-- **One pass.** The passes over bits simulate the passes over fields. -/
theorem wire_simulates_fields {cfg : WireConfig} (hForward : cfg.ForwardsOut) :
    Simulates (fun x x' => ∃ a : Arrival, x = a.fields ∧ x' = a.wire) OnLoop Leaves
      (fieldMachine cfg.toSwitchConfig) (wireMachine cfg) where
  first := by
    rintro _ _ ⟨a, rfl, rfl⟩ rng regs
    exact inPipe_rel (receive_rel hForward a rng _)
  again := by
    rintro ⟨port, pkt, tail⟩ p' h rng regs
    obtain rfl : p' = (port, packetBits tail pkt) := h.wire
    exact inPipe_rel (recirculate_rel h rng _)

/-- **The switch on the wire is the switch over fields.** Whatever RoCE frames with the opcodes
of unreliable connections (`IbOpcode`) arrive, at whatever ports of the front panel, and in
whatever order packets come back from the recirculation ports, if the table of other traffic
names no recirculation port (`ForwardsOut`): after the same steps from the same registers, the
registers are the same, the packets on the recirculation ports are the bits of the packets over
fields, in the same order, and so are the replies on their way to egress. -/
theorem wire_refines_fields (cfg : WireConfig) (hForward : cfg.ForwardsOut)
    (regs : Fin 4 → Registers) (inputs : List (Input Rng Arrival)) :
    let fields := (fieldMachine cfg.toSwitchConfig).run { memory := regs }
      (inputs.map (Input.map Arrival.fields))
    let wire := (wireMachine cfg).run { memory := regs } (inputs.map (Input.map Arrival.wire))
    wire.memory = fields.memory ∧
      wire.loops = fields.loops.map (fun p => (p.1, packetBits p.2.2 p.2.1)) ∧
      List.Forall₂ Leaves fields.outs wire.outs := by
  intro fields wire
  have hRel : State.Rel OnLoop Leaves fields wire :=
    (wire_simulates_fields hForward).run ⟨rfl, .nil, .nil⟩
      (Input.forall₂_map (fun a => ⟨a, rfl, rfl⟩) inputs)
  have hLoops : List.Forall₂ Eq (fields.loops.map fun p => (p.1, packetBits p.2.2 p.2.1))
      wire.loops :=
    List.forall₂_map_left_iff.mpr (hRel.loops.imp fun _ _ h => h.wire.symm)
  rw [List.forall₂_eq_eq_eq] at hLoops
  exact ⟨hRel.memory, hLoops.symm, hRel.outs⟩

/-- The entry of a job of one worker with 256-byte packets. -/
def soleRoceEntry : ReceiveEntry where
  workerIp := 0xc0a8010a
  switchIp := 0xc0a80106
  switchPartitionKey := 0xffff
  workerRid := 0
  args :=
    { mgid := 1, workerType := .roceV2, workerId := 0, numWorkers := 1, workerBitmap := 1
      packetSize := .mtu256 }

theorem soleRoceEntry_type : ∀ e ∈ [soleRoceEntry], e.args.workerType = .roceV2 := by
  simp [soleRoceEntry]

/-- A switch with one RoCE worker. -/
def WireConfig.oneRoceWorker : WireConfig where
  workers := [soleRoceEntry]
  workers_type := soleRoceEntry_type
  udpWorkers_type := noUdpWorkers_type
  alternate_pipe := noAlternate_pipe

/-- A message of one packet. -/
def onlyFrame : RoceFrame where
  ethernet := { etherType := ethertypeIpv4 }
  ipv4 := { ihl := 5, protocol := ipProtocolUdp, srcAddr := 0xc0a8010a, dstAddr := 0xc0a80106 }
  udp := { dstPort := udpPortRoceV2 }
  bth := { opcode := IbOpcode.bits .rdmaWriteOnlyImmediate, partitionKey := 0xffff
           dstQp := 0x800000 }
  opcode := .rdmaWriteOnlyImmediate
  reth := some {}
  immediate := some 0
  payload := [fun _ => 1, fun _ => 2]
  tail := List.replicate 32 false
  tail_short := by simp
  etherType := rfl
  ihl := rfl
  fragOffset := rfl
  protocol := rfl
  dstPort := rfl
  opcode_bits := rfl
  reth_isSome := rfl
  immediate_isSome := rfl

/-- The packet is consumed, harvested and broadcast. -/
theorem wire_refines_fields_broadcast :
    let inputs : List (Input Rng Arrival) := [.arrive {} ⟨0, onlyFrame, rfl⟩, .again {} 0]
    let fields := (fieldMachine WireConfig.oneRoceWorker.toSwitchConfig).run
      { memory := fun _ => {} } (inputs.map (Input.map Arrival.fields))
    let wire := (wireMachine WireConfig.oneRoceWorker).run { memory := fun _ => {} }
      (inputs.map (Input.map Arrival.wire))
    fields.loops.length = 0 ∧ fields.outs.length = 1 ∧ wire.memory = fields.memory ∧
      wire.loops = fields.loops.map (fun p => (p.1, packetBits p.2.2 p.2.1)) ∧
      List.Forall₂ Leaves fields.outs wire.outs := by
  intro inputs fields wire
  have hRun : fields.loops.length = 0 ∧ fields.outs.length = 1 := by decide +kernel
  exact ⟨hRun.1, hRun.2, wire_refines_fields WireConfig.oneRoceWorker
    (fun _ _ h => nomatch h) (fun _ => {}) inputs⟩

end Wire

end SwitchML
