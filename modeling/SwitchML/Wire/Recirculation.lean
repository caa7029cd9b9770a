import SwitchML.Switch.Pass
import SwitchML.Switch.ReceiverSpec
import SwitchML.Wire.Ingress

/-!
# SwitchML wire format — recirculation

Between two passes a packet exists as bits only: what one pass leaves in the metadata
and data headers is what the deparser writes and the parser of the next pass reads.
Which headers are valid at the end of a pass is decided all over the program; which ones
are read is decided by the worker type alone.

* `Framed` — what the parser and the receive stages establish: no header is valid but the
  data headers and the metadata of the worker type;
* `Journey.onRoute` — the ports on which a packet can be met, along any way through
  the switch;
* `recirculation_preserves_iff` — the next pass reads what this one left, if and only if
  the packet is not a 256-byte SwitchML-UDP packet.

The guard of `sequence_number_assignment` in `Ingress.apply` means to ask for a RoCE
packet first, but `&&` binds more tightly than `||`: a 256-byte UDP packet that starts to
be harvested gets a sequence number as well, which makes its RDMA metadata valid. The
next pass reads the fourteen bytes of it as UDP metadata and exponents, and what they
displace as payload (`udp_recirculation_shifted`).
-/

namespace SwitchML.Wire

open BitCodec Codec MatchAction

-- ---------------------------------------------------------------------------
-- Valid headers
-- ---------------------------------------------------------------------------

/-- The headers of a packet between the receive stage and the end of the pass. -/
structure Framed (w : IngressState) : Prop where
  hdr : w.hdr = {}
  mdValid : w.mdValid = true
  exponentsMdValid : w.exponentsMdValid = true
  workerMd : w.pass.md.workerType = .roceV2 ∧ w.rdmaMdValid = true ∧ w.udpMd = none ∨
    w.pass.md.workerType = .switchmlUdp ∧ w.rdmaMdValid = false ∧ ∃ udpMd, w.udpMd = some udpMd

theorem Framed.of_pass {w : IngressState} (h : Framed w) {pass : PassState}
    (hType : pass.md.workerType = w.pass.md.workerType) : Framed { w with pass := pass } :=
  ⟨h.hdr, h.mdValid, h.exponentsMdValid, by rw [hType]; exact h.workerMd⟩

/-- A packet that comes back has the metadata of its worker type. -/
theorem parseRecirculate_framed {w w' : IngressState} (hHdr : w.hdr = {})
    (hRdmaMd : w.rdmaMdValid = false) (hUdpMd : w.udpMd = none)
    (h : parseRecirculate w = some w') :
    Framed w' ∧ w'.pass.ingressPort = w.pass.ingressPort := by
  obtain ⟨w₁, d0, d1, rest, hMetadata, rfl⟩ := parseRecirculate_cases h
  obtain ⟨md, _, exponents, _, -, hWorker⟩ := parseMetadata_cases hMetadata
  rcases hWorker with ⟨hWorker, rdmaMd, rfl⟩ | ⟨hWorker, udpMd, rfl⟩
  · exact ⟨⟨hHdr, rfl, rfl, .inl ⟨hWorker, rfl, hUdpMd⟩⟩, rfl⟩
  · exact ⟨⟨hHdr, rfl, rfl, .inr ⟨hWorker, hRdmaMd, udpMd, rfl⟩⟩, rfl⟩

-- ---------------------------------------------------------------------------
-- The receive stages
-- ---------------------------------------------------------------------------

/-- What a receive stage makes of a packet from outside: it is not SwitchML's, or it is
ready for the first pass. -/
def Sorted (port : PortId) (w : IngressState) : Prop :=
  w.pass.md.packetType = .ignore ∨
    Framed w ∧ w.pass.md.packetType = .consume 0 ∧ w.pass.ingressPort = port

theorem Sorted.dropSimulators {port : PortId} {w : IngressState} (h : Sorted port w)
    (rng : Rng) : Sorted port { w with
      pass := egressDropSimulator rng.egress (ingressDropSimulator rng.ingress w.pass) } := by
  obtain ⟨p, hIngress⟩ := ingressDropSimulator_eq rng.ingress w.pass
  rw [hIngress]
  obtain ⟨q, drop, hEgress⟩ :=
    egressDropSimulator_eq rng.egress { w.pass with ingressDropProbability := p }
  rw [hEgress]
  exact h.imp_right fun ⟨hFramed, hType, hPort⟩ => ⟨hFramed.of_pass rfl, hType, hPort⟩

/-- A receive action for an opcode takes away all headers of a packet with that opcode. -/
theorem keptHeaders_receiveAction {ethernet : Option Ethernet} {ipv4 : Option Ipv4}
    {udp : Option Udp} {bth : Option IbBth} {reth : Option IbReth}
    {immediate : Option (BitVec 32)} {opcode : IbOpcode} (args : ReceiveArgs)
    (hOpcode : opcode.isRdmaWrite = true)
    (hImmediate : immediate.isSome → carriesImmediate opcode = true) :
    keptHeaders
      { ethernet := ethernet, ipv4 := ipv4, udp := udp
        ibBth := bth, ibReth := reth, ibImmediate := immediate }
      (receiveAction args opcode) = {} := by
  have hNone : carriesImmediate opcode = false → immediate = none := by
    intro hNot
    rw [hNot] at hImmediate
    simpa using hImmediate
  cases opcode with
  | rdmaWriteLastImmediate | rdmaWriteOnlyImmediate => rfl
  | rdmaWriteFirst | rdmaWriteMiddle | rdmaWriteLast | rdmaWriteOnly =>
    rw [hNone rfl]
    rfl
  | _ => cases hOpcode

/-- The SwitchML-UDP receive stage. -/
theorem workerBitmapAction_sorted {cfg : WireConfig} {w : IngressState}
    (hMd : w.mdValid = true) (hRdmaMd : w.rdmaMdValid = false)
    (hType : w.pass.md.packetType = .consume 0)
    (hHdr : { w.hdr with
      exponents := none, ethernet := none, ipv4 := none, udp := none, switchml := none } =
        ({} : HeaderStack)) :
    Sorted w.pass.ingressPort ((cfg.workerBitmapAction w).run w) := by
  rcases lookup_eq_or_mem .forward (workerBitmapKey w) cfg.udpWorkers with h | ⟨row, hRow, -, h⟩
  · rw [WireConfig.workerBitmapAction, h]
    exact .inl rfl
  rw [WireConfig.workerBitmapAction, h]
  cases hAct : row.2 with
  | drop => exact .inl rfl
  | forward => exact .inl rfl
  | setBitmap args =>
    have hUdp : args.workerType = .switchmlUdp := cfg.udpWorkers_type row hRow args hAct
    exact .inr ⟨⟨hHdr, hMd, rfl, .inr ⟨hUdp, hRdmaMd, _, rfl⟩⟩, hType, rfl⟩

/-- The RoCE receive stage. -/
theorem rdmaReceiver_sorted {cfg : WireConfig} (regs : Registers) {w : IngressState}
    {ethernet : Option Ethernet} {ipv4 : Option Ipv4} {udp : Option Udp} {bth : IbBth}
    {reth : Option IbReth} {immediate : Option (BitVec 32)}
    (hHdr : w.hdr =
      { ethernet := ethernet, ipv4 := ipv4, udp := udp
        ibBth := some bth, ibReth := reth, ibImmediate := immediate })
    (hImmediate : immediate.isSome → (IbOpcode.ofBits bth.opcode).any carriesImmediate)
    (hMd : w.mdValid = true) (hRdmaMd : w.rdmaMdValid = true)
    (hExponents : w.exponentsMdValid = true) (hUdpMd : w.udpMd = none)
    (hType : w.pass.md.packetType = .consume 0) :
    Sorted w.pass.ingressPort (rdmaReceiver cfg.workers regs w).2 := by
  cases hPacket : rocePacket w.hdr with
  | none =>
    simp only [rdmaReceiver, hPacket]
    exact .inl rfl
  | some rp =>
    have hOpcode : IbOpcode.ofBits bth.opcode = some rp.opcode := by
      rw [rocePacket, hHdr] at hPacket
      obtain ⟨opcode, hBits, rfl⟩ := Option.map_eq_some_iff.mp hPacket
      exact hBits
    simp only [rdmaReceiver, hPacket, SwitchML.rdmaReceiver, receiveRoceAction]
    rcases lookup_receiveRoce_cases cfg.workers rp with hAct | ⟨hWrite, e, he, hAct⟩
    · rw [hAct]
      exact .inl rfl
    rw [hAct, receiveAction_run _ _ _ hWrite, receiveFields_eq, hHdr,
      keptHeaders_receiveAction e.args hWrite (by simpa [hOpcode] using hImmediate)]
    have hRoce : e.args.workerType = .roceV2 := cfg.workers_type e he
    exact .inr ⟨⟨rfl, hMd, hExponents, .inl ⟨hRoce, hRdmaMd, hUdpMd⟩⟩, hType, rfl⟩

theorem firstPass_sorted {cfg : WireConfig} (rng : Rng) (regs : Registers) {port : PortId}
    {bits : Bits} {w : IngressState}
    (h : Accepted (start cfg.toSwitchConfig port bits) w)
    (hType : w.pass.md.packetType = .consume 0) :
    Sorted port (firstPass cfg rng regs w).2 := by
  unfold firstPass
  apply Sorted.dropSimulators
  cases h with
  | other => cases hType
  | switchml ethernet ipv4 udp switchml exponents d0 d1 rest _ hUdp hEnd hBits =>
    subst hEnd
    exact workerBitmapAction_sorted rfl rfl rfl rfl
  | roce ethernet ipv4 udp bth reth immediate d0 d1 hasData rest _ hUdp hImmediate hEnd hBits =>
    subst hEnd
    exact rdmaReceiver_sorted _ rfl hImmediate rfl rfl rfl rfl rfl

-- ---------------------------------------------------------------------------
-- Ports
-- ---------------------------------------------------------------------------

/-- `next_step` sends the packet to a recirculation port. -/
def IngressState.Recirculates (w : IngressState) (port : PortId) : Prop :=
  w.pass.dropCtl = false ∧ w.pass.bypassEgress = true ∧ w.pass.ucastEgressPort = some port ∧
    PacketType.code (.consume 0) ≤ w.pass.md.packetType.code

instance (w : IngressState) (port : PortId) : Decidable (w.Recirculates port) :=
  inferInstanceAs (Decidable (_ ∧ _ ∧ _ ∧ _))

/-- Where a packet of a type can be met: a `CONSUME0` packet comes from outside, a
`CONSUME1` packet over the loopback port of its worker, and all other SwitchML packets
from some recirculation port. -/
def OnRoute (port : PortId) : PacketType → Prop
  | .ignore => True
  | .consume 0 => isRecirculationPort port = false
  | .consume 1 => ∃ id, port = consume1Port id
  | _ => isRecirculationPort port = true

theorem isRecirculationPort_samePortInPipe3 :
    ∀ port : PortId, isRecirculationPort (samePortInPipe 3 port) = true := by
  decide +kernel

theorem isRecirculationPort_consume1Port (id : WorkerId) :
    isRecirculationPort (consume1Port id) = true ∧
      isRecirculationPort (samePortInPipe 2 (consume1Port id)) = true :=
  consume1Port_cases (fun p => isRecirculationPort p = true ∧
    isRecirculationPort (samePortInPipe 2 p) = true) (by decide) id

/-- Each hop ends on a recirculation port, where the packet is on its route again. -/
theorem nextHop_onRoute {alternate : Option PortId} {port port' : PortId} {id : WorkerId}
    {ty ty' : PacketType} (hAlternate : ∀ p ∈ alternate, pipeOf p = 1) (hRoute : OnRoute port ty)
    (h : nextHop alternate port id ty = some (ty', port')) :
    isRecirculationPort port' = true ∧ OnRoute port' ty' := by
  cases ty with
  | consume i =>
    match i, h with
    | 0, h =>
      obtain ⟨rfl, rfl⟩ := Prod.mk.inj (Option.some.inj h)
      exact ⟨(isRecirculationPort_consume1Port id).1, id, rfl⟩
    | 1, h =>
      obtain ⟨rfl, rfl⟩ := Prod.mk.inj (Option.some.inj h)
      obtain ⟨id', rfl⟩ := hRoute
      have hPort := (isRecirculationPort_consume1Port id').2
      exact ⟨hPort, hPort⟩
    | 2, h =>
      obtain ⟨rfl, rfl⟩ := Prod.mk.inj (Option.some.inj h)
      have hPort := isRecirculationPort_samePortInPipe3 port
      exact ⟨hPort, hPort⟩
    | 3, h =>
      obtain ⟨rfl, rfl⟩ := Prod.mk.inj (Option.some.inj h)
      exact ⟨rfl, rfl⟩
  | harvest j =>
    match j, h with
    | 0, h | 1, h | 4, h | 5, h | 6, h =>
      obtain ⟨rfl, rfl⟩ := Prod.mk.inj (Option.some.inj h)
      exact ⟨rfl, rfl⟩
    | 2, h =>
      obtain ⟨rfl, rfl⟩ := Prod.mk.inj (Option.some.inj h)
      exact ⟨hRoute, hRoute⟩
    | 3, h =>
      obtain ⟨rfl, rfl⟩ := Prod.mk.inj (Option.some.inj h)
      have hPort : isRecirculationPort (alternate.getD 196) = true := by
        cases alternate with
        | none => rfl
        | some p => exact isRecirculationPort_of_pipe (.inl rfl) (hAlternate p rfl)
      exact ⟨hPort, hPort⟩
    | 7, h => cases h
  | _ => cases h

/-- An action that leaves a packet for a recirculation port recirculates it. -/
theorem recirculation_of_run {alternate : Option PortId} {st : PassState} {port : PortId}
    (act : NextStepAction) (hDrop : (act.run alternate st).dropCtl = false)
    (hBypass : (act.run alternate st).bypassEgress = true)
    (hPort : (act.run alternate st).ucastEgressPort = some port) :
    act.recirculation alternate st.ingressPort =
      some ((act.run alternate st).md.packetType, port) := by
  cases act with
  | drop | finishConsume => cases hDrop
  | broadcastUdp | broadcastRoce | retransmitUdp | retransmitRoce => cases hBypass
  | _ =>
    obtain rfl := Option.some.inj hPort
    rfl

theorem nextStep_keeps (alternate : Option PortId) (st : PassState) :
    (nextStep alternate st).md.packetSize = st.md.packetSize ∧
      (nextStep alternate st).md.workerType = st.md.workerType := by
  unfold nextStep
  cases lookup .drop (nextStepKey alternate st) nextStepEntries <;> exact ⟨rfl, rfl⟩

/-- **The ways of recirculated packets.** -/
theorem nextStep_recirculates {alternate : Option PortId} {st : PassState} {port : PortId}
    (hDrop : (nextStep alternate st).dropCtl = false)
    (hBypass : (nextStep alternate st).bypassEgress = true)
    (hPort : (nextStep alternate st).ucastEgressPort = some port) :
    st.md.packetSize = .mtu256 ∧
        ((nextStep alternate st).md.packetType, port) = (.harvest 7, 68) ∨
      st.md.packetSize = .mtu1024 ∧
        nextHop alternate st.ingressPort st.md.workerId st.md.packetType =
          some ((nextStep alternate st).md.packetType, port) := by
  have hHop := recirculation_of_run (lookup .drop (nextStepKey alternate st) nextStepEntries)
    hDrop hBypass hPort
  refine (lookup_recirculation (k := nextStepKey alternate st) rfl hHop).imp ?_ id
  exact fun ⟨hSize, _, hEq⟩ => ⟨hSize, hEq⟩

-- ---------------------------------------------------------------------------
-- A pass that recirculates
-- ---------------------------------------------------------------------------

theorem forwardPass_md (cfg : WireConfig) (w : IngressState) :
    (forwardPass cfg w).pass.md = w.pass.md := by
  have hArp : ((cfg.arpAndIcmpAction w).run w).pass.md = w.pass.md := by
    cases cfg.arpAndIcmpAction w <;> rfl
  rw [← hArp]
  unfold forwardPass
  dsimp only
  split
  · next act _ => cases act <;> rfl
  · rfl

/-- What a pass leaves of a packet that it recirculates: the route goes on, and of the
headers only the RDMA metadata may have become valid. -/
structure Departs (w w' : IngressState) (port : PortId) : Prop where
  isRecirculationPort : isRecirculationPort port = true
  onRoute : OnRoute port w'.pass.md.packetType
  size : w'.pass.md.packetSize = .mtu256 ∧ w'.pass.md.packetType = .harvest 7 ∨
    w'.pass.md.packetSize = .mtu1024
  workerType : w'.pass.md.workerType = w.pass.md.workerType
  headers : w' = { w with
    pass := w'.pass, rdmaMdValid := w.rdmaMdValid || startsHarvest w'.pass }

theorem sharedPass_departs {cfg : WireConfig} {regs : Registers} {w : IngressState}
    {port port' : PortId} (hPort : w.pass.ingressPort = port)
    (hRoute : OnRoute port w.pass.md.packetType)
    (h : (sharedPass cfg regs w).2.Recirculates port') :
    Departs w (sharedPass cfg regs w).2 port' := by
  unfold sharedPass at h ⊢
  dsimp only at h ⊢
  have hCheck := checkSlot_keeps regs w.pass
  generalize checkSlot regs w.pass = result at h hCheck ⊢
  obtain ⟨regs1, pass⟩ := result
  dsimp only at h hCheck ⊢
  split at h
  · next hDrop => exact absurd h.1 (by simp [hDrop])
  next hDrop =>
  rw [if_neg hDrop]
  obtain ⟨hMd, hIngress⟩ := hCheck.resolve_left hDrop
  split at h
  · next hCode =>
    rw [if_pos hCode]
    obtain ⟨regs2, st, hProcess, hMd', hIngress'⟩ :=
      processSlot_keeps regs1 pass cfg.toSwitchConfig
    rw [hProcess, finishPass_state] at h ⊢
    obtain ⟨hDrop', hBypass, hUcast, -⟩ := h
    obtain ⟨hSize, hWorker⟩ := nextStep_keeps cfg.alternateRecircPort st
    have hHop := nextStep_recirculates hDrop' hBypass hUcast
    have hRoute' : isRecirculationPort port' = true ∧
        OnRoute port' (nextStep cfg.alternateRecircPort st).md.packetType := by
      rcases hHop with ⟨-, hHop⟩ | ⟨-, hHop⟩
      · obtain ⟨hType, rfl⟩ := Prod.mk.inj hHop
        rw [hType]
        exact ⟨rfl, rfl⟩
      · refine nextHop_onRoute cfg.alternate_pipe ?_ hHop
        rw [hIngress', hMd', hIngress, hMd, hPort]
        exact hRoute
    refine ⟨hRoute'.1, hRoute'.2, ?_, hWorker.trans (by rw [hMd', hMd]), rfl⟩
    exact hHop.imp (fun ⟨h256, hEq⟩ => ⟨hSize.trans h256, (Prod.mk.inj hEq).1⟩)
      fun ⟨h1024, _⟩ => hSize.trans h1024
  · next hCode =>
    have hType := h.2.2.2
    rw [forwardPass_md] at hType
    exact absurd hType hCode

theorem sharedPass_ignore {cfg : WireConfig} {regs : Registers} {w : IngressState}
    {port : PortId} (hType : w.pass.md.packetType = .ignore) :
    ¬ (sharedPass cfg regs w).2.Recirculates port := by
  have hCheck : checkSlot regs w.pass = (regs, w.pass) := by simp [checkSlot, hType]
  have hCode : ¬ PacketType.code (.consume 0) ≤ w.pass.md.packetType.code := by
    simp [hType, PacketType.code]
  rintro ⟨-, -, -, h⟩
  simp only [sharedPass, hCheck, if_neg hCode] at h
  split at h
  · exact hCode h
  · rw [forwardPass_md] at h
    exact hCode h

/-- A packet that is recirculated had the headers of its worker type before. -/
theorem ingressApply_departs {cfg : WireConfig} {rng : Rng} {regs : Registers}
    {port port' : PortId} {bits : Bits} {w : IngressState}
    (hParse : ingressParser cfg.toSwitchConfig port bits = some w)
    (hRoute : OnRoute port w.pass.md.packetType)
    (h : (ingressApply cfg rng regs w).2.Recirculates port') :
    ∃ w1, Framed w1 ∧ Departs w1 (ingressApply cfg rng regs w).2 port' := by
  by_cases hFirst : w.pass.md.packetType = .consume 0
  · rw [hFirst] at hRoute
    have hSorted := firstPass_sorted rng regs (ingressParser_cases hRoute hParse) hFirst
    unfold ingressApply at h ⊢
    rw [if_pos hFirst] at h ⊢
    dsimp only at h ⊢
    rcases hSorted with hIgnore | ⟨hFramed, hType, hPort⟩
    · exact absurd h (sharedPass_ignore hIgnore)
    · exact ⟨_, hFramed, sharedPass_departs hPort (by rw [hType]; exact hRoute) h⟩
  unfold ingressApply at h ⊢
  rw [if_neg hFirst] at h ⊢
  by_cases hPort : isRecirculationPort port = true
  · rw [ingressParser, if_pos hPort] at hParse
    obtain ⟨hFramed, hIngress⟩ := parseRecirculate_framed rfl rfl rfl hParse
    split at h
    · next hCode =>
      rw [if_pos hCode]
      have hIngress' : (reconstructWorkerBitmap w.pass).ingressPort = port :=
        (reconstructWorkerBitmap_ingressPort w.pass).trans hIngress
      have hMd := reconstructWorkerBitmap_md w.pass
      exact ⟨_, hFramed.of_pass (by rw [hMd]),
        sharedPass_departs hIngress' (by rw [hMd]; exact hRoute) h⟩
    · next hCode =>
      rw [if_neg hCode]
      exact ⟨_, hFramed, sharedPass_departs hIngress hRoute h⟩
  · -- from outside, what is not `CONSUME0` is not SwitchML's
    have hIgnore : w.pass.md.packetType = .ignore := by
      cases ingressParser_cases (Bool.eq_false_iff.mpr hPort) hParse with
      | other => rfl
      | switchml ethernet ipv4 udp switchml exponents d0 d1 rest _ hUdp hEnd hBits =>
        subst hEnd
        exact absurd rfl hFirst
      | roce ethernet ipv4 udp bth reth immediate d0 d1 hasData rest _ hUdp hImmediate hEnd
          hBits =>
        subst hEnd
        exact absurd rfl hFirst
    rw [if_neg (by simp [hIgnore, PacketType.code])] at h
    exact absurd h (sharedPass_ignore hIgnore)

-- ---------------------------------------------------------------------------
-- From the deparser to the parser
-- ---------------------------------------------------------------------------

/-- `w'`, read back from what `w` was written as, has the same metadata, and what
follows it are the valid data headers and what was not parsed. -/
def IngressState.Rereads (w' w : IngressState) : Prop :=
  w'.pass.md = w.pass.md ∧
  w'.ethHdrLenFieldHighOrderBits = w.ethHdrLenFieldHighOrderBits ∧
  (w.pass.md.workerType = .roceV2 → w'.rdmaMdValid = true ∧ w'.pass.rdmaMd = w.pass.rdmaMd) ∧
  (w.pass.md.workerType = .switchmlUdp → w'.udpMd.isSome = true ∧ w'.udpMd = w.udpMd) ∧
  w'.exponentsMdValid = true ∧ w'.pass.exponents = w.pass.exponents ∧
  w'.rest = dataHeaders w.pass ++ w.rest

/-- On this port the parser expects metadata, and reads the one that the pass left. -/
def Preserved (cfg : SwitchConfig) (port : PortId) (w : IngressState) : Prop :=
  isRecirculationPort port = true ∧
    ∃ w', parseMetadata (start cfg port (ingressDeparser w)) = some w' ∧ w'.Rereads w

theorem parseMetadata_roce (cfg : SwitchConfig) (port : PortId) (md : BridgedMd)
    (rdmaMd : SwitchmlRdmaMd) (exponents : ExponentsMd) (rest : Bits)
    (hWorker : md.md.workerType = .roceV2) :
    parseMetadata (start cfg port (switchmlMdH.encode md ++ (switchmlRdmaMdH.encode rdmaMd ++
        (switchmlExponentsMdH.encode exponents ++ rest)))) =
      some { start cfg port rest with
        mdValid := true, ethHdrLenFieldHighOrderBits := md.ethHdrLenFieldHighOrderBits
        rdmaMdValid := true, exponentsMdValid := true
        pass := { (start cfg port rest).pass with
          md := md.md, rdmaMd := rdmaMd, exponents := exponents } } := by
  simp [parseMetadata, start, hWorker]

theorem parseMetadata_udp (cfg : SwitchConfig) (port : PortId) (md : BridgedMd)
    (udpMd : SwitchmlUdpMd) (exponents : ExponentsMd) (rest : Bits)
    (hWorker : md.md.workerType = .switchmlUdp) :
    parseMetadata (start cfg port (switchmlMdH.encode md ++ (switchmlUdpMdH.encode udpMd ++
        (switchmlExponentsMdH.encode exponents ++ rest)))) =
      some { start cfg port rest with
        mdValid := true, ethHdrLenFieldHighOrderBits := md.ethHdrLenFieldHighOrderBits
        udpMd := some udpMd, exponentsMdValid := true
        pass := { (start cfg port rest).pass with md := md.md, exponents := exponents } } := by
  simp [parseMetadata, start, hWorker]

/-- Behind the metadata of a UDP packet, as many bits are left as it is shorter. -/
theorem parseMetadata_udp_length {cfg : SwitchConfig} {port : PortId} {md : BridgedMd}
    {bits : Bits} {w : IngressState} (hWorker : md.md.workerType = .switchmlUdp)
    (h : parseMetadata (start cfg port (switchmlMdH.encode md ++ bits)) = some w) :
    bits.length =
      switchmlUdpMdH.width + (switchmlExponentsMdH.width + w.rest.length) := by
  simp only [parseMetadata, start, decode_encode, hWorker, Option.bind_eq_bind,
    Option.bind_some, Option.bind_eq_some_iff, Option.some.injEq] at h
  obtain ⟨⟨udpMd, rest⟩, hUdp, ⟨exponents, rest'⟩, hExponents, rfl⟩ := h
  rw [switchmlUdpMdH.length_decode hUdp, switchmlExponentsMdH.length_decode hExponents]

theorem parseRecirculate_md {cfg : SwitchConfig} {port : PortId} {md : BridgedMd} {bits : Bits}
    {w : IngressState}
    (h : parseRecirculate (start cfg port (switchmlMdH.encode md ++ bits)) = some w) :
    w.pass.md = md.md := by
  obtain ⟨w₁, d0, d1, rest, hMetadata, rfl⟩ := parseRecirculate_cases h
  obtain ⟨md', _, exponents, _, hMd, hWorker⟩ := parseMetadata_cases hMetadata
  rw [start, decode_encode] at hMd
  obtain rfl := congrArg Prod.fst (Option.some.inj hMd)
  rcases hWorker with ⟨-, rdmaMd, rfl⟩ | ⟨-, udpMd, rfl⟩ <;> rfl

section Reread

variable {cfg : SwitchConfig} {port : PortId} {w : IngressState}
  (hPort : isRecirculationPort port = true) (hHdr : w.hdr = {}) (hMd : w.mdValid = true)
  (hExponents : w.exponentsMdValid = true)

include hHdr hMd hExponents

/-- What is written of a packet without headers but the data headers. -/
theorem ingressDeparser_framed : ingressDeparser w =
    switchmlMdH.encode ⟨w.pass.md, w.ethHdrLenFieldHighOrderBits⟩ ++
      ((if w.rdmaMdValid then switchmlRdmaMdH.encode w.pass.rdmaMd else []) ++
        (emit switchmlUdpMdH w.udpMd ++ (switchmlExponentsMdH.encode w.pass.exponents ++
          (dataHeaders w.pass ++ w.rest)))) := by
  simp [ingressDeparser, IngressState.metadata, IngressState.wire, HeaderStack.front, hHdr, hMd,
    hExponents]

include hPort

theorem preserved_roce (hWorker : w.pass.md.workerType = .roceV2)
    (hRdmaMd : w.rdmaMdValid = true) (hUdpMd : w.udpMd = none) : Preserved cfg port w := by
  have hBits := ingressDeparser_framed hHdr hMd hExponents
  rw [hRdmaMd, hUdpMd] at hBits
  have hParse := parseMetadata_roce cfg port ⟨w.pass.md, w.ethHdrLenFieldHighOrderBits⟩
    w.pass.rdmaMd w.pass.exponents (dataHeaders w.pass ++ w.rest) hWorker
  refine ⟨hPort, _, (congrArg (fun bits => parseMetadata (start cfg port bits)) hBits).trans
    hParse, ?_⟩
  exact ⟨rfl, rfl, fun _ => ⟨rfl, rfl⟩, fun hUdp => by simp [hWorker] at hUdp, rfl, rfl, rfl⟩

theorem preserved_udp (hWorker : w.pass.md.workerType = .switchmlUdp)
    (hRdmaMd : w.rdmaMdValid = false) {udpMd : SwitchmlUdpMd} (hUdpMd : w.udpMd = some udpMd) :
    Preserved cfg port w := by
  have hBits := ingressDeparser_framed hHdr hMd hExponents
  rw [hRdmaMd, hUdpMd] at hBits
  have hParse := parseMetadata_udp cfg port ⟨w.pass.md, w.ethHdrLenFieldHighOrderBits⟩
    udpMd w.pass.exponents (dataHeaders w.pass ++ w.rest) hWorker
  refine ⟨hPort, _, (congrArg (fun bits => parseMetadata (start cfg port bits)) hBits).trans
    hParse, ?_⟩
  exact ⟨rfl, rfl, fun hRoce => by simp [hWorker] at hRoce, fun _ => ⟨rfl, hUdpMd.symm⟩, rfl,
    rfl, rfl⟩

omit hPort in
/-- With RDMA metadata in front of its own, a UDP packet comes back longer. -/
theorem not_preserved_udp (hWorker : w.pass.md.workerType = .switchmlUdp)
    (hRdmaMd : w.rdmaMdValid = true) {udpMd : SwitchmlUdpMd} (hUdpMd : w.udpMd = some udpMd) :
    ¬ Preserved cfg port w := by
  rintro ⟨-, w', hParse, -, -, -, -, -, -, hRest⟩
  rw [ingressDeparser_framed hHdr hMd hExponents, hRdmaMd, hUdpMd] at hParse
  have hLen := parseMetadata_udp_length hWorker hParse
  have hWidth : switchmlRdmaMdH.width = 112 := rfl
  simp only [if_true, emit_some, List.length_append, length_encode, hRest, hWidth] at hLen
  omega

end Reread

-- ---------------------------------------------------------------------------
-- The way of a packet
-- ---------------------------------------------------------------------------

/-- The passes of a packet: it arrives from outside, and is recirculated any number of
times. The registers it meets are those that all other packets left. -/
inductive Journey (cfg : WireConfig) : PortId → Bits → Prop
  | arrive (port : PortId) (bits : Bits) (hPort : isRecirculationPort port = false) :
      Journey cfg port bits
  | hop {port port' : PortId} {bits : Bits} {w : IngressState} (rng : Rng) (regs : Registers)
      (h : Journey cfg port bits) (hPass : (ingressPass cfg rng port bits regs).2 = some w)
      (hSent : w.Recirculates port') : Journey cfg port' (ingressDeparser w)

/-- **Every pass of every packet is on its route.** -/
theorem Journey.onRoute {cfg : WireConfig} {port : PortId} {bits : Bits}
    (h : Journey cfg port bits) {w : IngressState}
    (hParse : ingressParser cfg.toSwitchConfig port bits = some w) :
    OnRoute port w.pass.md.packetType := by
  induction h generalizing w with
  | arrive port bits hPort =>
    cases ingressParser_cases hPort hParse with
    | other => trivial
    | switchml ethernet ipv4 udp switchml exponents d0 d1 rest _ hUdp hEnd hBits =>
      subst hEnd
      exact hPort
    | roce ethernet ipv4 udp bth reth immediate d0 d1 hasData rest _ hUdp hImmediate hEnd
        hBits =>
      subst hEnd
      exact hPort
  | @hop port port' bits w' rng regs _ hPass hSent ih =>
    cases hBefore : ingressParser cfg.toSwitchConfig port bits with
    | none => simp [ingressPass, hBefore] at hPass
    | some w0 =>
      obtain rfl := Option.some.inj ((ingressPass_of_parse hBefore rng regs).symm.trans hPass)
      obtain ⟨w1, hFramed, hDeparts⟩ := ingressApply_departs hBefore (ih hBefore) hSent
      generalize (ingressApply cfg rng regs w0).2 = w' at hDeparts hParse
      obtain ⟨hPort, hRoute, -, -, hHeaders⟩ := hDeparts
      -- the metadata comes first, so that the type is read as it was written
      rw [ingressParser, if_pos hPort, ingressDeparser_framed (w := w')
        ((congrArg IngressState.hdr hHeaders).trans hFramed.hdr)
        ((congrArg IngressState.mdValid hHeaders).trans hFramed.mdValid)
        ((congrArg IngressState.exponentsMdValid hHeaders).trans hFramed.exponentsMdValid)]
        at hParse
      rw [parseRecirculate_md hParse]
      exact hRoute

-- ---------------------------------------------------------------------------
-- What is preserved
-- ---------------------------------------------------------------------------

/-- The guard of `sequence_number_assignment`, for a UDP packet. -/
theorem startsHarvest_udp {st : PassState} (hWorker : st.md.workerType = .switchmlUdp) :
    startsHarvest st =
      (decide (st.md.packetSize = .mtu256) && decide (st.md.packetType = .harvest 7)) := by
  simp [startsHarvest, hWorker]

/-- **Recirculation preserves what a packet carries, but for 256-byte UDP packets.** Take
any pass, from any registers, over any bits that the parser accepts on the packet's
route, and let `next_step` recirculate the packet. The parser of the next pass reads the
metadata that this pass left, and finds behind it the valid data headers and what was not
parsed, if and only if this is not a 256-byte SwitchML-UDP packet. -/
theorem recirculation_preserves_iff (cfg : WireConfig) (rng : Rng) (regs : Registers)
    {port port' : PortId} {bits : Bits} {w w' : IngressState}
    (hParse : ingressParser cfg.toSwitchConfig port bits = some w)
    (hRoute : OnRoute port w.pass.md.packetType)
    (hPass : (ingressPass cfg rng port bits regs).2 = some w') (hSent : w'.Recirculates port') :
    Preserved cfg.toSwitchConfig port' w' ↔
      ¬ (w'.pass.md.workerType = .switchmlUdp ∧ w'.pass.md.packetSize = .mtu256) := by
  obtain rfl := Option.some.inj ((ingressPass_of_parse hParse rng regs).symm.trans hPass)
  obtain ⟨w1, hFramed, hDeparts⟩ := ingressApply_departs hParse hRoute hSent
  generalize (ingressApply cfg rng regs w).2 = w' at hDeparts ⊢
  obtain ⟨hPort, -, hSize, hWorker, hHeaders⟩ := hDeparts
  have hHdr : w'.hdr = {} := (congrArg IngressState.hdr hHeaders).trans hFramed.hdr
  have hMd : w'.mdValid = true := (congrArg IngressState.mdValid hHeaders).trans hFramed.mdValid
  have hExponents : w'.exponentsMdValid = true :=
    (congrArg IngressState.exponentsMdValid hHeaders).trans hFramed.exponentsMdValid
  have hRdmaMd : w'.rdmaMdValid = (w1.rdmaMdValid || startsHarvest w'.pass) :=
    congrArg IngressState.rdmaMdValid hHeaders
  have hUdpMd : w'.udpMd = w1.udpMd := by rw [hHeaders]
  rcases hFramed.workerMd with ⟨hRoce, hRdma, hNone⟩ | ⟨hUdp, hRdma, udpMd, hSome⟩
  · rw [hRdma, Bool.true_or] at hRdmaMd
    refine iff_of_true (preserved_roce hPort hHdr hMd hExponents (hWorker.trans hRoce) hRdmaMd
      (hUdpMd.trans hNone)) ?_
    simp [hWorker, hRoce]
  · rw [hRdma, Bool.false_or, startsHarvest_udp (hWorker.trans hUdp)] at hRdmaMd
    rcases hSize with ⟨h256, hType⟩ | h1024
    · refine iff_of_false (not_preserved_udp hHdr hMd hExponents (hWorker.trans hUdp) ?_
        (hUdpMd.trans hSome)) (not_not_intro ⟨hWorker.trans hUdp, h256⟩)
      simpa [h256, hType] using hRdmaMd
    · refine iff_of_true (preserved_udp hPort hHdr hMd hExponents (hWorker.trans hUdp) ?_
        (hUdpMd.trans hSome)) ?_
      · simpa [h1024] using hRdmaMd
      · simp [h1024]

/-- A switch with one SwitchML-UDP worker. -/
def WireConfig.oneUdpWorker (packetSize : PacketSize) : WireConfig where
  workers := []
  udpWorkers := [(KeyField.any, .setBitmap
    { mgid := 1, workerType := .switchmlUdp, workerId := 0, numWorkers := 1, workerBitmap := 1
      packetSize := packetSize })]
  workers_type := noWorkers_type
  udpWorkers_type := by simp
  alternate_pipe := noAlternate_pipe

/-- A SwitchML-UDP packet, as it is parsed. -/
theorem ingressParser_udp (cfg : SwitchConfig) (port : PortId) (ethernet : Ethernet)
    (ipv4 : Ipv4) (udp : Udp) (switchml : SwitchmlHeader) (d0 d1 : Data)
    (exponents : BitVec 16) (rest : Bits) (hPort : isRecirculationPort port = false)
    (hEth : ethernet.etherType = ethertypeIpv4)
    (hIpv4 : ipv4.ihl = 5 ∧ ipv4.fragOffset = 0 ∧ ipv4.protocol = ipProtocolUdp)
    (hUdp : udp.dstPort = udpPortSwitchmlBase) :
    ingressParser cfg port (ethernetH.encode ethernet ++ (ipv4H.encode ipv4 ++
        (udpH.encode udp ++ (switchmlH.encode switchml ++ (dataH.encode d0 ++
          (dataH.encode d1 ++ (exponentsH.encode exponents ++ rest))))))) =
      some { start cfg port rest with
        hdr := {
          ethernet := some ethernet, ipv4 := some ipv4, udp := some udp
          switchml := some switchml, exponents := some exponents }
        mdValid := true
        pass := { (start cfg port rest).pass with
          md := { packetType := .consume 0 }
          d0 := d0, d1 := d1, d0Valid := true, d1Valid := true } } := by
  obtain ⟨hIhl, hFrag, hProto⟩ := hIpv4
  simp [ingressParser, hPort, start, parseEthernet, hEth, ethertypeIpv4, ethertypeArp,
    parseIpv4, hIhl, hFrag, hProto, ipProtocolUdp, ipProtocolIcmp, parseUdp, hUdp,
    udpPortSwitchmlBase, udpPortRoceV2, parseSwitchml]

/-- The floats `32 * k`, `32 * k + 1`, … -/
def udpSlice (k : ℕ) : Data := fun i => BitVec.ofNat 32 (32 * k + i)

/-- A SwitchML-UDP packet with two slices of data, and `more` slices behind the exponents. -/
def udpRequest (more : ℕ) : Bits :=
  ethernetH.encode { etherType := ethertypeIpv4 } ++
    (ipv4H.encode { ihl := 5, protocol := ipProtocolUdp } ++
    (udpH.encode { dstPort := udpPortSwitchmlBase } ++ (switchmlH.encode {} ++
    (dataH.encode (udpSlice 0) ++ (dataH.encode (udpSlice 1) ++ (exponentsH.encode 0x7b7a ++
    (List.range more).flatMap fun k => dataH.encode (udpSlice (k + 2))))))))

/-- `udpRequest` as it is parsed. -/
def parsedUdpRequest (cfg : SwitchConfig) (more : ℕ) : IngressState :=
  let rest := (List.range more).flatMap fun k => dataH.encode (udpSlice (k + 2))
  { start cfg 0 rest with
    hdr := {
      ethernet := some { etherType := ethertypeIpv4 }
      ipv4 := some { ihl := 5, protocol := ipProtocolUdp }
      udp := some { dstPort := udpPortSwitchmlBase }, switchml := some {}
      exponents := some 0x7b7a }
    mdValid := true
    pass := { (start cfg 0 rest).pass with
      md := { packetType := .consume 0 }
      d0 := udpSlice 0, d1 := udpSlice 1, d0Valid := true, d1Valid := true } }

theorem ingressParser_udpRequest (cfg : SwitchConfig) (more : ℕ) :
    ingressParser cfg 0 (udpRequest more) = some (parsedUdpRequest cfg more) :=
  ingressParser_udp cfg 0 _ _ _ _ _ _ _ _ rfl rfl ⟨rfl, rfl, rfl⟩ rfl

/-- The first pass of a 1024-byte UDP packet: six of its eight slices are not parsed. -/
theorem recirculation_preserves_udp_1024B :
    let cfg := WireConfig.oneUdpWorker .mtu1024
    ∃ w w', ingressParser cfg.toSwitchConfig 0 (udpRequest 6) = some w ∧
      OnRoute 0 w.pass.md.packetType ∧ (ingressPass cfg {} 0 (udpRequest 6) {}).2 = some w' ∧
      w'.Recirculates 128 ∧ Preserved cfg.toSwitchConfig 128 w' := by
  intro cfg
  have hParse := ingressParser_udpRequest cfg.toSwitchConfig 6
  have hPass := ingressPass_of_parse hParse {} {}
  have hSent : (ingressApply cfg {} {} (parsedUdpRequest cfg.toSwitchConfig 6)).2.Recirculates
      128 := by decide +kernel
  refine ⟨_, _, hParse, rfl, hPass, hSent, ?_⟩
  refine (recirculation_preserves_iff cfg {} {} hParse rfl hPass hSent).mpr ?_
  decide +kernel

/-- The first pass of a 256-byte UDP packet: the parser of the next pass finds the RDMA
metadata, fourteen bytes, where it expects that of the worker type. -/
theorem udp_recirculation_shifted :
    let cfg := WireConfig.oneUdpWorker .mtu256
    ∃ w w', ingressParser cfg.toSwitchConfig 0 (udpRequest 0) = some w ∧
      OnRoute 0 w.pass.md.packetType ∧ (ingressPass cfg {} 0 (udpRequest 0) {}).2 = some w' ∧
      w'.Recirculates 68 ∧ ¬ Preserved cfg.toSwitchConfig 68 w' := by
  intro cfg
  have hParse := ingressParser_udpRequest cfg.toSwitchConfig 0
  have hPass := ingressPass_of_parse hParse {} {}
  have hFacts : (ingressApply cfg {} {} (parsedUdpRequest cfg.toSwitchConfig 0)).2.Recirculates
        68 ∧
      let w' := (ingressApply cfg {} {} (parsedUdpRequest cfg.toSwitchConfig 0)).2
      w'.hdr = {} ∧ w'.mdValid = true ∧ w'.exponentsMdValid = true ∧
        w'.pass.md.workerType = .switchmlUdp ∧ w'.rdmaMdValid = true ∧
        w'.udpMd = some { dstPort := udpPortSwitchmlBase } := by decide +kernel
  obtain ⟨hSent, hHdr, hMd, hExponents, hWorker, hRdmaMd, hUdpMd⟩ := hFacts
  exact ⟨_, _, hParse, rfl, hPass, hSent,
    not_preserved_udp hHdr hMd hExponents hWorker hRdmaMd hUdpMd⟩

end SwitchML.Wire
