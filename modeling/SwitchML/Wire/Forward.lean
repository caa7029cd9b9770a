import SwitchML.Wire.Ingress

/-!
# SwitchML wire format — traffic that is not SwitchML's

A packet that the receive tables and `arp_and_icmp` do not know is sent out as it came
in, on the port or to the flood group that the `forward` table gives its destination
MAC address.

`forwarded_unchanged_iff` says for which packets that is so: all but those to the
RoCEv2 port. The parser makes three metadata headers valid for a RoCEv2 packet before it
is known whose it is, and `NonSwitchMLForward` invalidates only two of them again: the
packet leaves with the exponents metadata, two zero bytes, in front of its Ethernet
header (`roce_forwarded_with_metadata`).
-/

namespace SwitchML.Wire

open BitCodec MatchAction

/-- A port of pipe 0 that is neither its CPU port nor its recirculation port. -/
def frontPanel (port : PortId) : Bool :=
  decide (pipeOf port = 0) && decide (port ≠ 64) && decide (port ≠ 68)

theorem isRecirculationPort_frontPanel {port : PortId} (h : frontPanel port = true) :
    isRecirculationPort port = false := by
  simp only [frontPanel, Bool.and_eq_true, decide_eq_true_eq] at h
  obtain ⟨⟨hPipe, h64⟩, h68⟩ := h
  rw [isRecirculationPort, decide_eq_false h64, decide_eq_false h68, hPipe]
  simp

/-- A packet, as parsed, that misses in all the tables that would make it the switch's
own. -/
def WireConfig.NotForSwitchml (cfg : WireConfig) (w : IngressState) : Prop :=
  cfg.arpAndIcmpAction w = .noAction ∧
  (w.hdr.ibBth.isSome → receiveRoceAction cfg.workers w.hdr = .forward) ∧
  (w.hdr.switchml.isSome → cfg.workerBitmapAction w = .forward)

instance (cfg : WireConfig) (w : IngressState) : Decidable (cfg.NotForSwitchml w) :=
  inferInstanceAs (Decidable (_ ∧ _ ∧ _))

/-- What a forwarding action is to make of the bits that came in at a port. -/
def ForwardAction.output (port : PortId) (bits : Bits) : ForwardAction → Output
  | .setEgressPort egressPort =>
    { ucastEgressPort := some egressPort, bypassEgress := true, bits := bits }
  | .flood floodMgid =>
    { mcast := some (floodMgid, floodExclusionId port), bypassEgress := true, bits := bits }

-- ---------------------------------------------------------------------------
-- A pass over a packet that is not SwitchML's
-- ---------------------------------------------------------------------------

/-- `w'` differs from `w` in metadata only, and is known not to be SwitchML's. -/
def Ignored (w w' : IngressState) : Prop :=
  ∃ (md : SwitchmlMd) (ingressDrop egressDrop : DropProbability), md.packetType = .ignore ∧
    w' = { w with
      pass := { w.pass with
        md := md
        ingressDropProbability := ingressDrop, egressDropProbability := egressDrop } }

namespace Ignored

variable {w w' : IngressState}

theorem hdr_eq (h : Ignored w w') : w'.hdr = w.hdr := by
  obtain ⟨_, _, _, -, rfl⟩ := h
  rfl

theorem packetType_eq (h : Ignored w w') : w'.pass.md.packetType = .ignore := by
  obtain ⟨_, _, _, hType, rfl⟩ := h
  exact hType

theorem dropCtl_eq (h : Ignored w w') : w'.pass.dropCtl = w.pass.dropCtl := by
  obtain ⟨_, _, _, -, rfl⟩ := h
  rfl

theorem of_ignore (h : w.pass.md.packetType = .ignore) : Ignored w w :=
  ⟨_, _, _, h, rfl⟩

end Ignored

/-- The drop simulators only touch what `Ignored` leaves open. -/
theorem Ignored.dropSimulators {w w' : IngressState} (h : Ignored w w') (rng : Rng) :
    Ignored w { w' with
      pass := egressDropSimulator rng.egress (ingressDropSimulator rng.ingress w'.pass) } := by
  obtain ⟨md, ingressDrop, egressDrop, hType, rfl⟩ := h
  obtain ⟨p, hIngress⟩ := ingressDropSimulator_eq rng.ingress { w.pass with
    md := md, ingressDropProbability := ingressDrop, egressDropProbability := egressDrop }
  rw [hIngress]
  obtain ⟨q, drop, hEgress⟩ := egressDropSimulator_eq rng.egress { w.pass with
    md := md, ingressDropProbability := p, egressDropProbability := egressDrop }
  rw [hEgress]
  exact ⟨{ md with ingressPort := w.pass.ingressPort, simulateEgressDrop := drop }, p, q, hType,
    rfl⟩

/-- A receive stage that does not know the packet only says so. -/
theorem firstPass_ignored {cfg : WireConfig} (rng : Rng) (regs : Registers) {w : IngressState}
    (hRoce : w.hdr.ibBth.isSome → receiveRoceAction cfg.workers w.hdr = .forward)
    (hUdp : w.hdr.ibBth = none → cfg.workerBitmapAction w = .forward) :
    Ignored w (firstPass cfg rng regs w).2 := by
  unfold firstPass
  apply Ignored.dropSimulators
  cases hBth : w.hdr.ibBth with
  | none =>
    have hAct : cfg.workerBitmapAction { w with pass := (debugPacketId regs w.pass).2 } =
        .forward := hUdp hBth
    simp only [debugPacketId] at hAct
    simp only [debugPacketId, hAct]
    exact ⟨_, _, _, rfl, rfl⟩
  | some bth =>
    have hAct := hRoce (by simp [hBth])
    simp only [Option.isSome_some, if_true, rdmaReceiver]
    cases hPacket : rocePacket w.hdr with
    | none => exact ⟨_, _, _, rfl, rfl⟩
    | some rp =>
      have hLookup : lookup .forward (receiveKey rp) (receiveRoceEntries cfg.workers) =
          .forward := by simpa [receiveRoceAction, hPacket] using hAct
      simp only [SwitchML.rdmaReceiver, hLookup, ReceiveAction.run, hAct, keptHeaders]
      exact ⟨_, _, _, rfl, rfl⟩

/-- No later control looks at a packet known not to be SwitchML's, and the `forward`
table sees the headers it came with. -/
theorem sharedPass_ignored {cfg : WireConfig} {regs : Registers} {w w' : IngressState}
    (h : Ignored w w') (hDrop : w.pass.dropCtl = false)
    (hArp : cfg.arpAndIcmpAction w = .noAction) {act : ForwardAction}
    (hForward : cfg.forwardAction w = some act) :
    (sharedPass cfg regs w').2 = act.run w' := by
  have hCheck : checkSlot regs w'.pass = (regs, w'.pass) := by
    simp [checkSlot, h.packetType_eq]
  have hCode : ¬ PacketType.code (.consume 0) ≤ w'.pass.md.packetType.code := by
    simp [h.packetType_eq, PacketType.code]
  have hArp' : cfg.arpAndIcmpAction w' = .noAction := by
    rw [← hArp, WireConfig.arpAndIcmpAction, WireConfig.arpAndIcmpAction, h.hdr_eq]
  have hForward' : cfg.forwardAction w' = some act := by
    rw [← hForward, WireConfig.forwardAction, WireConfig.forwardAction, h.hdr_eq]
  simp only [sharedPass, hCheck, h.dropCtl_eq, hDrop, if_neg hCode, forwardPass, hArp',
    ArpAndIcmpAction.run, hForward']
  rfl

theorem ingressApply_ignored {cfg : WireConfig} (rng : Rng) (regs : Registers)
    {w : IngressState} (hDrop : w.pass.dropCtl = false)
    (hType : w.pass.md.packetType = .ignore ∨ w.pass.md.packetType = .consume 0 ∧
      (w.hdr.ibBth.isSome → receiveRoceAction cfg.workers w.hdr = .forward) ∧
      (w.hdr.ibBth = none → cfg.workerBitmapAction w = .forward))
    (hArp : cfg.arpAndIcmpAction w = .noAction) {act : ForwardAction}
    (hForward : cfg.forwardAction w = some act) :
    ∃ w', Ignored w w' ∧ (ingressApply cfg rng regs w).2 = act.run w' := by
  rcases hType with hType | ⟨hType, hRoce, hUdp⟩
  · refine ⟨w, .of_ignore hType, ?_⟩
    rw [ingressApply, if_neg (by simp [hType]), if_neg (by simp [hType, PacketType.code])]
    exact sharedPass_ignored (.of_ignore hType) hDrop hArp hForward
  · have hFirst := firstPass_ignored rng regs hRoce hUdp
    refine ⟨_, hFirst, ?_⟩
    rw [ingressApply, if_pos hType]
    exact sharedPass_ignored hFirst hDrop hArp hForward

-- ---------------------------------------------------------------------------
-- What goes out
-- ---------------------------------------------------------------------------

/-- Of the metadata, a forwarding action takes back only `switchml_md` and the RDMA
metadata. -/
theorem output_run_ignored {w w' : IngressState} (h : Ignored w w')
    (hUcast : w.pass.ucastEgressPort = none) (hMcast : w.pass.mcastGrpA = none)
    (hUdpMd : w.udpMd = none) (act : ForwardAction) :
    (act.run w').output = some (act.output w.pass.ingressPort
      ((if w.exponentsMdValid then switchmlExponentsMdH.encode w.pass.exponents else []) ++
        w.wire)) := by
  obtain ⟨md, _, _, -, rfl⟩ := h
  cases act with
  | setEgressPort egressPort =>
    simp [ForwardAction.run, IngressState.output, ForwardAction.output, hMcast,
      ingressDeparser, IngressState.metadata, IngressState.wire, hUdpMd, dataHeaders]
  | flood floodMgid =>
    simp [ForwardAction.run, IngressState.output, ForwardAction.output, hUcast,
      ingressDeparser, IngressState.metadata, IngressState.wire, hUdpMd, dataHeaders]

/-- **What goes out of a packet that is not SwitchML's.** Take any packet that the parser
accepts on a front-panel port, that misses in the tables of the switch's own traffic, and
whose destination is in the `forward` table. It goes to the port or the flood group of the
table, with the exponents metadata in front if it was parsed as RoCEv2. -/
theorem ingressPass_forwarded (cfg : WireConfig) (rng : Rng) (regs : Registers)
    {port : PortId} (hPort : frontPanel port = true) {bits : Bits} {w : IngressState}
    (hParse : ingressParser cfg.toSwitchConfig port bits = some w)
    (hMiss : cfg.NotForSwitchml w) {act : ForwardAction}
    (hForward : cfg.forwardAction w = some act) :
    (ingressPass cfg rng port bits regs).2.bind IngressState.output =
      some (act.output port
        ((if w.hdr.ibBth.isSome then switchmlExponentsMdH.encode {} else []) ++ bits)) := by
  rw [ingressPass_of_parse hParse, Option.bind_some]
  obtain ⟨hArp, hRoce, hUdp⟩ := hMiss
  cases ingressParser_cases (isRecirculationPort_frontPanel hPort) hParse with
  | other hdr rest hEth hUdpPort hBth hSwitchml hExponents hBits =>
    obtain ⟨w', hIgnored, hApply⟩ := ingressApply_ignored rng regs rfl
      (.inl rfl) hArp hForward
    rw [hApply, output_run_ignored hIgnored rfl rfl rfl]
    have hWire : bits = hdr.front ++ rest := hBits
    simp [acceptNonSwitchml, start, IngressState.wire, dataHeaders, hExponents, hWire, hBth]
  | switchml ethernet ipv4 udp switchml exponents d0 d1 rest _ hUdpPort hEnd hBits =>
    subst hEnd
    obtain ⟨w', hIgnored, hApply⟩ := ingressApply_ignored rng regs rfl
      (.inr ⟨rfl, hRoce, fun _ => hUdp rfl⟩) hArp hForward
    rw [hApply, output_run_ignored hIgnored rfl rfl rfl, ← hBits]
    rfl
  | roce ethernet ipv4 udp bth reth immediate d0 d1 hasData rest _ hUdpPort hImmediate hEnd
      hBits =>
    subst hEnd
    obtain ⟨w', hIgnored, hApply⟩ := ingressApply_ignored rng regs rfl
      (.inr ⟨rfl, hRoce, fun h => by simp at h⟩) hArp hForward
    rw [hApply, output_run_ignored hIgnored rfl rfl rfl, ← hBits]
    rfl

/-- A packet from outside is parsed as RoCEv2 if it is to the RoCEv2 port. -/
theorem ibBth_isSome_iff {cfg : SwitchConfig} {port : PortId} (hPort : frontPanel port = true)
    {bits : Bits} {w : IngressState} (hParse : ingressParser cfg port bits = some w) :
    w.hdr.ibBth.isSome ↔ ∃ udp ∈ w.hdr.udp, udp.dstPort = udpPortRoceV2 := by
  cases ingressParser_cases (isRecirculationPort_frontPanel hPort) hParse with
  | other hdr rest hEth hUdpPort hBth hSwitchml hExponents hBits =>
    refine iff_of_false (by simp [acceptNonSwitchml, hBth]) ?_
    rintro ⟨udp, hUdp, hEq⟩
    exact hUdpPort udp hUdp hEq
  | switchml ethernet ipv4 udp switchml exponents d0 d1 rest _ hUdpPort hEnd hBits =>
    subst hEnd
    exact iff_of_false (by simp) (by simpa using hUdpPort)
  | roce ethernet ipv4 udp bth reth immediate d0 d1 hasData rest _ hUdpPort hImmediate hEnd
      hBits =>
    subst hEnd
    exact iff_of_true rfl ⟨udp, rfl, hUdpPort⟩

theorem ForwardAction.output_inj {act : ForwardAction} {port : PortId} {bits bits' : Bits} :
    act.output port bits = act.output port bits' ↔ bits = bits' := by
  cases act <;> simp [ForwardAction.output]

/-- The exponents metadata is two bytes. -/
theorem exponentsMd_append_ne (exponents : ExponentsMd) (bits : Bits) :
    switchmlExponentsMdH.encode exponents ++ bits ≠ bits := by
  intro h
  have hLen := congrArg List.length h
  have hWidth : switchmlExponentsMdH.width = 16 := rfl
  rw [List.length_append, Codec.length_encode] at hLen
  omega

/-- **Traffic that is not SwitchML's is forwarded bit for bit unless it is RoCEv2.** Of a
packet as in `ingressPass_forwarded`, the bits that go out are those that came in if and
only if it is not to the RoCEv2 port. -/
theorem forwarded_unchanged_iff (cfg : WireConfig) (rng : Rng) (regs : Registers)
    {port : PortId} (hPort : frontPanel port = true) {bits : Bits} {w : IngressState}
    (hParse : ingressParser cfg.toSwitchConfig port bits = some w)
    (hMiss : cfg.NotForSwitchml w) {act : ForwardAction}
    (hForward : cfg.forwardAction w = some act) :
    (ingressPass cfg rng port bits regs).2.bind IngressState.output =
        some (act.output port bits) ↔
      ¬ ∃ udp ∈ w.hdr.udp, udp.dstPort = udpPortRoceV2 := by
  rw [ingressPass_forwarded cfg rng regs hPort hParse hMiss hForward, Option.some.injEq,
    ForwardAction.output_inj, ← ibBth_isSome_iff hPort hParse]
  split
  · next hRoce => exact iff_of_false (exponentsMd_append_ne {} bits) (not_not_intro hRoce)
  · next hRoce => exact iff_of_true rfl hRoce

/-- A switch that knows no worker. -/
def WireConfig.forwarding (forward : BitVec 48 → Option ForwardAction) : WireConfig where
  workers := []
  forward := forward
  workers_type := noWorkers_type
  udpWorkers_type := noUdpWorkers_type
  alternate_pipe := noAlternate_pipe

/-- An ARP request for another host is flooded as it is. -/
theorem forwarded_unchanged_arp :
    let cfg := WireConfig.forwarding fun mac => if mac = -1 then some (.flood 7) else none
    let bits := ethernetH.encode { dstAddr := -1, srcAddr := 2, etherType := ethertypeArp } ++
      arpH.encode { hwType := 1, protoType := ethertypeIpv4, opcode := 1 } ++
      arpIpv4H.encode { dstProtoAddr := 3 }
    (ingressPass cfg {} 5 bits {}).2.bind IngressState.output =
      some ((ForwardAction.flood 7).output 5 bits) := by
  intro cfg bits
  have hParse : (ingressParser cfg.toSwitchConfig 5 bits).isSome = true := by decide +kernel
  obtain ⟨w, hParse⟩ := Option.isSome_iff_exists.mp hParse
  have hFacts : ∀ w' ∈ ingressParser cfg.toSwitchConfig 5 bits, cfg.NotForSwitchml w' ∧
      cfg.forwardAction w' = some (.flood 7) ∧ w'.hdr.udp = none := by decide +kernel
  obtain ⟨hMiss, hForward, hUdp⟩ := hFacts w hParse
  refine (forwarded_unchanged_iff cfg {} {} (by decide) hParse hMiss hForward).mpr ?_
  simp [hUdp]

/-- A middle packet of a RoCEv2 message, as it is parsed. -/
theorem ingressParser_roceMiddle (cfg : SwitchConfig) (port : PortId) (ethernet : Ethernet)
    (ipv4 : Ipv4) (udp : Udp) (bth : IbBth) (d0 d1 : Data) (rest : Bits)
    (hPort : isRecirculationPort port = false) (hEth : ethernet.etherType = ethertypeIpv4)
    (hIpv4 : ipv4.ihl = 5 ∧ ipv4.fragOffset = 0 ∧ ipv4.protocol = ipProtocolUdp)
    (hUdp : udp.dstPort = udpPortRoceV2)
    (hOpcode : IbOpcode.ofBits bth.opcode = some .rdmaWriteMiddle) :
    ingressParser cfg port (ethernetH.encode ethernet ++ (ipv4H.encode ipv4 ++
        (udpH.encode udp ++ (ibBthH.encode bth ++ (dataH.encode d0 ++
          (dataH.encode d1 ++ rest)))))) =
      some { start cfg port rest with
        hdr := {
          ethernet := some ethernet, ipv4 := some ipv4, udp := some udp, ibBth := some bth }
        mdValid := true, rdmaMdValid := true, exponentsMdValid := true
        pass := { (start cfg port rest).pass with
          md := { packetType := .consume 0, ibSolicited := bth.se }
          d0 := d0, d1 := d1, d0Valid := true, d1Valid := true } } := by
  obtain ⟨hIhl, hFrag, hProto⟩ := hIpv4
  simp [ingressParser, hPort, start, parseEthernet, hEth, ethertypeIpv4, ethertypeArp,
    parseIpv4, hIhl, hFrag, hProto, ipProtocolUdp, ipProtocolIcmp, parseUdp, hUdp, parseIbBth,
    hOpcode, parseIbPayload]

/-- A RoCEv2 packet that is not for the switch leaves it with two zero bytes in front. -/
theorem roce_forwarded_with_metadata :
    let cfg := WireConfig.forwarding fun mac => if mac = 1 then some (.setEgressPort 4) else none
    let bits := ethernetH.encode { dstAddr := 1, srcAddr := 2, etherType := ethertypeIpv4 } ++
      (ipv4H.encode { version := 4, ihl := 5, protocol := ipProtocolUdp } ++
      (udpH.encode { dstPort := udpPortRoceV2 } ++ (ibBthH.encode { opcode := 0b00100111 } ++
      (dataH.encode (fun _ => 0) ++ (dataH.encode (fun _ => 0) ++ [])))))
    frontPanel 5 = true ∧
      (∃ w, ingressParser cfg.toSwitchConfig 5 bits = some w ∧ cfg.NotForSwitchml w ∧
        cfg.forwardAction w = some (.setEgressPort 4)) ∧
      (ingressPass cfg {} 5 bits {}).2.bind IngressState.output =
        some ((ForwardAction.setEgressPort 4).output 5 (List.replicate 16 false ++ bits)) ∧
      List.replicate 16 false ++ bits ≠ bits := by
  intro cfg bits
  have hParse := ingressParser_roceMiddle cfg.toSwitchConfig 5
    { dstAddr := 1, srcAddr := 2, etherType := ethertypeIpv4 }
    { version := 4, ihl := 5, protocol := ipProtocolUdp } { dstPort := udpPortRoceV2 }
    { opcode := 0b00100111 } (fun _ => 0) (fun _ => 0) [] rfl rfl ⟨rfl, rfl, rfl⟩ rfl rfl
  refine ⟨rfl, ⟨_, hParse, ⟨rfl, fun _ => rfl, by simp [start]⟩, rfl⟩, ?_,
    exponentsMd_append_ne {} bits⟩
  exact ingressPass_forwarded cfg {} {} rfl hParse ⟨rfl, fun _ => rfl, by simp [start]⟩ rfl

end SwitchML.Wire
