import SwitchML.Switch.ReceiverSpec
import SwitchML.Wire.PacketId

/-!
# SwitchML wire format — simulated ingress drops

`IngressDropSimulator` picks packets to drop at random, to test the recovery from loss.
The drop takes place in `update_and_check_worker_bitmap`, behind the receive stage; for a
RoCE packet the register of its queue pair has been written by then.

* `simulated_drop_is_loss_iff` — a packet that is made to be dropped has no effect, then
  and in any later run, if and only if it is a SwitchML-UDP packet or a first packet that
  the queue pair received last;
* `dropped_first_packet_remembered` — the last packet of a message whose first one was
  dropped this way is aggregated; it would be rejected had the first one been lost.
-/

namespace SwitchML

open MatchAction

-- ---------------------------------------------------------------------------
-- The stages of the pass
-- ---------------------------------------------------------------------------

/-- A packet marked for dropping is dropped before any register of its slot changes. -/
theorem checkSlot_simulateDrop (regs : Registers) {st : PassState}
    (hType : st.md.packetType = .consume 0) (hDrop : st.ingressDropProbability = 0xffff) :
    (checkSlot regs st).1 = regs ∧ (checkSlot regs st).2.dropCtl = true ∧
      (checkSlot regs st).2.copyToCpu = st.copyToCpu := by
  cases hCtl : st.dropCtl with
  | true => simp [checkSlot, hCtl]
  | false =>
    have hBitmap : updateAndCheckWorkerBitmap regs st =
        (regs, { st with dropCtl := true, md := { st.md with packetType := .ignore } }) := by
      have hRow : lookup .noAction ⟨st.md.poolIndex, .consume 0, 0xffff⟩
          updateAndCheckWorkerBitmapEntries = .simulateDrop := by
        simp [updateAndCheckWorkerBitmapEntries, lookup_cons, bitmapRow]
      unfold updateAndCheckWorkerBitmap
      rw [hType, hDrop, hRow]
    have hCount : ∀ s : PassState, s.md.packetType = .ignore →
        countWorkers regs s = (regs, s) := by
      intro s hs
      have hRange : List.finRange 4 = [0, 1, 2, 3] := rfl
      have hMiss : lookup .noAction ⟨s.md.numWorkers, s.mapResult, .ignore⟩
          countWorkersEntries = .noAction := by
        simp [countWorkersEntries, countRows, hRange, lookup_cons]
      unfold countWorkers
      rw [hs, hMiss]
    simp [checkSlot, hCtl, hType, hBitmap, hCount]

/-- The value a first packet of a message leaves in the register of its queue pair. -/
def RocePacket.received (rp : RocePacket) : ReceiverData :=
  (receiverResetAction rp.psn rp.reth.rKey {}).1

/-- Every other packet of a message moves the register on, or marks it. -/
theorem receiverIncrementAction_stays {psn : BitVec 24} {value : ReceiverData}
    (h : (receiverIncrementAction psn value).1 = value) :
    (receiverIncrementAction psn value).2.getLsbD 31 = true := by
  by_cases hPsn : psn.zeroExtend 32 = value.nextSequenceNumber
  · have hNext := congrArg ReceiverData.nextSequenceNumber h
    simp only [receiverIncrementAction, hPsn, if_true] at hNext
    split at hNext
    · next hLast =>
      rw [hLast] at hNext
      exact absurd hNext (by decide)
    · exact absurd hNext (by simp)
  · simp only [receiverIncrementAction, hPsn, if_false]
    rfl

theorem unnumbered_update_receiverData_iff (regs : Registers) (qp : QueuePairIndex)
    (value : ReceiverData) :
    ({ regs with receiverData := Function.update regs.receiverData qp value } :
        Registers).unnumbered = regs.unnumbered ↔ value = regs.receiverData qp := by
  constructor
  · intro h
    have hData : Function.update regs.receiverData qp value = regs.receiverData :=
      congrArg Registers.receiverData h
    exact Function.update_eq_self_iff.mp hData
  · rintro rfl
    rw [Function.update_eq_self]

namespace Wire

open BitCodec Codec

/-- `IngressDropSimulator` marks a SwitchML packet in its `CONSUME0` pass. -/
def Marked (cfg : WireConfig) (rng : Rng) (regs : Registers) (w : IngressState) : Prop :=
  w.pass.md.packetType = .consume 0 ∧
  (firstPass cfg rng regs w).2.pass.md.packetType = .consume 0 ∧
  (firstPass cfg rng regs w).2.pass.ingressDropProbability = 0xffff

/-- The receive stage has nothing to write for the packet, and nothing to tell the CPU:
there is none for UDP, and a RoCE packet is the first of a message that the queue pair
received last. -/
def AlreadyReceived (regs : Registers) (hdr : HeaderStack) : Prop :=
  hdr.ibBth.isSome = true → ∃ rp ∈ rocePacket hdr, rp.opcode.isFirst = true ∧
    rp.reth.rKey.getLsbD 31 = false ∧ regs.receiverData (qpIndex rp.dstQp) = rp.received

instance (cfg : WireConfig) (rng : Rng) (regs : Registers) (w : IngressState) :
    Decidable (Marked cfg rng regs w) :=
  inferInstanceAs (Decidable (_ ∧ _ ∧ _))

instance (regs : Registers) (hdr : HeaderStack) : Decidable (AlreadyReceived regs hdr) :=
  inferInstanceAs (Decidable (_ → ∃ rp ∈ rocePacket hdr, _))

/-- The packet has no effect but on packet numbers: no protocol register changes, nothing
is emitted, and every later run is that without the packet. -/
structure LikeLoss (cfg : WireConfig) (rng : Rng) (port : PortId) (bits : Bits)
    (s : SwitchState) : Prop where
  registers : ∀ i, ((s.step cfg (.arrive rng port bits)).regs i).unnumbered =
    (s.regs i).unnumbered
  silent : (s.step cfg (.arrive rng port bits)).sent = s.sent
  later : ∀ inputs, (s.run cfg (.arrive rng port bits :: inputs)).unnumbered =
    (s.run cfg inputs).unnumbered

theorem dropSimulators_copyToCpu (rng : Rng) (w : IngressState) :
    (dropSimulators rng w).pass.copyToCpu = w.pass.copyToCpu ∧
      (dropSimulators rng w).pass.md.packetType = w.pass.md.packetType := by
  obtain ⟨p, hIngress⟩ := ingressDropSimulator_eq rng.ingress w.pass
  obtain ⟨q, drop, hEgress⟩ := egressDropSimulator_eq rng.egress
    (ingressDropSimulator rng.ingress w.pass)
  unfold dropSimulators
  rw [hEgress, hIngress]
  exact ⟨rfl, rfl⟩

/-- What a marked packet leaves behind is what the receive stage wrote. -/
theorem ingressApply_marked {cfg : WireConfig} {rng : Rng} {regs : Registers}
    {w : IngressState} (h : Marked cfg rng regs w) :
    (ingressApply cfg rng regs w).1 = (firstPass cfg rng regs w).1 ∧
      (ingressApply cfg rng regs w).2.leaves = (firstPass cfg rng regs w).2.pass.copyToCpu := by
  obtain ⟨hFirst, hType, hDrop⟩ := h
  obtain ⟨hRegs, hCtl, hCopy⟩ := checkSlot_simulateDrop (firstPass cfg rng regs w).1 hType hDrop
  simp [ingressApply, hFirst, sharedPass, hCtl, hRegs, IngressState.leaves, hCopy]

/-- The receive stage of a packet that it recognises. -/
theorem receiveStage_cases {cfg : WireConfig} {regs : Registers} {w : IngressState}
    (hType : (receiveStage cfg regs w).2.pass.md.packetType = .consume 0) :
    (w.hdr.ibBth.isSome = false ∧ (receiveStage cfg regs w).1 = regs ∧
      (receiveStage cfg regs w).2.pass.copyToCpu = w.pass.copyToCpu) ∨
    w.hdr.ibBth.isSome = true ∧ ∃ rp, rocePacket w.hdr = some rp ∧
      (let read := receiverAction rp (regs.receiverData (qpIndex rp.dstQp))
       (receiveStage cfg regs w).1 = { regs with
          receiverData := Function.update regs.receiverData (qpIndex rp.dstQp) read.1 } ∧
        (receiveStage cfg regs w).2.pass.copyToCpu =
          (w.pass.copyToCpu || read.2.getLsbD 31)) := by
  cases hBth : w.hdr.ibBth.isSome with
  | false =>
    have hStage : receiveStage cfg regs w = (regs, (cfg.workerBitmapAction w).run w) := by
      simp [receiveStage, hBth]
    rw [hStage] at hType ⊢
    cases hAct : cfg.workerBitmapAction w with
    | setBitmap args => exact .inl ⟨rfl, rfl, rfl⟩
    | drop | forward => simp [hAct, WorkerBitmapAction.run] at hType
  | true =>
    have hStage : receiveStage cfg regs w = rdmaReceiver cfg.workers regs w := by
      simp [receiveStage, hBth]
    rw [hStage] at hType ⊢
    cases hRead : rocePacket w.hdr with
    | none => simp [rdmaReceiver, hRead] at hType
    | some rp =>
      refine .inr ⟨rfl, rp, rfl, ?_⟩
      obtain hMiss | ⟨hOp, e, -, hHit⟩ := lookup_receiveRoce_cases cfg.workers rp
      · simp [rdmaReceiver, hRead, SwitchML.rdmaReceiver, hMiss, ReceiveAction.run] at hType
      · have hFields := receiveFields_eq e.args rp w.pass
        simp only [rdmaReceiver, hRead, SwitchML.rdmaReceiver, hHit,
          receiveAction_run _ _ _ hOp, assignPoolIndex, hFields, and_self]

theorem ingressParser_copyToCpu {cfg : SwitchConfig} {port : PortId} {bits : Bits}
    {w : IngressState} (h : ingressParser cfg port bits = some w) :
    w.pass.copyToCpu = false := by
  cases hPort : isRecirculationPort port with
  | false => cases ingressParser_cases hPort h with
    | other => rfl
    | switchml _ _ _ _ _ _ _ _ _ _ hEnd => rw [hEnd]; rfl
    | roce _ _ _ _ _ _ _ _ _ _ _ _ _ hEnd => rw [hEnd]; rfl
  | true =>
    rw [ingressParser, if_pos hPort] at h
    obtain ⟨w₁, d0, d1, rest, hMetadata, rfl⟩ := parseRecirculate_cases h
    obtain ⟨md, _, exponents, _, -, hWorker⟩ := parseMetadata_cases hMetadata
    rcases hWorker with ⟨-, rdmaMd, rfl⟩ | ⟨-, udpMd, rfl⟩ <;> rfl

/-- No effect at all is no effect on the registers and on what is sent: the rest follows. -/
theorem likeLoss_iff {cfg : WireConfig} {rng : Rng} {s : SwitchState} {port : PortId}
    {bits : Bits} {w : IngressState}
    (hParse : ingressParser cfg.toSwitchConfig port bits = some w) :
    LikeLoss cfg rng port bits s ↔
      (ingressApply cfg rng (s.regs (pipeOf port)) w).1.unnumbered =
          (s.regs (pipeOf port)).unnumbered ∧
        (ingressApply cfg rng (s.regs (pipeOf port)) w).2.leaves = false := by
  have hStep : s.step cfg (.arrive rng port bits) = _ := SwitchState.pass_of_parse hParse
  constructor
  · intro h
    have hRegs := h.registers (pipeOf port)
    have hSent := h.silent
    rw [hStep] at hRegs hSent
    refine ⟨by simpa using hRegs, ?_⟩
    by_contra hLeaves
    simp [hLeaves] at hSent
  · rintro ⟨hRegs, hLeaves⟩
    have hAll : ∀ i, ((s.step cfg (.arrive rng port bits)).regs i).unnumbered =
        (s.regs i).unnumbered := by
      intro i
      rw [hStep]
      by_cases hi : i = pipeOf port
      · subst hi
        simpa using hRegs
      · simp [hi]
    have hSent : (s.step cfg (.arrive rng port bits)).sent = s.sent := by
      rw [hStep]
      simp [hLeaves]
    refine ⟨hAll, hSent, fun inputs => ?_⟩
    refine SwitchState.run_unnumbered ?_ inputs
    exact congrArg₂ SwitchState.mk (funext hAll) (by rw [hSent])

/-- **When a simulated drop is a loss.** -/
theorem simulated_drop_is_loss_iff (cfg : WireConfig) (rng : Rng) (s : SwitchState)
    {port : PortId} {bits : Bits} {w : IngressState}
    (hParse : ingressParser cfg.toSwitchConfig port bits = some w)
    (hMarked : Marked cfg rng (s.regs (pipeOf port)) w) :
    LikeLoss cfg rng port bits s ↔ AlreadyReceived (s.regs (pipeOf port)) w.hdr := by
  obtain ⟨hRegs, hLeaves⟩ := ingressApply_marked hMarked
  rw [likeLoss_iff hParse, hRegs, hLeaves]
  generalize s.regs (pipeOf port) = regs at hMarked ⊢
  have hType := hMarked.2.1
  rw [firstPass_eq] at hType ⊢
  dsimp only at hType ⊢
  rw [(dropSimulators_copyToCpu _ _).2] at hType
  rw [(dropSimulators_copyToCpu _ _).1]
  have hCopy := ingressParser_copyToCpu hParse
  obtain ⟨hBth, hStage, hCpu⟩ | ⟨hBth, rp, hRead, hStage, hCpu⟩ := receiveStage_cases hType
  · rw [hStage, hCpu]
    refine iff_of_true ⟨rfl, hCopy⟩ fun hSome => ?_
    rw [hBth] at hSome
    cases hSome
  · have hSame : (receiveStage cfg (debugPacketId regs w.pass).1
          { w with pass := (debugPacketId regs w.pass).2 }).1.unnumbered = regs.unnumbered ↔
        (receiverAction rp (regs.receiverData (qpIndex rp.dstQp))).1 =
          regs.receiverData (qpIndex rp.dstQp) := by
      rw [hStage]
      exact unnumbered_update_receiverData_iff (debugPacketId regs w.pass).1 _ _
    have hQuiet : (w.pass.copyToCpu ||
          (receiverAction rp (regs.receiverData (qpIndex rp.dstQp))).2.getLsbD 31) = false ↔
        (receiverAction rp (regs.receiverData (qpIndex rp.dstQp))).2.getLsbD 31 = false := by
      rw [hCopy, Bool.false_or]
    rw [hSame, hCpu]
    refine (and_congr_right' hQuiet).trans ?_
    simp only [AlreadyReceived, hBth, forall_const, hRead, Option.mem_some_iff,
      exists_eq_left']
    cases hFirst : rp.opcode.isFirst with
    | true =>
      simp only [receiverAction, hFirst, if_true, true_and]
      exact and_comm.trans (and_congr_right' eq_comm)
    | false =>
      simp only [receiverAction, hFirst, Bool.false_eq_true, if_false, false_and, iff_false]
      rintro ⟨hStays, hClear⟩
      rw [receiverIncrementAction_stays hStays] at hClear
      cases hClear

/-- One RoCE worker, and ports that drop some of the packets. -/
def WireConfig.dropping : WireConfig where
  workers := [{
    workerIp := 1, switchIp := 2, switchPartitionKey := 0xffff, workerRid := 0
    args := {
      mgid := 1, workerType := .roceV2, workerId := 0, numWorkers := 1, workerBitmap := 1
      packetSize := .mtu256 } }]
  ingressDropProbability := fun _ => 1
  workers_type := by simp
  udpWorkers_type := noUdpWorkers_type
  alternate_pipe := noAlternate_pipe

/-- A packet of the worker's first message, which has two. -/
def writePacket (opcode : BitVec 8) (psn : BitVec 24) (reth : Option IbReth) : Bits :=
  ethernetH.encode { etherType := ethertypeIpv4 } ++
    (ipv4H.encode { ihl := 5, protocol := ipProtocolUdp, srcAddr := 1, dstAddr := 2 } ++
    (udpH.encode { dstPort := udpPortRoceV2 } ++
    (ibBthH.encode { opcode := opcode, partitionKey := 0xffff, dstQp := 0x800000, psn := psn } ++
    (emit ibRethH reth ++ (dataH.encode (fun _ => 7) ++ dataH.encode (fun _ => 8))))))

def writeFirst : Bits := writePacket 0b00100110 0 (some {})
def writeLast : Bits := writePacket 0b00101000 1 none

theorem writeFirst_parses :
    (ingressParser WireConfig.dropping.toSwitchConfig 0 writeFirst).isSome = true := by
  decide +kernel

/-- A first packet that comes once more right behind itself. -/
theorem simulated_drop_of_repeated_first :
    let s : SwitchState := { regs := fun _ => { receiverData := fun _ => ⟨1, 0⟩ } }
    (∃ w, ingressParser WireConfig.dropping.toSwitchConfig 0 writeFirst = some w ∧
      Marked .dropping ⟨0xffff, 0⟩ (s.regs 0) w) ∧
    LikeLoss .dropping ⟨0xffff, 0⟩ 0 writeFirst s := by
  intro s
  obtain ⟨w, hParse⟩ := Option.isSome_iff_exists.mp writeFirst_parses
  have hFacts : ∀ w' ∈ ingressParser WireConfig.dropping.toSwitchConfig 0 writeFirst,
      Marked .dropping ⟨0xffff, 0⟩ (s.regs 0) w' ∧ AlreadyReceived (s.regs 0) w'.hdr := by
    decide +kernel
  obtain ⟨hMarked, hReceived⟩ := hFacts w hParse
  exact ⟨⟨w, hParse, hMarked⟩,
    (simulated_drop_is_loss_iff .dropping ⟨0xffff, 0⟩ s hParse hMarked).mpr hReceived⟩

/-- The first of two packets is dropped and yet remembered: the other one is aggregated in
the second slot, in which nothing would have been received had the first one been lost. -/
theorem dropped_first_packet_remembered :
    let s : SwitchState := { regs := fun _ => {} }
    (∃ w, ingressParser WireConfig.dropping.toSwitchConfig 0 writeFirst = some w ∧
      Marked .dropping ⟨0xffff, 0⟩ (s.regs 0) w) ∧
    ¬ LikeLoss .dropping ⟨0xffff, 0⟩ 0 writeFirst s ∧
    ((s.run .dropping [.arrive ⟨0xffff, 0⟩ 0 writeFirst, .arrive {} 0 writeLast]).regs
      0).workerBitmap 1 = ⟨1, 0⟩ ∧
    ((s.run .dropping [.arrive {} 0 writeLast]).regs 0).workerBitmap 1 = ⟨0, 0⟩ := by
  intro s
  obtain ⟨w, hParse⟩ := Option.isSome_iff_exists.mp writeFirst_parses
  have hMarked : ∀ w' ∈ ingressParser WireConfig.dropping.toSwitchConfig 0 writeFirst,
      Marked .dropping ⟨0xffff, 0⟩ (s.regs 0) w' := by decide +kernel
  have hDropped : ((s.run .dropping [.arrive ⟨0xffff, 0⟩ 0 writeFirst,
      .arrive {} 0 writeLast]).regs 0).workerBitmap 1 = ⟨1, 0⟩ := by decide +kernel
  have hLost : ((s.run .dropping [.arrive {} 0 writeLast]).regs 0).workerBitmap 1 = ⟨0, 0⟩ := by
    decide +kernel
  refine ⟨⟨w, hParse, hMarked w hParse⟩, fun h => ?_, hDropped, hLost⟩
  have hBitmap : ∀ {a b : SwitchState}, a.unnumbered = b.unnumbered →
      (a.regs 0).workerBitmap 1 = (b.regs 0).workerBitmap 1 :=
    congrArg fun s : SwitchState => (s.regs 0).workerBitmap 1
  have hLater := hBitmap (h.later [.arrive {} 0 writeLast])
  rw [hDropped, hLost] at hLater
  exact absurd hLater (by decide)

end Wire

end SwitchML
