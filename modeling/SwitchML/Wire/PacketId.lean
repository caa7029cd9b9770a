import SwitchML.Switch.Pass
import SwitchML.Wire.Ingress

/-!
# SwitchML wire format — packet numbers and runs of the switch

`DebugPacketId` numbers the packets that come in from outside, for the packet log. The
number travels in the metadata of a packet, and its counter is a register; no control
reads either. So two runs of the switch that differ in the numbers alone stay that way:

* `Blind` — a control does the same to the rest of the state whatever the numbers are;
* `SwitchState`, `SwitchState.run` — the four pipes and the packets between two passes,
  through any arrivals from outside and any order of recirculations;
* `SwitchState.run_unnumbered` — what a run does depends on nothing but the state without
  the numbers.
-/

namespace SwitchML

open MatchAction

-- ---------------------------------------------------------------------------
-- State without packet numbers
-- ---------------------------------------------------------------------------

/-- The protocol registers: all but the counter of `DebugPacketId`. -/
def Registers.unnumbered (regs : Registers) : Registers := { regs with packetId := 0 }

def PassState.unnumbered (st : PassState) : PassState :=
  { st with md := { st.md with debugPacketId := 0 } }

/-- A control that does not read packet numbers. -/
def Blind (f : Registers → PassState → Registers × PassState) : Prop :=
  ∀ regs st, f regs.unnumbered st.unnumbered =
    ((f regs st).1.unnumbered, (f regs st).2.unnumbered)

/-! ## The controls of a pass -/

theorem blind_updateAndCheckWorkerBitmap : Blind updateAndCheckWorkerBitmap := by
  intro regs st
  unfold updateAndCheckWorkerBitmap
  dsimp only [Registers.unnumbered, PassState.unnumbered]
  split <;> rfl

theorem blind_countWorkers : Blind countWorkers := by
  intro regs st
  unfold countWorkers
  dsimp only [Registers.unnumbered, PassState.unnumbered]
  split <;> rfl

theorem blind_exponentMax : Blind exponentMax := by
  intro regs st
  unfold exponentMax
  dsimp only [Registers.unnumbered, PassState.unnumbered]
  split <;> rfl

theorem blind_significandSums : Blind significandSums := fun _ _ => rfl

theorem blind_sequenceNumberAssignment : Blind sequenceNumberAssignment := fun _ _ => rfl

theorem nextStepAction_run_unnumbered (alternate : Option PortId) (act : NextStepAction)
    (st : PassState) : act.run alternate st.unnumbered = (act.run alternate st).unnumbered := by
  cases act <;> rfl

theorem nextStep_unnumbered (alternate : Option PortId) (st : PassState) :
    nextStep alternate st.unnumbered = (nextStep alternate st).unnumbered := by
  have hKey : nextStepKey alternate st.unnumbered = nextStepKey alternate st := rfl
  unfold nextStep
  rw [hKey, nextStepAction_run_unnumbered]
  rfl

theorem reconstructWorkerBitmap_unnumbered (st : PassState) :
    reconstructWorkerBitmap st.unnumbered = (reconstructWorkerBitmap st).unnumbered := by
  rw [reconstructWorkerBitmap_fields, reconstructWorkerBitmap_fields]
  rfl

theorem blind_checkSlot : Blind checkSlot := by
  intro regs st
  have hDrop : st.unnumbered.dropCtl = st.dropCtl := rfl
  have hType : st.unnumbered.md.packetType = st.md.packetType := rfl
  unfold checkSlot
  rw [hDrop, hType]
  split
  · rw [blind_updateAndCheckWorkerBitmap]
    exact blind_countWorkers _ _
  · rfl

theorem blind_processSlot (cfg : SwitchConfig) : Blind (processSlot cfg) := by
  intro regs st
  have hLast : st.unnumbered.md.lastPacketOfMessage = st.md.lastPacketOfMessage := rfl
  obtain ⟨r, hr⟩ : ∃ r, (if st.md.lastPacketOfMessage then exponentMax regs st
      else (regs, st)) = r := ⟨_, rfl⟩
  have hExponents : (if st.md.lastPacketOfMessage then
        exponentMax regs.unnumbered st.unnumbered else (regs.unnumbered, st.unnumbered)) =
      (r.1.unnumbered, r.2.unnumbered) := by
    subst hr
    split
    · exact blind_exponentMax regs st
    · rfl
  unfold processSlot
  rw [hLast, hExponents, hr]
  dsimp only
  rw [blind_significandSums, nextStep_unnumbered]
  have hStarts : ∀ s : PassState, startsHarvest s.unnumbered = startsHarvest s := fun _ => rfl
  rw [hStarts]
  split
  · exact blind_sequenceNumberAssignment _ _
  · rfl

theorem receiveAction_run_unnumbered (act : ReceiveAction) (rp : RocePacket) :
    Blind fun regs st => act.run rp regs st := by
  intro regs st
  cases act <;> rfl

theorem ingressDropSimulator_unnumbered (rng : DropProbability) (st : PassState) :
    ingressDropSimulator rng st.unnumbered = (ingressDropSimulator rng st).unnumbered := by
  have hProbability : st.unnumbered.ingressDropProbability = st.ingressDropProbability := rfl
  unfold ingressDropSimulator
  rw [hProbability]
  split <;> rfl

theorem egressDropSimulator_unnumbered (rng : DropProbability) (st : PassState) :
    egressDropSimulator rng st.unnumbered = (egressDropSimulator rng st).unnumbered := by
  have hProbability : st.unnumbered.egressDropProbability = st.egressDropProbability := rfl
  unfold egressDropSimulator
  rw [hProbability]
  split <;> rfl

namespace Wire

open BitCodec Codec

-- ---------------------------------------------------------------------------
-- An ingress pass
-- ---------------------------------------------------------------------------

def IngressState.unnumbered (w : IngressState) : IngressState :=
  { w with pass := w.pass.unnumbered }

/-- The outcome of a pass without the numbers. -/
def unnumbered (r : Registers × IngressState) : Registers × IngressState :=
  (r.1.unnumbered, r.2.unnumbered)

theorem rdmaReceiver_unnumbered (workers : List ReceiveEntry) (regs : Registers)
    (w : IngressState) : rdmaReceiver workers regs.unnumbered w.unnumbered =
      unnumbered (rdmaReceiver workers regs w) := by
  have hHdr : w.unnumbered.hdr = w.hdr := rfl
  unfold rdmaReceiver
  rw [hHdr]
  cases rocePacket w.hdr with
  | none => rfl
  | some rp =>
    have hRun := receiveAction_run_unnumbered
      (lookup .forward (receiveKey rp) (receiveRoceEntries workers)) rp regs w.pass
    dsimp only at hRun
    dsimp only [SwitchML.rdmaReceiver, IngressState.unnumbered]
    rw [hRun]
    rfl

theorem workerBitmapAction_unnumbered (act : WorkerBitmapAction) (w : IngressState) :
    act.run w.unnumbered = (act.run w).unnumbered := by
  cases act <;> rfl

theorem forwardPass_unnumbered (cfg : WireConfig) (w : IngressState) :
    forwardPass cfg w.unnumbered = (forwardPass cfg w).unnumbered := by
  have hArp : (cfg.arpAndIcmpAction w.unnumbered).run w.unnumbered =
      ((cfg.arpAndIcmpAction w).run w).unnumbered := by
    have hAct : cfg.arpAndIcmpAction w.unnumbered = cfg.arpAndIcmpAction w := rfl
    rw [hAct]
    cases cfg.arpAndIcmpAction w <;> rfl
  have hForward : ∀ w : IngressState, cfg.forwardAction w.unnumbered = cfg.forwardAction w :=
    fun _ => rfl
  unfold forwardPass
  rw [hArp]
  dsimp only
  rw [hForward]
  cases cfg.forwardAction ((cfg.arpAndIcmpAction w).run w) with
  | none => rfl
  | some act => cases act <;> rfl

theorem sharedPass_unnumbered (cfg : WireConfig) (regs : Registers) (w : IngressState) :
    sharedPass cfg regs.unnumbered w.unnumbered = unnumbered (sharedPass cfg regs w) := by
  have hPass : w.unnumbered.pass = w.pass.unnumbered := rfl
  unfold sharedPass
  rw [hPass, blind_checkSlot]
  dsimp only
  have hDrop : (checkSlot regs w.pass).2.unnumbered.dropCtl =
    (checkSlot regs w.pass).2.dropCtl := rfl
  have hType : (checkSlot regs w.pass).2.unnumbered.md.packetType =
    (checkSlot regs w.pass).2.md.packetType := rfl
  rw [hDrop, hType]
  split
  · rfl
  split
  · rw [blind_processSlot]
    rfl
  · exact congrArg (Prod.mk _)
      (forwardPass_unnumbered cfg { w with pass := (checkSlot regs w.pass).2 })

/-- The receive stage of a packet's protocol. -/
def receiveStage (cfg : WireConfig) (regs : Registers) (w : IngressState) :
    Registers × IngressState :=
  if w.hdr.ibBth.isSome then rdmaReceiver cfg.workers regs w
  else (regs, (cfg.workerBitmapAction w).run w)

def dropSimulators (rng : Rng) (w : IngressState) : IngressState :=
  { w with pass := egressDropSimulator rng.egress (ingressDropSimulator rng.ingress w.pass) }

theorem firstPass_eq (cfg : WireConfig) (rng : Rng) (regs : Registers) (w : IngressState) :
    firstPass cfg rng regs w =
      (let r := receiveStage cfg (debugPacketId regs w.pass).1
          { w with pass := (debugPacketId regs w.pass).2 }
       (r.1, dropSimulators rng r.2)) := rfl

theorem receiveStage_unnumbered (cfg : WireConfig) (regs : Registers) (w : IngressState) :
    receiveStage cfg regs.unnumbered w.unnumbered =
      unnumbered (receiveStage cfg regs w) := by
  have hBth : w.unnumbered.hdr.ibBth = w.hdr.ibBth := rfl
  have hAct : cfg.workerBitmapAction w.unnumbered = cfg.workerBitmapAction w := rfl
  unfold receiveStage
  rw [hBth, hAct]
  split
  · exact rdmaReceiver_unnumbered cfg.workers regs w
  · rw [workerBitmapAction_unnumbered]
    rfl

theorem dropSimulators_unnumbered (rng : Rng) (w : IngressState) :
    dropSimulators rng w.unnumbered = (dropSimulators rng w).unnumbered := by
  have hPass : w.unnumbered.pass = w.pass.unnumbered := rfl
  unfold dropSimulators
  rw [hPass, ingressDropSimulator_unnumbered, egressDropSimulator_unnumbered]
  rfl

/-- The numbers `DebugPacketId` gives are all that they come from. -/
theorem firstPass_unnumbered (cfg : WireConfig) (rng : Rng) (regs : Registers)
    (w : IngressState) :
    unnumbered (firstPass cfg rng regs w) =
      (let r := receiveStage cfg regs.unnumbered w.unnumbered
       (r.1, dropSimulators rng r.2)) := by
  have hStage := receiveStage_unnumbered cfg (debugPacketId regs w.pass).1
    { w with pass := (debugPacketId regs w.pass).2 }
  have hNumbers : receiveStage cfg (debugPacketId regs w.pass).1.unnumbered
      (IngressState.unnumbered { w with pass := (debugPacketId regs w.pass).2 }) =
      receiveStage cfg regs.unnumbered w.unnumbered := rfl
  rw [firstPass_eq, ← hNumbers, hStage]
  dsimp only [unnumbered]
  rw [dropSimulators_unnumbered]

/-- **A pass is blind to packet numbers.** -/
theorem ingressApply_unnumbered (cfg : WireConfig) (rng : Rng) (regs : Registers)
    (w : IngressState) :
    unnumbered (ingressApply cfg rng regs.unnumbered w.unnumbered) =
      unnumbered (ingressApply cfg rng regs w) := by
  have hType : w.unnumbered.pass.md.packetType = w.pass.md.packetType := rfl
  have hShared : ∀ r : Registers × IngressState, unnumbered (sharedPass cfg r.1 r.2) =
      sharedPass cfg (unnumbered r).1 (unnumbered r).2 := by
    intro r
    exact (sharedPass_unnumbered cfg r.1 r.2).symm
  unfold ingressApply
  rw [hType]
  split
  · dsimp only
    rw [hShared, hShared, firstPass_unnumbered, firstPass_unnumbered]
    rfl
  split
  · have hRebuild : ({ w.unnumbered with
          pass := reconstructWorkerBitmap w.unnumbered.pass } : IngressState) =
        IngressState.unnumbered { w with pass := reconstructWorkerBitmap w.pass } := by
      have h := reconstructWorkerBitmap_unnumbered w.pass
      exact congrArg (fun pass => ({ w with pass := pass } : IngressState)) h
    rw [hRebuild, sharedPass_unnumbered]
    rfl
  · rw [sharedPass_unnumbered]
    rfl

-- ---------------------------------------------------------------------------
-- Between two passes
-- ---------------------------------------------------------------------------

/-- What the parser reads behind the metadata does not depend on the number in it. -/
theorem parseMetadata_unnumbered (cfg : SwitchConfig) (port : PortId) (w : IngressState)
    (bits : Bits) :
    parseMetadata (start cfg port
        (switchmlMdH.encode ⟨w.pass.unnumbered.md, w.ethHdrLenFieldHighOrderBits⟩ ++ bits)) =
      (parseMetadata (start cfg port
        (switchmlMdH.encode ⟨w.pass.md, w.ethHdrLenFieldHighOrderBits⟩ ++ bits))).map
        IngressState.unnumbered := by
  have hWorker : w.pass.unnumbered.md.workerType = w.pass.md.workerType := rfl
  simp only [parseMetadata, start, decode_encode, Option.bind_eq_bind, Option.bind_some, hWorker]
  cases w.pass.md.workerType with
  | forwardOnly => rfl
  | roceV2 =>
    cases switchmlRdmaMdH.decode bits with
    | none => rfl
    | some read =>
      dsimp only [Option.bind_some]
      cases switchmlExponentsMdH.decode read.2 <;> rfl
  | switchmlUdp =>
    cases switchmlUdpMdH.decode bits with
    | none => rfl
    | some read =>
      dsimp only [Option.bind_some]
      cases switchmlExponentsMdH.decode read.2 <;> rfl

theorem parseConsume_unnumbered (w : IngressState) :
    parseConsume w.unnumbered = (parseConsume w).map IngressState.unnumbered := by
  have hRest : w.unnumbered.rest = w.rest := rfl
  unfold parseConsume
  rw [hRest]
  cases dataH.decode w.rest with
  | none => rfl
  | some read =>
    dsimp only [Option.bind_eq_bind, Option.bind_some]
    cases dataH.decode read.2 <;> rfl

theorem ingressParser_unnumbered {cfg : SwitchConfig} {port : PortId}
    (hPort : isRecirculationPort port = true) (w : IngressState) :
    (ingressParser cfg port (ingressDeparser w.unnumbered)).map IngressState.unnumbered =
      (ingressParser cfg port (ingressDeparser w)).map IngressState.unnumbered := by
  cases hMd : w.mdValid with
  | false =>
    -- without the header, nothing of it is sent
    have hBits : ingressDeparser w.unnumbered = ingressDeparser w := by
      simp [ingressDeparser, IngressState.metadata, IngressState.wire, IngressState.unnumbered,
        PassState.unnumbered, dataHeaders, hMd]
    rw [hBits]
  | true =>
    obtain ⟨bits, hBits, hBits'⟩ : ∃ bits,
        ingressDeparser w =
          switchmlMdH.encode ⟨w.pass.md, w.ethHdrLenFieldHighOrderBits⟩ ++ bits ∧
        ingressDeparser w.unnumbered = switchmlMdH.encode
          ⟨w.pass.unnumbered.md, w.ethHdrLenFieldHighOrderBits⟩ ++ bits := by
      simp [ingressDeparser, IngressState.metadata, IngressState.wire, IngressState.unnumbered,
        PassState.unnumbered, dataHeaders, hMd]
    rw [ingressParser, ingressParser, if_pos hPort, if_pos hPort, hBits, hBits',
      parseRecirculate, parseRecirculate, parseMetadata_unnumbered]
    cases parseMetadata (start cfg port
        (switchmlMdH.encode ⟨w.pass.md, w.ethHdrLenFieldHighOrderBits⟩ ++ bits)) with
    | none => rfl
    | some w' =>
      have hType : w'.unnumbered.pass.md.packetType = w'.pass.md.packetType := rfl
      dsimp only [Option.map_some, Option.bind_eq_bind, Option.bind_some]
      rw [hType]
      split
      · rw [parseConsume_unnumbered, Option.map_map]
        rfl
      · rfl

-- ---------------------------------------------------------------------------
-- Runs of the switch
-- ---------------------------------------------------------------------------

/-- The traffic manager is handed the packet, or a copy of it for the CPU. -/
def IngressState.leaves (w : IngressState) : Bool := !w.pass.dropCtl || w.pass.copyToCpu

/-- The recirculation port a pass sent the packet to, if any. -/
def IngressState.loopback (w : IngressState) : Option PortId :=
  if w.pass.dropCtl = false ∧ w.pass.bypassEgress = true ∧ w.pass.mcastGrpA = none then
    w.pass.ucastEgressPort.filter isRecirculationPort
  else none

theorem leaves_unnumbered (w : IngressState) : w.unnumbered.leaves = w.leaves := rfl

theorem loopback_unnumbered (w : IngressState) : w.unnumbered.loopback = w.loopback := rfl

theorem isRecirculationPort_loopback {w : IngressState} {port : PortId}
    (h : w.loopback = some port) : isRecirculationPort port = true := by
  simp only [IngressState.loopback] at h
  split at h
  · exact (Option.filter_eq_some_iff.mp h).2
  · cases h

/-- The registers of the pipes, and the packets that left a pass and have not come back
yet, in the order in which they left. -/
structure SwitchState where
  regs : Fin 4 → Registers
  sent : List IngressState := []

/-- What happens next: a packet arrives at a port, or one that was sent to a
recirculation port comes back. -/
inductive SwitchInput where
  | arrive (rng : Rng) (port : PortId) (bits : Bits)
  | recirculate (rng : Rng) (i : ℕ)

namespace SwitchState

variable (cfg : WireConfig)

/-- An ingress pass in the pipe of the port. -/
def pass (rng : Rng) (port : PortId) (bits : Bits) (s : SwitchState) : SwitchState :=
  let (regs, w) := ingressPass cfg rng port bits (s.regs (pipeOf port))
  { regs := Function.update s.regs (pipeOf port) regs
    sent := s.sent ++ (w.filter IngressState.leaves).toList }

def step (s : SwitchState) : SwitchInput → SwitchState
  | .arrive rng port bits => s.pass cfg rng port bits
  | .recirculate rng i =>
    match s.sent[i]? with
    | none => s
    | some w =>
      match w.loopback with
      | none => s
      | some port =>
        { s with sent := s.sent.eraseIdx i }.pass cfg rng port (ingressDeparser w)

def run (s : SwitchState) (inputs : List SwitchInput) : SwitchState :=
  inputs.foldl (step cfg) s

/-- What is left of the state without packet numbers. -/
def unnumbered (s : SwitchState) : SwitchState where
  regs := fun i => (s.regs i).unnumbered
  sent := s.sent.map IngressState.unnumbered

variable {cfg} {s s' : SwitchState} {rng : Rng} {port : PortId} {bits bits' : Bits}

theorem pass_of_parse {w : IngressState}
    (h : ingressParser cfg.toSwitchConfig port bits = some w) :
    s.pass cfg rng port bits =
      (let r := ingressApply cfg rng (s.regs (pipeOf port)) w
       { regs := Function.update s.regs (pipeOf port) r.1
         sent := s.sent ++ if r.2.leaves then [r.2] else [] }) := by
  simp only [pass, ingressPass, h]
  cases hLeaves : (ingressApply cfg rng (s.regs (pipeOf port)) w).2.leaves <;>
    simp [Option.filter, hLeaves]

theorem pass_of_reject (h : ingressParser cfg.toSwitchConfig port bits = none) :
    s.pass cfg rng port bits = s := by
  simp [pass, ingressPass, h]

/-- Packets that are parsed alike do the same in states that are alike. -/
theorem pass_unnumbered (hState : s.unnumbered = s'.unnumbered)
    (hParse : (ingressParser cfg.toSwitchConfig port bits).map IngressState.unnumbered =
      (ingressParser cfg.toSwitchConfig port bits').map IngressState.unnumbered) :
    (s.pass cfg rng port bits).unnumbered = (s'.pass cfg rng port bits').unnumbered := by
  have hSent : s.sent.map IngressState.unnumbered = s'.sent.map IngressState.unnumbered :=
    congrArg SwitchState.sent hState
  have hRegs : ∀ i, (s.regs i).unnumbered = (s'.regs i).unnumbered :=
    congrFun (congrArg SwitchState.regs hState)
  cases h : ingressParser cfg.toSwitchConfig port bits with
  | none =>
    have h' : ingressParser cfg.toSwitchConfig port bits' = none := by simpa [h] using hParse.symm
    rwa [pass_of_reject h, pass_of_reject h']
  | some w =>
    obtain ⟨w', h', hw⟩ : ∃ w', ingressParser cfg.toSwitchConfig port bits' = some w' ∧
        w'.unnumbered = w.unnumbered := by simpa [h] using hParse.symm
    have hApply := ingressApply_unnumbered cfg rng (s.regs (pipeOf port)) w
    rw [hRegs, ← hw, ingressApply_unnumbered] at hApply
    rw [pass_of_parse h, pass_of_parse h']
    generalize ingressApply cfg rng (s.regs (pipeOf port)) w = r at hApply
    generalize ingressApply cfg rng (s'.regs (pipeOf port)) w' = r' at hApply
    have hRegs' : r.1.unnumbered = r'.1.unnumbered := (congrArg Prod.fst hApply).symm
    have hOut : r.2.unnumbered = r'.2.unnumbered := (congrArg Prod.snd hApply).symm
    have hLeaves : r.2.leaves = r'.2.leaves := by
      rw [← leaves_unnumbered, hOut, leaves_unnumbered]
    refine congrArg₂ SwitchState.mk (funext fun i => ?_) ?_
    · by_cases hi : i = pipeOf port
      · subst hi
        simpa using hRegs'
      · simpa [hi] using hRegs i
    · dsimp only
      rw [List.map_append, List.map_append, hSent, hLeaves]
      split
      · simp [hOut]
      · rfl

theorem step_unnumbered (h : s.unnumbered = s'.unnumbered) (input : SwitchInput) :
    (s.step cfg input).unnumbered = (s'.step cfg input).unnumbered := by
  cases input with
  | arrive rng port bits => exact pass_unnumbered h rfl
  | recirculate rng i =>
    have hSent : s.sent.map IngressState.unnumbered = s'.sent.map IngressState.unnumbered :=
      congrArg SwitchState.sent h
    have hHead : (s.sent[i]?).map IngressState.unnumbered =
        (s'.sent[i]?).map IngressState.unnumbered := by
      rw [← List.getElem?_map, ← List.getElem?_map, hSent]
    simp only [step]
    cases hw : s.sent[i]? with
    | none =>
      have hw' : s'.sent[i]? = none := by simpa [hw] using hHead.symm
      rwa [hw']
    | some w =>
      obtain ⟨w', hw', hEq⟩ : ∃ w', s'.sent[i]? = some w' ∧ w'.unnumbered = w.unnumbered := by
        simpa [hw] using hHead.symm
      have hLoopback : w'.loopback = w.loopback := by
        rw [← loopback_unnumbered, hEq, loopback_unnumbered]
      rw [hw']
      dsimp only
      rw [hLoopback]
      cases hPort : w.loopback with
      | none => exact h
      | some port =>
        have hRecirc := isRecirculationPort_loopback hPort
        refine pass_unnumbered ?_ ?_
        · refine congrArg₂ SwitchState.mk (congrArg SwitchState.regs h) ?_
          dsimp only
          rw [← List.eraseIdx_map, ← List.eraseIdx_map, hSent]
        · rw [← ingressParser_unnumbered hRecirc w, ← ingressParser_unnumbered hRecirc w', hEq]

/-- **Packet numbers do not matter.** Two states that differ in them alone do so after any
run. -/
theorem run_unnumbered (h : s.unnumbered = s'.unnumbered) (inputs : List SwitchInput) :
    (s.run cfg inputs).unnumbered = (s'.run cfg inputs).unnumbered :=
  List.foldl_rel (r := fun a b : SwitchState => a.unnumbered = b.unnumbered) h
    fun input _ _ _ hState => step_unnumbered hState input

end SwitchState

end Wire

end SwitchML
