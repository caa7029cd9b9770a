import SwitchML.Protocol.Frame

/-!
# SwitchML protocol — the passes of a job's packets

How the packets of a job enter the passes of `Switch.Pass`: from a worker
(`receive_enters`) and from a recirculation port (`recirculate_enters_consume`,
`recirculate_enters_harvest`). `duplicateOutcome` makes all passes of one packet at once.
-/

namespace SwitchML

open MatchAction

-- ---------------------------------------------------------------------------
-- All passes of one packet
-- ---------------------------------------------------------------------------

/-- The passes of a packet from a recirculation port on, until it leaves the switch. -/
def remainingPasses (cfg : SwitchConfig) :
    ℕ → (Fin 4 → Registers) → Emission → (Fin 4 → Registers) × Emission
  | fuel + 1, regs, .recirculated port pkt =>
    let pipe := pipeOf port
    let pass := recirculate cfg port pkt (regs pipe)
    remainingPasses cfg fuel (Function.update regs pipe pass.1) pass.2
  | _, regs, out => (regs, out)

/-- All passes of a packet that worker `w` sends, one after the other: the first one and up to
three more consume and seven harvest passes. -/
def duplicateOutcome (job : Job) (regs : Fin 4 → Registers) (w : Fin job.n) (rp : RocePacket) :
    (Fin 4 → Registers) × Emission :=
  let received := receiveRoce job.config {} (job.port w) rp (regs 0)
  remainingPasses job.config 10 (Function.update regs 0 received.1) received.2

-- ---------------------------------------------------------------------------
-- Metadata of a job's packets
-- ---------------------------------------------------------------------------

/-- The metadata of a packet of `w` for chunk `k`. -/
structure MdOk (job : Job) (w : Fin job.n) (k : ℕ) (md : SwitchmlMd) : Prop where
  mgid : md.mgid = job.mgid
  workerId : md.workerId = BitVec.ofNat 16 w
  poolIndex : md.poolIndex = job.pool k
  numWorkers : md.numWorkers = BitVec.ofNat 8 job.n
  packetSize : md.packetSize = job.packetSize
  workerType : md.workerType = .roceV2
  ingressPort : md.ingressPort = job.port w
  last : md.lastPacketOfMessage = job.last k

/-- A packet of `w` for chunk `k` in a pass, before the slot is looked at. -/
structure PassReady (job : Job) (w : Fin job.n) (k : ℕ) (st : PassState) : Prop where
  md : MdOk job w k st.md
  fresh : st.Fresh
  workerBitmap : st.workerBitmap = (1#32) <<< w.val
  noDrop : st.ingressDropProbability ≠ 0xffff

theorem PassReady.consumeReady {job : Job} {w : Fin job.n} {k : ℕ} {st : PassState}
    (h : PassReady job w k st) : ConsumeReady job w k st :=
  ⟨h.md.poolIndex, h.workerBitmap, h.md.numWorkers⟩

/-- The slot status and the type are all a pass changes. -/
theorem MdOk.slotStatus {job : Job} {w : Fin job.n} {k : ℕ} {st : PassState}
    (h : MdOk job w k st.md) (ty : PacketType) : MdOk job w k (slotStatus st ty) :=
  ⟨h.mgid, h.workerId, h.poolIndex, h.numWorkers, h.packetSize, h.workerType, h.ingressPort,
    h.last⟩

-- ---------------------------------------------------------------------------
-- Recirculated packets
-- ---------------------------------------------------------------------------

theorem lookup_reconstructWorkerBitmap (job : Job) (w : Fin job.n) :
    lookup none (BitVec.ofNat 16 w.val) reconstructWorkerBitmapEntries =
      some ((1#32) <<< w.val) := by
  have hw : w.val < 32 := Nat.lt_of_lt_of_le w.isLt job.n_le_32
  have hMod : (BitVec.ofNat 16 w.val).toNat % 32 = w.val := by
    rw [BitVec.toNat_ofNat]
    omega
  rw [reconstructWorkerBitmapEntries, ← List.append_nil (List.map _ _)]
  refine lookup_family (i := w.val) (List.mem_range.mpr hw) ?_ ?_ _
  · rw [KeyField.masked_low 5 0x1f _ rfl (by decide) hw]
    exact hMod.symm
  · intro i hi hHit
    rw [KeyField.masked_low 5 0x1f _ rfl (by decide) (List.mem_range.mp hi)] at hHit
    exact hHit.trans hMod

/-- `ReconstructWorkerBitmap` gives back the worker's bit and the slot status. -/
theorem reconstructWorkerBitmap_eq {job : Job} {w : Fin job.n} {st : PassState}
    (h : st.md.workerId = BitVec.ofNat 16 w) :
    reconstructWorkerBitmap st =
      { st with
        workerBitmap := (1#32) <<< w.val
        workerBitmapBefore :=
          if st.md.bitmapBeforeNonzero then 0xffffffff else st.workerBitmapBefore
        mapResult := if st.md.mapResultNonzero then 0xffffffff else st.mapResult
        firstLastFlag := if st.md.firstFlag then 0 else if st.md.lastFlag then 1
          else st.firstLastFlag } := by
  unfold reconstructWorkerBitmap
  rw [h, lookup_reconstructWorkerBitmap]
  dsimp only
  split <;> split <;> split <;> first | rfl | (split <;> rfl)

theorem PassReady.reconstruct {job : Job} {w : Fin job.n} {k : ℕ} {st : PassState}
    (hMd : MdOk job w k st.md) (hFresh : st.Fresh)
    (hNoDrop : st.ingressDropProbability ≠ 0xffff) :
    PassReady job w k (reconstructWorkerBitmap st) := by
  rw [reconstructWorkerBitmap_eq hMd.workerId]
  exact ⟨hMd, ⟨hFresh.1, hFresh.2, hFresh.3, hFresh.4, hFresh.5⟩, rfl, hNoDrop⟩

section Recirculated

variable {job : Job} {w : Fin job.n} {k : ℕ} {port : PortId} {pkt : Packet}

/-- A packet that comes back for a consume pass. -/
theorem recirculate_enters_consume {i : Fin 4} {d0 d1 : Data} {rest : List Data}
    (hMd : MdOk job w k pkt.md) (hType : pkt.md.packetType = .consume i) (hi : i ≠ 0)
    (hPort : isRecirculationPort port = true) (hPayload : pkt.payload = d0 :: d1 :: rest) :
    ∃ st, PassReady job w k st ∧ st.md = pkt.md ∧ st.d0 = d0 ∧ st.d1 = d1 ∧
      st.payload = rest ∧ st.ingressPort = port ∧ st.exponents = pkt.exponents ∧
      ∀ regs, recirculate job.config port pkt regs =
        ((finishPass job.config (consumeRegs regs st i) (consumeState regs st i)).1,
          emission (finishPass job.config (consumeRegs regs st i) (consumeState regs st i)).2) := by
  obtain ⟨st, hParse, hMdEq, hFresh, hNoDrop, hRest⟩ : ∃ st,
      parseRecirculate job.config port pkt = some st ∧ st.md = pkt.md ∧ st.Fresh ∧
      st.ingressDropProbability ≠ 0xffff ∧ st.d0 = d0 ∧ st.d1 = d1 ∧ st.payload = rest ∧
      st.ingressPort = port ∧ st.exponents = pkt.exponents := by
    refine ⟨{ md := pkt.md, rdmaMd := pkt.rdmaMd, exponents := pkt.exponents
              d0, d1, d0Valid := true, d1Valid := true, payload := rest, ingressPort := port },
      ?_, rfl, ⟨rfl, rfl, rfl, rfl, rfl⟩, show (0 : DropProbability) ≠ 0xffff by decide, rfl, rfl,
      rfl, rfl, rfl⟩
    simp [parseRecirculate, hPort, hMd.workerType, hType, hPayload, Job.config]
  rw [← hMdEq] at hMd hType
  have hReady := PassReady.reconstruct hMd hFresh hNoDrop
  have hEq := reconstructWorkerBitmap_eq hMd.workerId
  have hMd' : (reconstructWorkerBitmap st).md = st.md := by rw [hEq]
  refine ⟨reconstructWorkerBitmap st, hReady, hMd'.trans hMdEq, ?_⟩
  obtain ⟨h0, h1, hPay, hPortEq, hExp⟩ := hRest
  refine ⟨by rw [hEq]; exact h0, by rw [hEq]; exact h1, by rw [hEq]; exact hPay,
    by rw [hEq]; exact hPortEq, by rw [hEq]; exact hExp, fun regs => ?_⟩
  have hCode : PacketType.code (.consume 1) ≤ st.md.packetType.code := by
    have hPos := Fin.pos_iff_ne_zero.mpr hi
    rw [hType]
    simp only [PacketType.code]
    omega
  unfold recirculate
  rw [hParse]
  dsimp only
  rw [if_neg (by simp [hType, hi]), if_pos hCode,
    switchmlPass_consume job.config (hMd' ▸ hType) hReady.fresh.dropCtl hReady.noDrop]

/-- A packet that comes back for a harvest pass; its slot status is that of the
metadata. -/
theorem recirculate_enters_harvest {j : Fin 8} (hMd : MdOk job w k pkt.md)
    (hType : pkt.md.packetType = .harvest j) (hPort : isRecirculationPort port = true) :
    ∃ st, PassReady job w k st ∧ st.md = pkt.md ∧ st.rdmaMd = pkt.rdmaMd ∧
      st.payload = pkt.payload ∧ st.ingressPort = port ∧ st.exponents = pkt.exponents ∧
      st.mapResult = (if pkt.md.mapResultNonzero then 0xffffffff else 0) ∧
      st.firstLastFlag = (if pkt.md.firstFlag then 0 else if pkt.md.lastFlag then 1 else 0xff) ∧
      ∀ regs, recirculate job.config port pkt regs =
        ((finishPass job.config regs (harvestState regs st j)).1,
          emission (finishPass job.config regs (harvestState regs st j)).2) := by
  obtain ⟨st, hParse, hMdEq, hFresh, hNoDrop, hRest⟩ : ∃ st,
      parseRecirculate job.config port pkt = some st ∧ st.md = pkt.md ∧ st.Fresh ∧
      st.ingressDropProbability ≠ 0xffff ∧ st.rdmaMd = pkt.rdmaMd ∧ st.payload = pkt.payload ∧
      st.ingressPort = port ∧ st.exponents = pkt.exponents ∧ st.mapResult = 0 ∧
      st.firstLastFlag = 0xff := by
    refine ⟨{ md := pkt.md, rdmaMd := pkt.rdmaMd, exponents := pkt.exponents
              d0Valid := true, d1Valid := true, payload := pkt.payload, ingressPort := port },
      ?_, rfl, ⟨rfl, rfl, rfl, rfl, rfl⟩, show (0 : DropProbability) ≠ 0xffff by decide, rfl, rfl,
      rfl, rfl, rfl, rfl⟩
    simp [parseRecirculate, hPort, hMd.workerType, hType, Job.config]
  rw [← hMdEq] at hMd hType
  have hReady := PassReady.reconstruct hMd hFresh hNoDrop
  have hEq := reconstructWorkerBitmap_eq hMd.workerId
  have hMd' : (reconstructWorkerBitmap st).md = st.md := by rw [hEq]
  refine ⟨reconstructWorkerBitmap st, hReady, hMd'.trans hMdEq, ?_⟩
  obtain ⟨hRdma, hPay, hPortEq, hExp, hMap, hFlag⟩ := hRest
  refine ⟨by rw [hEq]; exact hRdma, by rw [hEq]; exact hPay, by rw [hEq]; exact hPortEq,
    by rw [hEq]; exact hExp, by rw [hEq, ← hMdEq, ← hMap], by rw [hEq, ← hMdEq, ← hFlag],
    fun regs => ?_⟩
  have hCode : PacketType.code (.consume 1) ≤ st.md.packetType.code := by
    rw [hType]
    simp only [PacketType.code]
    omega
  unfold recirculate
  rw [hParse]
  dsimp only
  rw [if_neg (by simp [hType]), if_pos hCode,
    switchmlPass_harvest job.config (hMd' ▸ hType) hReady.fresh.dropCtl]

end Recirculated

-- ---------------------------------------------------------------------------
-- Arriving packets
-- ---------------------------------------------------------------------------

/-- The exponents a packet carries in its immediate. -/
def RocePacket.exponents (rp : RocePacket) : ExponentsMd :=
  if rp.opcode.hasImmediate then
    ⟨rp.immediate.extractLsb' 24 8, rp.immediate.extractLsb' 16 8⟩
  else {}

theorem Job.workers_split (job : Job) (w : Fin job.n) :
    ∃ before after, job.config.workers = before ++ job.receiveEntry w :: after ∧
      ∀ e ∈ before, (job.receiveEntry w).Apart e := by
  have hRid : ∀ w, (job.receiveEntry w).workerRid.toNat = w := by
    intro w
    have := job.n_le_32
    exact (BitVec.toNat_ofNat w.val 16).trans (Nat.mod_eq_of_lt (by omega))
  have hLt : ∀ w, (job.receiveEntry w).workerRid.toNat < 128 := by
    intro w
    have := job.n_le_32
    have := hRid w
    omega
  obtain ⟨before, after, hSplit⟩ := List.append_of_mem (List.mem_finRange w)
  have hNodup := List.nodup_finRange job.n
  rw [hSplit, List.nodup_append] at hNodup
  refine ⟨before.map job.receiveEntry, after.map job.receiveEntry ++ job.others, ?_, ?_⟩
  · simp [Job.config, hSplit]
  · intro e he
    obtain ⟨w', hw', rfl⟩ := List.mem_map.mp he
    refine ReceiveEntry.apart_of_ne (hLt w) (hLt w') fun hEq => ?_
    have hNat := congrArg BitVec.toNat hEq
    rw [hRid, hRid] at hNat
    exact hNodup.2.2 w' hw' w List.mem_cons_self (Fin.ext hNat.symm)

theorem Job.port_not_recirculation (job : Job) (w : Fin job.n) :
    isRecirculationPort (job.port w) = false := by
  obtain ⟨hPipe, h64, h68⟩ := job.port_front w
  simp only [isRecirculationPort, hPipe, h64, h68, decide_false, Bool.or_self, ne_eq,
    not_true_eq_false, Bool.and_false]

theorem dropSimulators_off (r r' : DropProbability) {st : PassState}
    (hIn : st.ingressDropProbability = 0) (hEg : st.egressDropProbability = 0) :
    egressDropSimulator r (ingressDropSimulator r' st) =
      { st with
        md := { st.md with ingressPort := st.ingressPort, simulateEgressDrop := false } } := by
  simp [egressDropSimulator, ingressDropSimulator, hIn, hEg]

theorem Job.two_le_slices (job : Job) : 2 ≤ job.slices := by
  unfold Job.slices Job.pipes
  split <;> omega

theorem exists_slices {job : Job} {l : List Data} (h : l.length = job.slices) :
    ∃ d0 d1 rest, l = d0 :: d1 :: rest := by
  have := job.two_le_slices
  match l, h with
  | [], h => simp at h; omega
  | [_], h => simp at h; omega
  | d0 :: d1 :: rest, _ => exact ⟨d0, d1, rest, rfl⟩

/-- What the stages of the first pass make of a packet of a worker. -/
theorem firstPass_state {job : Job} {w : Fin job.n} {rp : RocePacket} (regs : Registers)
    (st : PassState) (hMatch : (job.receiveEntry w).matchesPacket rp = true)
    (hOp : rp.opcode.isRdmaWrite = true) (hIn : st.ingressDropProbability = 0)
    (hEg : st.egressDropProbability = 0) :
    let result := (receiverAction rp (regs.receiverData (qpIndex rp.dstQp))).2
    (firstPass job.config {} rp regs st).2 =
      { st with
        workerBitmap := (1#32) <<< w.val
        md := { st.md with
          numWorkers := BitVec.ofNat 8 job.n
          mgid := job.mgid
          workerType := .roceV2
          workerId := BitVec.ofNat 16 w
          packetSize := job.packetSize
          recircPortSelector := qpIndex rp.dstQp
          firstPacketOfMessage := rp.opcode.isFirst
          lastPacketOfMessage := rp.opcode.isLast
          poolIndex := result.extractLsb' 0 15
          debugPacketId := regs.packetId.setWidth 19
          ingressPort := st.ingressPort
          simulateEgressDrop := false }
        rdmaMd := { st.rdmaMd with addr := rp.reth.addr, len := rp.reth.len.setWidth 24 }
        exponents := if rp.opcode.hasImmediate then
            ⟨rp.immediate.extractLsb' 24 8, rp.immediate.extractLsb' 16 8⟩
          else st.exponents
        dropCtl := if !rp.opcode.isFirst then result.getLsbD 31 else st.dropCtl
        copyToCpu := st.copyToCpu || result.getLsbD 31 } := by
  obtain ⟨before, after, hSplit, hOther⟩ := job.workers_split w
  unfold firstPass
  dsimp only
  rw [hSplit, rdmaReceiver_hit _ _ hMatch hOp hOther, receiveFields_eq, dropSimulators_off]
  · rfl
  · exact hIn
  · exact hEg

/-- A packet of a worker that the receive stage accepts for the chunk's slot, after the
stages of the first pass. -/
theorem receive_ready {job : Job} {w : Fin job.n} {k : ℕ} {rp : RocePacket}
    {regs : Registers} (hSend : job.sendable w k rp = true)
    (hPool : receivedPoolIndex job.config.workers rp regs = some (job.pool k)) :
    ∃ parsed, parseRoce job.config (job.port w) rp = some parsed ∧
      ∃ regs' st, firstPass job.config {} rp regs parsed = (regs', st) ∧
      SameSlot job.slot regs regs' ∧ PassReady job w k st ∧
      st.md.packetType = .consume 0 ∧ st.md.mapResultNonzero = false ∧
      st.md.firstFlag = false ∧ st.md.lastFlag = false ∧
      st.d0 :: st.d1 :: st.payload = rp.payload ∧ st.ingressPort = job.port w ∧
      st.exponents = rp.exponents ∧ st.md.recircPortSelector = qpIndex rp.dstQp := by
  simp only [Job.sendable, Bool.and_eq_true, decide_eq_true_eq] at hSend
  obtain ⟨⟨⟨hMatch, hOp⟩, hLast⟩, hLength⟩ := hSend
  obtain ⟨d0, d1, rest, hPayload⟩ := exists_slices hLength
  obtain ⟨st, hSt⟩ : ∃ st : PassState, st =
      { md := { packetType := .consume 0, ibSolicited := rp.se }
        d0, d1, d0Valid := true, d1Valid := true, payload := rest
        ingressPort := job.port w } := ⟨_, rfl⟩
  have hParse : parseRoce job.config (job.port w) rp = some st := by
    simp [parseRoce, job.port_not_recirculation w, hPayload, hSt, Job.config]
  obtain ⟨-, hSome, hSame⟩ := firstPass_outcome job.config {} rp regs st (by rw [hSt]) (by rw [hSt])
  obtain ⟨hDrop, hType, hPoolEq⟩ := hSome _ hPool
  have hFirst := firstPass_state regs st hMatch hOp (by rw [hSt]) (by rw [hSt])
  refine ⟨st, hParse, (firstPass job.config {} rp regs st).1,
    (firstPass job.config {} rp regs st).2, rfl, hSame job.slot, ?_⟩
  generalize (firstPass job.config {} rp regs st).2 = st' at *
  have hNoDrop : st'.ingressDropProbability ≠ 0xffff := by
    rw [hFirst, hSt]
    exact show (0 : DropProbability) ≠ 0xffff by decide
  refine ⟨⟨⟨?_, ?_, hPoolEq, ?_, ?_, ?_, ?_, ?_⟩,
    ⟨?_, ?_, hDrop, ?_, ?_⟩, ?_, hNoDrop⟩, hType, ?_, ?_, ?_, ?_, ?_, ?_, ?_⟩
  all_goals rw [hFirst, hSt]
  · exact hLast
  · exact hPayload.symm
  · rfl

/-- The whole first pass of such a packet. -/
theorem receive_enters {job : Job} {w : Fin job.n} {k : ℕ} {rp : RocePacket}
    {regs : Registers} (hSend : job.sendable w k rp = true)
    (hPool : receivedPoolIndex job.config.workers rp regs = some (job.pool k)) :
    ∃ regs' st, SameSlot job.slot regs regs' ∧ PassReady job w k st ∧
      st.md.packetType = .consume 0 ∧ st.md.mapResultNonzero = false ∧
      st.md.firstFlag = false ∧ st.md.lastFlag = false ∧
      st.d0 :: st.d1 :: st.payload = rp.payload ∧ st.ingressPort = job.port w ∧
      st.exponents = rp.exponents ∧
      receiveRoce job.config {} (job.port w) rp regs =
        ((finishPass job.config (consumeRegs regs' st 0) (consumeState regs' st 0)).1,
          emission (finishPass job.config (consumeRegs regs' st 0)
            (consumeState regs' st 0)).2) := by
  obtain ⟨parsed, hParse, regs', st, hFirst, hSame, hReady, hType, hDup, hFlag, hLast, hData,
    hPort, hExp, -⟩ := receive_ready hSend hPool
  refine ⟨regs', st, hSame, hReady, hType, hDup, hFlag, hLast, hData, hPort, hExp, ?_⟩
  unfold receiveRoce
  rw [hParse]
  dsimp only
  rw [hFirst, switchmlPass_consume job.config hType hReady.fresh.dropCtl hReady.noDrop]

end SwitchML
