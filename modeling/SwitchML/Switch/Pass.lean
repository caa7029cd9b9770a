import Mathlib.Tactic.FinCases
import SwitchML.Switch.Ingress

/-!
# SwitchML switch — what one pass does

Spec lemmas for the controls of a pass and, assembled from them, for whole passes:

* `switchmlPass_consume` — a consume pass records the worker in the bitmap of its
  pool index and takes it out of the other set of the slot; a packet not seen
  before is counted and aggregated, any other packet changes nothing else;
* `switchmlPass_harvest` — a harvest pass reads one slice from the registers.

Both leave the decision of `next_step` to `finishPass`.
-/

namespace SwitchML

open MatchAction

-- ---------------------------------------------------------------------------
-- The worker bitmap by pool index
-- ---------------------------------------------------------------------------

namespace Registers

/-- The bitmap of a pool index: the half of the slot's pair that its set uses. -/
def bitmap (regs : Registers) (p : PoolIndex) : WorkerBitmap :=
  if p.set then (regs.workerBitmap p.slot).second else (regs.workerBitmap p.slot).first

/-- The registers after worker bits `b` were added to the set of `p` and removed from
the other set of its slot. -/
def recordWorker (regs : Registers) (p : PoolIndex) (b : WorkerBitmap) : Registers :=
  let value := regs.workerBitmap p.slot
  { regs with
    workerBitmap := Function.update regs.workerBitmap p.slot
      (if p.set then ⟨value.first &&& ~~~b, value.second ||| b⟩
        else ⟨value.first ||| b, value.second &&& ~~~b⟩) }

theorem bitmap_recordWorker (regs : Registers) (p : PoolIndex) (b : WorkerBitmap)
    (q : PoolIndex) :
    (regs.recordWorker p b).bitmap q =
      if q.slot = p.slot then
        if q.set = p.set then regs.bitmap q ||| b else regs.bitmap q &&& ~~~b
      else regs.bitmap q := by
  unfold bitmap recordWorker
  by_cases hSlot : q.slot = p.slot
  · cases hq : q.set <;> cases hp : p.set <;> simp [hSlot]
  · simp [hSlot]

end Registers

/-! ## The controls -/

theorem and_one_eq_set (p : PoolIndex) : p &&& 1#15 = if p.set then 1#15 else 0#15 := by
  have h := BitVec.and_one_eq_setWidth_ofBool_getLsbD (x := p)
  cases hs : p.set <;> simp_all [PoolIndex.set]

theorem lookup_updateAndCheckWorkerBitmap (p : PoolIndex) (i : Fin 4)
    {drop : DropProbability} (hDrop : drop ≠ 0xffff) :
    lookup .noAction ⟨p, .consume i, drop⟩ updateAndCheckWorkerBitmapEntries =
      if p.set then .updateWorkerBitmapSet1Action else .updateWorkerBitmapSet0Action := by
  have hRange : List.finRange 4 = [0, 1, 2, 3] := rfl
  have hDrop' : drop ≠ 0xffff#16 := hDrop
  fin_cases i <;> cases hs : p.set <;>
    simp [updateAndCheckWorkerBitmapEntries, hRange, lookup_cons, bitmapRow, and_one_eq_set, hs,
      hDrop']

/-- A consume pass that is not simulated to be lost records the worker. -/
theorem updateAndCheckWorkerBitmap_consume (regs : Registers) {st : PassState} {i : Fin 4}
    (hType : st.md.packetType = .consume i) (hDrop : st.ingressDropProbability ≠ 0xffff) :
    updateAndCheckWorkerBitmap regs st =
      (regs.recordWorker st.md.poolIndex st.workerBitmap,
        { st with
          workerBitmapBefore := regs.bitmap st.md.poolIndex
          mapResult := regs.bitmap st.md.poolIndex &&& st.workerBitmap }) := by
  unfold updateAndCheckWorkerBitmap
  rw [hType, lookup_updateAndCheckWorkerBitmap _ _ hDrop]
  cases hs : st.md.poolIndex.set <;>
    simp [Registers.recordWorker, Registers.bitmap, hs, workerBitmapUpdateSet0,
      workerBitmapUpdateSet1, checkWorkerBitmapAction]

theorem lookup_countWorkers (num : NumWorkers) (map : WorkerBitmap) (i : Fin 4) :
    lookup .noAction ⟨num, map, .consume i⟩ countWorkersEntries =
      if num = 1 then
        if map = 0 then .singleWorkerCountAction else .singleWorkerReadAction
      else if map = 0 then .countWorkersAction else .readCountWorkersAction := by
  have hRange : List.finRange 4 = [0, 1, 2, 3] := rfl
  by_cases hNum : num = 1#8 <;> by_cases hMap : map = 0#32 <;> fin_cases i <;>
    simp [countWorkersEntries, countRows, hRange, lookup_cons, hNum, hMap]

/-- The flag `count_workers` finds: 0 for the first packet of a slot, or for a full
slot; 1 for the last. -/
def slotFlag (num : NumWorkers) (map : WorkerBitmap) (count : NumWorkers) : NumWorkers :=
  if num = 1 then if map = 0 then 1 else 0 else count

/-- Only packets not seen before are counted. -/
theorem countWorkers_consume (regs : Registers) {st : PassState} {i : Fin 4}
    (hType : st.md.packetType = .consume i) :
    countWorkers regs st =
      ({ regs with
          workerCount := if st.mapResult = 0 then
              Function.update regs.workerCount st.md.poolIndex
                (workerCountAction st.md.numWorkers (regs.workerCount st.md.poolIndex)).1
            else regs.workerCount },
        { st with
          firstLastFlag :=
            slotFlag st.md.numWorkers st.mapResult (regs.workerCount st.md.poolIndex) }) := by
  unfold countWorkers
  rw [hType, lookup_countWorkers]
  by_cases hNum : st.md.numWorkers = 1#8 <;> by_cases hMap : st.mapResult = 0#32 <;>
    simp [slotFlag, hNum, hMap, workerCountAction]

theorem lookup_significandSum_consume (before map : WorkerBitmap) (i : Fin 4) :
    lookup .noAction ⟨before, map, .consume i⟩ significandSumEntries =
      if before = 0 then .significandWriteRead1Action
      else if map = 0 then .significandSumRead1Action else .significandRead0Action := by
  have hRange : List.finRange 4 = [0, 1, 2, 3] := rfl
  by_cases hBefore : before = 0#32 <;> by_cases hMap : map = 0#32 <;> fin_cases i <;>
    simp [significandSumEntries, slotRow, hRange, lookup_cons, hBefore, hMap]

theorem lookup_significandSum_harvest (before map : WorkerBitmap) (j : Fin 8) :
    lookup .noAction ⟨before, map, .harvest j⟩ significandSumEntries =
      if j.val % 2 = 0 then .significandRead1Action else .significandRead0Action := by
  have hRange : List.finRange 4 = [0, 1, 2, 3] := rfl
  fin_cases j <;> simp [significandSumEntries, slotRow, hRange, lookup_cons]

theorem lookup_exponentMax_consume0 (before map : WorkerBitmap) :
    lookup .noAction ⟨before, map, .consume 0⟩ exponentMaxEntries =
      if before = 0 then .exponentWriteRead0Action
      else if map = 0 then .exponentMaxRead0Action else .exponentRead0Action := by
  by_cases hBefore : before = 0#32 <;> by_cases hMap : map = 0#32 <;>
    simp [exponentMaxEntries, slotRow, lookup_cons, hBefore, hMap]

theorem lookup_exponentMax_harvest7 (before map : WorkerBitmap) :
    lookup .noAction ⟨before, map, .harvest 7⟩ exponentMaxEntries = .exponentRead1Action := by
  simp [exponentMaxEntries, slotRow, lookup_cons]

theorem lookup_exponentMax_other (before map : WorkerBitmap) {ty : PacketType}
    (hConsume : ty ≠ .consume 0) (hHarvest : ty ≠ .harvest 7) :
    lookup .noAction ⟨before, map, ty⟩ exponentMaxEntries = .noAction := by
  simp [exponentMaxEntries, slotRow, lookup_cons, hConsume, hHarvest]

/-! ## Whole passes -/

section Passes

variable (cfg : SwitchConfig) (regs : Registers) (st : PassState)

/-- The end of a pass: `next_step`, and a sequence number if the harvest starts. -/
def finishPass : Registers × PassState :=
  let st := nextStep cfg.alternateRecircPort st
  if startsHarvest st then sequenceNumberAssignment regs st else (regs, st)

/-- `map_result` of a consume pass; nonzero for a packet seen before. -/
def consumeMap : WorkerBitmap := regs.bitmap st.md.poolIndex &&& st.workerBitmap

/-- The flag a consume pass finds. -/
def consumeFlag : NumWorkers :=
  slotFlag st.md.numWorkers (consumeMap regs st) (regs.workerCount st.md.poolIndex)

/-- The exponents of the slot with the packet's taken in; the first packet of a slot
overwrites. -/
def newExponents : Exponent8Pair :=
  let value := regs.exponents st.md.poolIndex
  if regs.bitmap st.md.poolIndex = 0 then ⟨st.exponents.e0, st.exponents.e1⟩
  else ⟨exponentMaxOf value.first st.exponents.e0, exponentMaxOf value.second st.exponents.e1⟩

/-- The words of the slot with the packet's added; the first packet of a slot
overwrites. -/
def newSignificands (j : Fin 32) : SignificandPair :=
  let value := regs.significands j st.md.poolIndex
  if regs.bitmap st.md.poolIndex = 0 then ⟨st.d0 j, st.d1 j⟩
  else ⟨value.first + st.d0 j, value.second + st.d1 j⟩

/-- The registers after pass `CONSUME<i>`. -/
def consumeRegs (i : Fin 4) : Registers :=
  let p := st.md.poolIndex
  { regs.recordWorker p st.workerBitmap with
    workerCount := if consumeMap regs st = 0 then
        Function.update regs.workerCount p
          (workerCountAction st.md.numWorkers (regs.workerCount p)).1
      else regs.workerCount
    exponents := if consumeMap regs st = 0 ∧ st.md.lastPacketOfMessage = true ∧ i = 0 then
        Function.update regs.exponents p (newExponents regs st)
      else regs.exponents
    significands := if consumeMap regs st = 0 then
        fun j => Function.update (regs.significands j) p (newSignificands regs st j)
      else regs.significands }

/-- The packet after pass `CONSUME<i>`, before `next_step`. A packet not seen before
carries the new second slice, any other the old first slice. -/
def consumeState (i : Fin 4) : PassState :=
  let p := st.md.poolIndex
  { st with
    workerBitmapBefore := regs.bitmap p
    mapResult := consumeMap regs st
    firstLastFlag := consumeFlag regs st
    d0 := if consumeMap regs st = 0 then st.d0 else fun j => (regs.significands j p).first
    d1 := if consumeMap regs st = 0 then fun j => (newSignificands regs st j).second else st.d1
    exponents := if st.md.lastPacketOfMessage = true ∧ i = 0 then
        { st.exponents with
          e0 := if consumeMap regs st = 0 then (newExponents regs st).first
            else (regs.exponents p).first }
      else st.exponents }

/-- The packet after pass `HARVEST<j>`, before `next_step`: odd passes read the first
slice, even ones the second, and the last one reads the second exponent. -/
def harvestState (j : Fin 8) : PassState :=
  let p := st.md.poolIndex
  { st with
    d0 := if j.val % 2 = 0 then st.d0 else fun l => (regs.significands l p).first
    d1 := if j.val % 2 = 0 then fun l => (regs.significands l p).second else st.d1
    exponents := if st.md.lastPacketOfMessage = true ∧ j = 7 then
        { st.exponents with e1 := (regs.exponents p).second } else st.exponents }

variable {regs st}

theorem consumeMap_eq_zero_of_bitmap (h : regs.bitmap st.md.poolIndex = 0) :
    consumeMap regs st = 0 := by
  simp [consumeMap, h]

theorem exponentMax_consume {i : Fin 4} (hType : st.md.packetType = .consume i)
    (hBefore : st.workerBitmapBefore = 0 → st.mapResult = 0) :
    (if st.md.lastPacketOfMessage then exponentMax regs st else (regs, st)) =
      let p := st.md.poolIndex
      let new : Exponent8Pair :=
        if st.workerBitmapBefore = 0 then ⟨st.exponents.e0, st.exponents.e1⟩
        else ⟨exponentMaxOf (regs.exponents p).first st.exponents.e0,
          exponentMaxOf (regs.exponents p).second st.exponents.e1⟩
      ({ regs with
          exponents := if st.mapResult = 0 ∧ st.md.lastPacketOfMessage = true ∧ i = 0 then
              Function.update regs.exponents p new
            else regs.exponents },
        { st with
          exponents := if st.md.lastPacketOfMessage = true ∧ i = 0 then
              { st.exponents with
                e0 := if st.mapResult = 0 then new.first else (regs.exponents p).first }
            else st.exponents }) := by
  by_cases hLast : st.md.lastPacketOfMessage = true
  · by_cases hi : i = 0
    · subst hi
      rw [if_pos hLast]
      unfold exponentMax
      rw [hType, lookup_exponentMax_consume0]
      by_cases hB : st.workerBitmapBefore = 0#32
      · simp [hB, hBefore hB, hLast]
      · by_cases hM : st.mapResult = 0#32 <;> simp [hB, hM, hLast]
    · have hNot : st.md.packetType ≠ .consume 0 := by simp [hType, hi]
      rw [if_pos hLast]
      unfold exponentMax
      rw [lookup_exponentMax_other _ _ hNot (by simp [hType])]
      simp [hi]
  · simp [hLast]

theorem significandSums_consume {i : Fin 4} (hType : st.md.packetType = .consume i)
    (hBefore : st.workerBitmapBefore = 0 → st.mapResult = 0) :
    significandSums regs st =
      let p := st.md.poolIndex
      let sum (j : Fin 32) : SignificandPair :=
        if st.workerBitmapBefore = 0 then ⟨st.d0 j, st.d1 j⟩
        else ⟨(regs.significands j p).first + st.d0 j, (regs.significands j p).second + st.d1 j⟩
      ({ regs with
          significands := if st.mapResult = 0 then
              fun j => Function.update (regs.significands j) p (sum j)
            else regs.significands },
        { st with
          d0 := if st.mapResult = 0 then st.d0 else fun j => (regs.significands j p).first
          d1 := if st.mapResult = 0 then fun j => (sum j).second else st.d1 }) := by
  unfold significandSums
  rw [hType, lookup_significandSum_consume]
  by_cases hB : st.workerBitmapBefore = 0#32
  · simp [hB, hBefore hB, significandSum]
  · by_cases hM : st.mapResult = 0#32 <;> simp [hB, hM, significandSum]

theorem checkSlot_consume {i : Fin 4} (hType : st.md.packetType = .consume i)
    (hDrop : st.dropCtl = false) (hSim : st.ingressDropProbability ≠ 0xffff) :
    checkSlot regs st =
      ({ regs.recordWorker st.md.poolIndex st.workerBitmap with
          workerCount := if consumeMap regs st = 0 then
              Function.update regs.workerCount st.md.poolIndex
                (workerCountAction st.md.numWorkers (regs.workerCount st.md.poolIndex)).1
            else regs.workerCount },
        { st with
          workerBitmapBefore := regs.bitmap st.md.poolIndex
          mapResult := consumeMap regs st
          firstLastFlag := consumeFlag regs st }) := by
  have h : checkSlot regs st = countWorkers (updateAndCheckWorkerBitmap regs st).1
      (updateAndCheckWorkerBitmap regs st).2 := by
    unfold checkSlot
    rw [hDrop, hType]
  rw [h, updateAndCheckWorkerBitmap_consume regs hType hSim, countWorkers_consume (i := i)]
  · rfl
  · exact hType

theorem checkSlot_harvest {j : Fin 8} (hType : st.md.packetType = .harvest j) :
    checkSlot regs st = (regs, st) := by
  unfold checkSlot
  rw [hType]
  cases st.dropCtl <;> rfl

theorem exponentMax_harvest {j : Fin 8} (hType : st.md.packetType = .harvest j) :
    (if st.md.lastPacketOfMessage then exponentMax regs st else (regs, st)) =
      (regs, { st with
        exponents := if st.md.lastPacketOfMessage = true ∧ j = 7 then
            { st.exponents with e1 := (regs.exponents st.md.poolIndex).second }
          else st.exponents }) := by
  by_cases hLast : st.md.lastPacketOfMessage = true
  · rw [if_pos hLast]
    unfold exponentMax
    by_cases hj : j = 7
    · rw [hType, hj, lookup_exponentMax_harvest7]
      simp [hLast]
    · rw [lookup_exponentMax_other _ _ (by simp [hType]) (by simp [hType, hj])]
      simp [hj]
  · simp [hLast]

theorem significandSums_harvest {j : Fin 8} (hType : st.md.packetType = .harvest j) :
    significandSums regs st =
      (regs, { st with
        d0 := if j.val % 2 = 0 then st.d0
          else fun l => (regs.significands l st.md.poolIndex).first
        d1 := if j.val % 2 = 0 then fun l => (regs.significands l st.md.poolIndex).second
          else st.d1 }) := by
  unfold significandSums
  rw [hType, lookup_significandSum_harvest]
  by_cases hj : j.val % 2 = 0 <;> simp [hj, significandSum]

/-- A pass that is not dropped on the way is processed. -/
theorem switchmlPass_eq_processSlot {regs' : Registers} {st' : PassState}
    (hSlot : checkSlot regs st = (regs', st')) (hDrop : st'.dropCtl = false)
    (hType : PacketType.code (.consume 0) ≤ st'.md.packetType.code) :
    switchmlPass cfg regs st = processSlot cfg regs' st' := by
  unfold switchmlPass
  rw [hSlot]
  dsimp only
  rw [if_neg (by simp [hDrop]), if_pos hType]

/-- **Consume pass.** -/
theorem switchmlPass_consume {i : Fin 4} (hType : st.md.packetType = .consume i)
    (hDrop : st.dropCtl = false) (hSim : st.ingressDropProbability ≠ 0xffff) :
    switchmlPass cfg regs st = finishPass cfg (consumeRegs regs st i) (consumeState regs st i) := by
  rw [switchmlPass_eq_processSlot cfg (checkSlot_consume hType hDrop hSim) hDrop
    (by rw [hType]; simp [PacketType.code])]
  unfold processSlot
  rw [exponentMax_consume (i := i)]
  · dsimp only
    rw [significandSums_consume (i := i)]
    · rfl
    · exact hType
    · exact consumeMap_eq_zero_of_bitmap
  · exact hType
  · exact consumeMap_eq_zero_of_bitmap

/-- **Harvest pass.** -/
theorem switchmlPass_harvest {j : Fin 8} (hType : st.md.packetType = .harvest j)
    (hDrop : st.dropCtl = false) :
    switchmlPass cfg regs st = finishPass cfg regs (harvestState regs st j) := by
  rw [switchmlPass_eq_processSlot cfg (checkSlot_harvest hType) hDrop
    (by rw [hType]; simp only [PacketType.code]; omega)]
  unfold processSlot
  rw [exponentMax_harvest hType]
  dsimp only
  rw [significandSums_harvest (j := j)]
  · rfl
  · exact hType

end Passes

/-! ## What a pass keeps -/

section Keeps

variable (regs : Registers) (st : PassState)

theorem reconstructWorkerBitmap_fields : reconstructWorkerBitmap st =
    { st with
      workerBitmap :=
        (lookup none st.md.workerId reconstructWorkerBitmapEntries).getD st.workerBitmap
      workerBitmapBefore := if st.md.bitmapBeforeNonzero then 0xffffffff
        else st.workerBitmapBefore
      mapResult := if st.md.mapResultNonzero then 0xffffffff else st.mapResult
      firstLastFlag := if st.md.firstFlag then 0 else if st.md.lastFlag then 1
        else st.firstLastFlag } := by
  unfold reconstructWorkerBitmap
  generalize lookup none st.md.workerId reconstructWorkerBitmapEntries = bitmap
  cases bitmap <;> dsimp only [Option.getD] <;> split_ifs <;> rfl

theorem reconstructWorkerBitmap_md : (reconstructWorkerBitmap st).md = st.md := by
  rw [reconstructWorkerBitmap_fields]

theorem reconstructWorkerBitmap_ingressPort :
    (reconstructWorkerBitmap st).ingressPort = st.ingressPort := by
  rw [reconstructWorkerBitmap_fields]

theorem countWorkers_keeps : (countWorkers regs st).2.md = st.md ∧
    (countWorkers regs st).2.ingressPort = st.ingressPort ∧
    (countWorkers regs st).2.dropCtl = st.dropCtl := by
  unfold countWorkers
  dsimp only
  split <;> exact ⟨rfl, rfl, rfl⟩

/-- Recording a packet changes no metadata, unless it is made to be dropped. -/
theorem checkSlot_keeps : (checkSlot regs st).2.dropCtl = true ∨
    (checkSlot regs st).2.md = st.md ∧
      (checkSlot regs st).2.ingressPort = st.ingressPort := by
  unfold checkSlot
  split
  · have hUpdate : (updateAndCheckWorkerBitmap regs st).2.dropCtl = true ∨
        (updateAndCheckWorkerBitmap regs st).2.md = st.md ∧
          (updateAndCheckWorkerBitmap regs st).2.ingressPort = st.ingressPort := by
      unfold updateAndCheckWorkerBitmap
      dsimp only
      split
      · exact .inr ⟨rfl, rfl⟩
      · exact .inr ⟨rfl, rfl⟩
      · exact .inl rfl
      · exact .inr ⟨rfl, rfl⟩
    obtain ⟨hMd, hPort, hDrop⟩ := countWorkers_keeps (updateAndCheckWorkerBitmap regs st).1
      (updateAndCheckWorkerBitmap regs st).2
    dsimp only
    rw [hMd, hPort, hDrop]
    exact hUpdate
  · exact .inr ⟨rfl, rfl⟩

/-- Up to `next_step`, processing a slot changes only exponents and data. -/
theorem processSlot_keeps (cfg : SwitchConfig) : ∃ regs' st',
    processSlot cfg regs st = finishPass cfg regs' st' ∧ st'.md = st.md ∧
      st'.ingressPort = st.ingressPort := by
  have hExponents :
      (if st.md.lastPacketOfMessage then exponentMax regs st else (regs, st)).2.md = st.md ∧
      (if st.md.lastPacketOfMessage then exponentMax regs st else (regs, st)).2.ingressPort =
        st.ingressPort := by
    split
    · unfold exponentMax
      dsimp only
      split <;> exact ⟨rfl, rfl⟩
    · exact ⟨rfl, rfl⟩
  exact ⟨_, _, rfl, hExponents⟩

end Keeps

/-! ## Where a packet goes -/

/-- What the parser leaves and no control before `next_step` changes. -/
structure PassState.Fresh (st : PassState) : Prop where
  d0Valid : st.d0Valid = true
  d1Valid : st.d1Valid = true
  dropCtl : st.dropCtl = false
  ucastEgressPort : st.ucastEgressPort = none
  mcastGrpA : st.mcastGrpA = none

/-- The metadata of a packet that leaves a pass as type `ty`, with the slot status
recorded. -/
def slotStatus (st : PassState) (ty : PacketType) : SwitchmlMd :=
  { st.md with
    packetType := ty
    mapResultNonzero := st.md.mapResultNonzero || decide (st.mapResult ≠ 0)
    bitmapBeforeNonzero := st.md.bitmapBeforeNonzero || decide (st.workerBitmapBefore ≠ 0)
    firstFlag := st.md.firstFlag || decide (st.firstLastFlag = 0)
    lastFlag := st.md.lastFlag || decide (st.firstLastFlag = 1) }

section Emissions

variable (cfg : SwitchConfig) (regs : Registers) {st : PassState}

/-- The RDMA metadata after a pass: a sequence number may have been assigned. -/
def finishRdmaMd (st : PassState) : SwitchmlRdmaMd := (finishPass cfg regs st).2.rdmaMd

theorem finishPass_state (st : PassState) :
    (finishPass cfg regs st).2 =
      { nextStep cfg.alternateRecircPort st with rdmaMd := finishRdmaMd cfg regs st } := by
  unfold finishRdmaMd finishPass
  dsimp only
  split <;> rfl

/-- The registers after `next_step` differ only in the sequence numbers. -/
theorem finishPass_regs (st : PassState) :
    (finishPass cfg regs st).1 = { regs with psn := (finishPass cfg regs st).1.psn } := by
  unfold finishPass
  dsimp only
  split <;> rfl

/-- One emission lemma for all actions: what is left to each is its effect. -/
theorem emission_finishPass {act : NextStepAction}
    (hAct : MatchAction.lookup .drop (nextStepKey cfg.alternateRecircPort st) nextStepEntries =
      act) :
    emission (finishPass cfg regs st).2 =
      emission { setSlotStatus (act.run cfg.alternateRecircPort st) with
        rdmaMd := finishRdmaMd cfg regs st } := by
  rw [finishPass_state, nextStep, hAct]

theorem emission_drop (hAct : lookup .drop (nextStepKey cfg.alternateRecircPort st)
      nextStepEntries = .drop) :
    emission (finishPass cfg regs st).2 = .dropped := by
  rw [emission_finishPass cfg regs hAct]
  rfl

theorem emission_finishConsume (hAct : lookup .drop (nextStepKey cfg.alternateRecircPort st)
      nextStepEntries = .finishConsume) :
    emission (finishPass cfg regs st).2 = .dropped := by
  rw [emission_finishPass cfg regs hAct]
  rfl

variable (hFresh : st.Fresh)

include hFresh

/-- A consume pass on the way to the next pipe: both slices are used up. -/
theorem emission_recirculateForConsume {ty : PacketType} {port : PortId}
    {act : NextStepAction}
    (hAct : lookup .drop (nextStepKey cfg.alternateRecircPort st) nextStepEntries = act)
    (hRun : act.run cfg.alternateRecircPort st = recirculateForConsume ty port st) :
    emission (finishPass cfg regs st).2 =
      .recirculated port
        ⟨slotStatus st ty, finishRdmaMd cfg regs st, st.exponents, st.payload⟩ := by
  rw [emission_finishPass cfg regs hAct, hRun]
  simp [emission, setSlotStatus, recirculateForConsume, deparse, deparsePayload, slotStatus,
    hFresh.mcastGrpA]

/-- A pass on the way to a harvest pass that keeps the second slice. -/
theorem emission_recirculateForHarvest_d1 {ty : PacketType} {port : PortId}
    {act : NextStepAction}
    (hAct : lookup .drop (nextStepKey cfg.alternateRecircPort st) nextStepEntries = act)
    (hRun : act.run cfg.alternateRecircPort st =
      recirculateForHarvest ty port { st with d0Valid := false }) :
    emission (finishPass cfg regs st).2 =
      .recirculated port
        ⟨slotStatus st ty, finishRdmaMd cfg regs st, st.exponents, st.d1 :: st.payload⟩ := by
  rw [emission_finishPass cfg regs hAct, hRun]
  simp [emission, setSlotStatus, recirculateForHarvest, deparse, deparsePayload, slotStatus,
    hFresh.mcastGrpA, hFresh.d1Valid]

/-- A pass on the way to a harvest pass that keeps the first slice. -/
theorem emission_recirculateForHarvest_d0 {ty : PacketType} {port : PortId}
    {act : NextStepAction}
    (hAct : lookup .drop (nextStepKey cfg.alternateRecircPort st) nextStepEntries = act)
    (hRun : act.run cfg.alternateRecircPort st =
      recirculateForHarvest ty port { st with d1Valid := false }) :
    emission (finishPass cfg regs st).2 =
      .recirculated port
        ⟨slotStatus st ty, finishRdmaMd cfg regs st, st.exponents, st.d0 :: st.payload⟩ := by
  rw [emission_finishPass cfg regs hAct, hRun]
  simp [emission, setSlotStatus, recirculateForHarvest, deparse, deparsePayload, slotStatus,
    hFresh.mcastGrpA, hFresh.d0Valid]

theorem emission_broadcast (hAct : lookup .drop (nextStepKey cfg.alternateRecircPort st)
      nextStepEntries = .broadcastRoce) :
    emission (finishPass cfg regs st).2 =
      .multicast st.md.mgid
        ⟨slotStatus st .broadcast, finishRdmaMd cfg regs st, st.exponents,
          st.d0 :: st.payload⟩ := by
  rw [emission_finishPass cfg regs hAct]
  simp [emission, setSlotStatus, NextStepAction.run, broadcastEth, deparse, deparsePayload,
    slotStatus, hFresh.d0Valid]

theorem emission_retransmit (hAct : lookup .drop (nextStepKey cfg.alternateRecircPort st)
      nextStepEntries = .retransmitRoce) :
    emission (finishPass cfg regs st).2 =
      .unicast st.md.ingressPort
        ⟨slotStatus st .retransmit, finishRdmaMd cfg regs st, st.exponents,
          st.d0 :: st.payload⟩ := by
  rw [emission_finishPass cfg regs hAct]
  simp [emission, setSlotStatus, NextStepAction.run, retransmitEth, deparse, deparsePayload,
    slotStatus, hFresh.d0Valid, hFresh.mcastGrpA]

end Emissions

end SwitchML
