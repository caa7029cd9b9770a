import SwitchML.Protocol.Passes

/-!
# SwitchML protocol — the ways of a job's packets

A packet is consumed pipe after pipe on its worker's lane (`lanePort`); the last
consume pass may start the harvest (`harvestPort`), which goes back through the pipes
and takes one slice from each pass.

* `consume_forwards`, `consume_finishes` — where a packet goes after a consume pass;
* `harvest_continues`, `harvest_ends` — and after a harvest pass.
-/

namespace SwitchML

open MatchAction

-- ---------------------------------------------------------------------------
-- Ports
-- ---------------------------------------------------------------------------

/-- The port on which packets of `w` come to consume pass `i`. -/
def Job.lanePort (job : Job) (w : Fin job.n) (i : Fin 4) : PortId :=
  if i = 0 then job.port w
  else if i = 1 then consume1Port (BitVec.ofNat 16 w)
  else samePortInPipe (BitVec.ofNat 2 i) (consume1Port (BitVec.ofNat 16 w))

/-- The port on which packets come to harvest pass `j`. -/
def Job.harvestPort (job : Job) (j : Fin 8) : PortId :=
  match j with
  | 0 | 1 => 452
  | 2 | 3 => 324
  | 4 => job.alternateRecircPort.getD 196
  | 5 => 196
  | 6 => 64
  | 7 => 68

/-- The first harvest pass. -/
def Job.firstHarvest (job : Job) : Fin 8 := if job.large then 1 else 7

/-- The action that starts the harvest. -/
def Job.startHarvest (job : Job) : NextStepAction :=
  if job.large then .recirculateForHarvest1_1024B 452 else .recirculateForHarvest7_256B 68

/-- The pipe a harvest pass is made in. -/
def harvestPipe (j : Fin 8) : Fin 4 := ⟨(7 - j.val) / 2, by omega⟩

theorem samePortInPipe_trans (a b : BitVec 2) (id : WorkerId) :
    samePortInPipe a (samePortInPipe b (consume1Port id)) = samePortInPipe a (consume1Port id) := by
  revert a b
  refine consume1Port_cases (fun p => ∀ a b, samePortInPipe a (samePortInPipe b p) =
    samePortInPipe a p) ?_ id
  decide

theorem Job.lanePort_pipe (job : Job) (w : Fin job.n) {i : Fin 4} (hi : i ≠ 0) :
    isRecirculationPort (job.lanePort w i) = true ∧ pipeOf (job.lanePort w i) = i := by
  have hPorts : ∀ m : Fin 16, ∀ i : Fin 4, i ≠ 0 →
      isRecirculationPort (if i = 1 then BitVec.ofNat 9 (128 + 4 * m.val)
        else samePortInPipe (BitVec.ofNat 2 i) (BitVec.ofNat 9 (128 + 4 * m.val))) = true ∧
      pipeOf (if i = 1 then BitVec.ofNat 9 (128 + 4 * m.val)
        else samePortInPipe (BitVec.ofNat 2 i) (BitVec.ofNat 9 (128 + 4 * m.val))) = i := by
    decide
  unfold Job.lanePort
  rw [if_neg hi]
  exact consume1Port_cases (fun p => isRecirculationPort (if i = 1 then p
      else samePortInPipe (BitVec.ofNat 2 i) p) = true ∧
    pipeOf (if i = 1 then p else samePortInPipe (BitVec.ofNat 2 i) p) = i)
    (fun m => hPorts m i hi) _

theorem Job.harvestPort_pipe (job : Job) {j : Fin 8} (hj : j ≠ 0) :
    isRecirculationPort (job.harvestPort j) = true ∧
      pipeOf (job.harvestPort j) = harvestPipe j := by
  have hAlt : pipeOf (job.alternateRecircPort.getD 196) = 1 := by
    cases h : job.alternateRecircPort with
    | none => decide
    | some p => exact job.alternate_pipe p h
  match j with
  | 1 => exact ⟨show isRecirculationPort 452 = true by decide, show pipeOf 452 = 3 by decide⟩
  | 2 | 3 => exact ⟨show isRecirculationPort 324 = true by decide, show pipeOf 324 = 2 by decide⟩
  | 4 => exact ⟨isRecirculationPort_of_pipe (.inl rfl) hAlt, hAlt⟩
  | 5 => exact ⟨show isRecirculationPort 196 = true by decide, show pipeOf 196 = 1 by decide⟩
  | 6 => exact ⟨show isRecirculationPort 64 = true by decide, show pipeOf 64 = 0 by decide⟩
  | 7 => exact ⟨show isRecirculationPort 68 = true by decide, show pipeOf 68 = 0 by decide⟩

-- ---------------------------------------------------------------------------
-- Consume passes
-- ---------------------------------------------------------------------------

section Consume

variable {job : Job} {w : Fin job.n} {k : ℕ} {st : PassState} {i : Fin 4}

theorem PassReady.consumeState_fresh (h : PassReady job w k st) (regs : Registers) :
    (consumeState regs st i).Fresh :=
  ⟨h.fresh.1, h.fresh.2, h.fresh.3, h.fresh.4, h.fresh.5⟩

theorem Job.large_of_pipes {job : Job} {i : Fin 4} (hi : i.val + 1 < job.pipes) :
    job.large = true := by
  unfold Job.pipes at hi
  split at hi
  · assumption
  · omega

theorem PassReady.mtu1024 (h : PassReady job w k st) (hLarge : job.large = true) :
    st.md.packetSize = .mtu1024 := by
  rw [h.md.packetSize, Job.packetSize, if_pos hLarge]

theorem PassReady.mtu256 (h : PassReady job w k st) (hLarge : job.large = false) :
    st.md.packetSize = .mtu256 := by
  rw [h.md.packetSize, Job.packetSize, if_neg (by simp [hLarge])]

/-- The first pass of a large packet: a duplicate goes on only if the slot is full. -/
theorem consume0_forwards (hReady : PassReady job w k st) (hLarge : job.large = true)
    (hType : st.md.packetType = .consume 0) (regs regs' : Registers) :
    emission (finishPass job.config regs' (consumeState regs st 0)).2 =
      if consumeMap regs st = 0 ∨ consumeFlag regs st = 0 then
        .recirculated (job.lanePort w 1)
          ⟨slotStatus (consumeState regs st 0) (.consume 1),
            finishRdmaMd job.config regs' (consumeState regs st 0),
            (consumeState regs st 0).exponents, st.payload⟩
      else .dropped := by
  have hAct : lookup .drop (nextStepKey job.config.alternateRecircPort (consumeState regs st 0))
      nextStepEntries =
        if consumeMap regs st = 0 ∨ consumeFlag regs st = 0 then
          .recirculateForConsume1 (consume1Port st.md.workerId)
        else .drop :=
    lookup_consume0_1024B (hReady.mtu1024 hLarge) hType
  split
  · next hOn =>
    rw [if_pos hOn] at hAct
    refine emission_recirculateForConsume _ _ (hReady.consumeState_fresh regs) hAct ?_
    have hPort : consume1Port st.md.workerId = job.lanePort w 1 := by
      rw [hReady.md.workerId]
      rfl
    exact congrArg (recirculateForConsume _ · _) hPort
  · next hOff =>
    rw [if_neg hOff] at hAct
    exact emission_drop _ _ hAct

/-- The passes between the first and the last take a packet to the next pipe. -/
theorem consume12_forwards (hReady : PassReady job w k st) (hLarge : job.large = true)
    (hType : st.md.packetType = .consume i) (hi : i = 1 ∨ i = 2)
    (hPort : st.ingressPort = job.lanePort w i) (regs regs' : Registers) :
    emission (finishPass job.config regs' (consumeState regs st i)).2 =
      .recirculated (job.lanePort w (i + 1))
        ⟨slotStatus (consumeState regs st i) (.consume (i + 1)),
          finishRdmaMd job.config regs' (consumeState regs st i),
          (consumeState regs st i).exponents, st.payload⟩ := by
  have hSize := hReady.mtu1024 hLarge
  have hFresh := hReady.consumeState_fresh (i := i) regs
  have hAct := lookup_nextStepEntries_1024B (k := nextStepKey job.config.alternateRecircPort
    (consumeState regs st i)) hSize
  have hType' : (nextStepKey job.config.alternateRecircPort
    (consumeState regs st i)).packetType = .consume i := hType
  have hSize' : (nextStepKey job.config.alternateRecircPort
    (consumeState regs st i)).packetSize = .mtu1024 := hSize
  have hStay : (consumeState regs st i).ingressPort = st.ingressPort := rfl
  rcases hi with rfl | rfl
  · refine emission_recirculateForConsume _ _ hFresh (hAct (by simp [hType'])) ?_
    simp [largePacketRows, nextStepRow, lookup_cons, hType', hSize', NextStepAction.run, hStay,
      hPort]
    rfl
  · refine emission_recirculateForConsume _ _ hFresh (hAct (by simp [hType'])) ?_
    simp [largePacketRows, nextStepRow, lookup_cons, hType', hSize', NextStepAction.run, hStay,
      hPort]
    rw [show job.lanePort w 2 = samePortInPipe 2 (consume1Port (BitVec.ofNat 16 w)) from rfl,
      samePortInPipe_trans]
    rfl

/-- A consume pass before the last takes new packets on; from the first pass duplicates
go on only if the slot is full, from the others always. -/
theorem consume_forwards (hReady : PassReady job w k st)
    (hType : st.md.packetType = .consume i) (hi : i.val + 1 < job.pipes)
    (hPort : st.ingressPort = job.lanePort w i) (regs regs' : Registers) :
    emission (finishPass job.config regs' (consumeState regs st i)).2 =
      if i ≠ 0 ∨ consumeMap regs st = 0 ∨ consumeFlag regs st = 0 then
        .recirculated (job.lanePort w (i + 1))
          ⟨slotStatus (consumeState regs st i) (.consume (i + 1)),
            finishRdmaMd job.config regs' (consumeState regs st i),
            (consumeState regs st i).exponents, st.payload⟩
      else .dropped := by
  have hLarge := Job.large_of_pipes hi
  have hCases : i = 0 ∨ i = 1 ∨ i = 2 := by
    unfold Job.pipes at hi
    rw [if_pos hLarge] at hi
    omega
  rcases hCases with rfl | hi
  · rw [consume0_forwards hReady hLarge hType]
    simp
  · rw [consume12_forwards hReady hLarge hType hi hPort,
      if_pos (.inl (by rcases hi with rfl | rfl <;> decide))]

/-- The last consume pass starts the harvest, with the second slice, for a new packet
that fills the slot up and for a duplicate that finds it full; but also for a duplicate
that finds one worker missing. -/
theorem consume_finishes (hReady : PassReady job w k st)
    (hType : st.md.packetType = .consume i) (hi : i.val + 1 = job.pipes)
    (regs regs' : Registers) :
    emission (finishPass job.config regs' (consumeState regs st i)).2 =
      if consumeFlag regs st = 1 ∨ consumeMap regs st ≠ 0 ∧ consumeFlag regs st = 0 then
        .recirculated (job.harvestPort job.firstHarvest)
          ⟨slotStatus (consumeState regs st i) (.harvest job.firstHarvest),
            finishRdmaMd job.config regs' (consumeState regs st i),
            (consumeState regs st i).exponents, (consumeState regs st i).d1 :: st.payload⟩
      else .dropped := by
  have hFresh := hReady.consumeState_fresh (i := i) regs
  have hAct : lookup .drop (nextStepKey job.config.alternateRecircPort (consumeState regs st i))
      nextStepEntries =
        if consumeFlag regs st = 1 then job.startHarvest
        else if consumeMap regs st = 0 then .finishConsume
        else if consumeFlag regs st = 0 then job.startHarvest else .drop := by
    unfold Job.startHarvest
    unfold Job.pipes at hi
    cases hLarge : job.large with
    | true =>
      obtain rfl : i = 3 := by
        rw [if_pos hLarge] at hi
        omega
      exact lookup_consume3_1024B (hReady.mtu1024 hLarge) hType
    | false =>
      obtain rfl : i = 0 := by
        rw [if_neg (by simp [hLarge])] at hi
        omega
      exact lookup_consume0_256B (hReady.mtu256 hLarge) hType
  have hRun : job.startHarvest.run job.config.alternateRecircPort (consumeState regs st i) =
      recirculateForHarvest (.harvest job.firstHarvest) (job.harvestPort job.firstHarvest)
        { consumeState regs st i with d0Valid := false } := by
    unfold Job.startHarvest Job.firstHarvest
    cases job.large <;> rfl
  by_cases hOne : consumeFlag regs st = 1
  · rw [if_pos hOne] at hAct
    rw [if_pos (.inl hOne)]
    exact emission_recirculateForHarvest_d1 _ _ hFresh hAct hRun
  rw [if_neg hOne] at hAct
  by_cases hMap : consumeMap regs st = 0
  · rw [if_pos hMap] at hAct
    rw [if_neg (fun h => h.elim hOne fun h => h.1 hMap), emission_finishConsume _ _ hAct]
  rw [if_neg hMap] at hAct
  by_cases hZero : consumeFlag regs st = 0
  · rw [if_pos hZero] at hAct
    rw [if_pos (.inr ⟨hMap, hZero⟩)]
    exact emission_recirculateForHarvest_d1 _ _ hFresh hAct hRun
  · rw [if_neg hZero] at hAct
    rw [if_neg (fun h => h.elim hOne fun h => hZero h.2), emission_drop _ _ hAct]

end Consume

-- ---------------------------------------------------------------------------
-- Harvest passes
-- ---------------------------------------------------------------------------

section Harvest

variable {job : Job} {w : Fin job.n} {k : ℕ} {st : PassState} {j : Fin 8}

/-- The slice of the slot a harvest pass reads. -/
def harvestSlice (regs : Registers) (p : PoolIndex) (j : Fin 8) : Data := fun l =>
  if j.val % 2 = 0 then (regs.significands l p).second else (regs.significands l p).first

theorem PassReady.harvestState_fresh (h : PassReady job w k st) (regs : Registers) :
    (harvestState regs st j).Fresh :=
  ⟨h.fresh.1, h.fresh.2, h.fresh.3, h.fresh.4, h.fresh.5⟩

/-- The port of the next harvest pass; the passes from one port to the next in the same
pipe take the port they came on. -/
theorem harvest_continues (hReady : PassReady job w k st) (hLarge : job.large = true)
    (hType : st.md.packetType = .harvest j) (hj : 0 < j.val ∧ j.val < 7)
    (hPort : st.ingressPort = job.harvestPort j) (regs regs' : Registers) :
    emission (finishPass job.config regs' (harvestState regs st j)).2 =
      .recirculated (job.harvestPort (j + 1))
        ⟨slotStatus (harvestState regs st j) (.harvest (j + 1)),
          finishRdmaMd job.config regs' (harvestState regs st j),
          (harvestState regs st j).exponents,
          harvestSlice regs st.md.poolIndex j :: st.payload⟩ := by
  have hFresh := hReady.harvestState_fresh (j := j) regs
  have hType' : (nextStepKey job.config.alternateRecircPort
    (harvestState regs st j)).packetType = .harvest j := hType
  have hSize : (nextStepKey job.config.alternateRecircPort
    (harvestState regs st j)).packetSize = .mtu1024 := hReady.mtu1024 hLarge
  have hAlt : (nextStepKey job.config.alternateRecircPort
    (harvestState regs st j)).useAlternateRecircPort = job.alternateRecircPort.isSome := rfl
  have hAct := lookup_nextStepEntries_1024B hSize (by simp [hType'])
  have hStay : (harvestState regs st j).ingressPort = st.ingressPort := rfl
  match j, hj with
  | 1, _ | 5, _ =>
    refine emission_recirculateForHarvest_d0 _ _ hFresh hAct ?_
    simp [largePacketRows, nextStepRow, lookup_cons, hType', hSize, NextStepAction.run]
    rfl
  | 2, _ =>
    refine emission_recirculateForHarvest_d1 _ _ hFresh hAct ?_
    simp [largePacketRows, nextStepRow, lookup_cons, hType', hSize, NextStepAction.run, hStay,
      hPort]
    rfl
  | 3, _ =>
    refine emission_recirculateForHarvest_d0 _ _ hFresh hAct ?_
    cases hSome : job.alternateRecircPort with
    | none =>
      simp [largePacketRows, nextStepRow, lookup_cons, hType', hSize, NextStepAction.run, hAlt,
        hSome, Job.harvestPort]
    | some p =>
      simp [largePacketRows, nextStepRow, lookup_cons, hType', hSize, NextStepAction.run, hAlt,
        hSome, Job.harvestPort]
      rw [show job.config.alternateRecircPort = some p from hSome]
      rfl
  | 4, _ | 6, _ =>
    refine emission_recirculateForHarvest_d1 _ _ hFresh hAct ?_
    simp [largePacketRows, nextStepRow, lookup_cons, hType', hSize, NextStepAction.run]
    rfl

/-- The last harvest pass answers all workers, or the sender of a duplicate, or nobody. -/
theorem harvest_ends (hReady : PassReady job w k st) (hType : st.md.packetType = .harvest 7)
    (regs regs' : Registers) :
    let pkt ty : Packet := ⟨slotStatus (harvestState regs st 7) ty,
      finishRdmaMd job.config regs' (harvestState regs st 7),
      (harvestState regs st 7).exponents, harvestSlice regs st.md.poolIndex 7 :: st.payload⟩
    emission (finishPass job.config regs' (harvestState regs st 7)).2 =
      if st.firstLastFlag = 1 ∧ st.mapResult = 0 then .multicast job.mgid (pkt .broadcast)
      else if st.firstLastFlag = 0 ∧ st.mapResult ≠ 0 then .unicast (job.port w) (pkt .retransmit)
      else .dropped := by
  intro pkt
  have hFresh := hReady.harvestState_fresh (j := 7) regs
  have hSize : st.md.packetSize = .mtu256 ∨ st.md.packetSize = .mtu1024 := by
    rw [hReady.md.packetSize, Job.packetSize]
    split
    · exact .inr rfl
    · exact .inl rfl
  have hAct : lookup .drop (nextStepKey job.config.alternateRecircPort (harvestState regs st 7))
      nextStepEntries =
        if st.firstLastFlag = 1 ∧ st.mapResult = 0 then .broadcastRoce
        else if st.firstLastFlag = 0 ∧ st.mapResult ≠ 0 then .retransmitRoce
        else .drop :=
    lookup_harvest7_roce hSize hType hReady.md.workerType
  have hMd : (harvestState regs st 7).md = st.md := rfl
  split
  · next hAll =>
    rw [if_pos hAll] at hAct
    rw [emission_broadcast _ _ hFresh hAct, hMd, hReady.md.mgid]
    rfl
  next hNotAll =>
  rw [if_neg hNotAll] at hAct
  split
  · next hOne =>
    rw [if_pos hOne] at hAct
    rw [emission_retransmit _ _ hFresh hAct, hMd, hReady.md.ingressPort]
    rfl
  · next hNone =>
    rw [if_neg hNone] at hAct
    exact emission_drop _ _ hAct

end Harvest

end SwitchML
