import SwitchML.Protocol.Routes

/-!
# SwitchML protocol — the moves of the slot machine

What a step of the slot machine can do, said once: `SlotMove` lists the moves with
the packet that makes the pass, the registers before and after it and where the packet
goes. The invariants of later modules are proved over `SlotMove` and never look into a
pass again.

* `slotStep_move` — every step is a move, unless a duplicate makes its last consume
  pass at the wrong moment (`Misread`);
* `SlotMove.wellFormed` — moves keep the packets on the links and ports well-formed.
-/

namespace SwitchML

-- ---------------------------------------------------------------------------
-- Well-formed states
-- ---------------------------------------------------------------------------

namespace Flight

variable {n : ℕ}

/-- The packet was seen before in some pipe. -/
def dup (f : Flight n) : Bool := f.pkt.md.mapResultNonzero

/-- On the way of `w`'s packets to consume pass `i`. -/
def onLane (i : Fin 4) (w : Fin n) (f : Flight n) : Bool :=
  decide (f.pkt.md.packetType = .consume i) && decide (f.tag.worker = w)

/-- On the way to harvest pass `j`. -/
def onHarvest (j : Fin 8) (f : Flight n) : Bool := decide (f.pkt.md.packetType = .harvest j)

end Flight

section Emit

variable {n : ℕ} (s : SlotState n) (id : ℕ) (tag : Tag n) (ty : PacketType) (out : Emission)

@[simp] theorem SlotState.emit_log :
    (s.emit id tag ty out).log = s.log ++ [⟨id, tag, ty, out⟩] := by
  cases out <;> rfl

@[simp] theorem SlotState.emit_sent : (s.emit id tag ty out).sent = s.sent := by
  cases out <;> rfl

@[simp] theorem SlotState.emit_pos : (s.emit id tag ty out).pos = s.pos := by
  cases out <;> rfl

@[simp] theorem SlotState.emit_uplink : (s.emit id tag ty out).uplink = s.uplink := by
  cases out <;> rfl

@[simp] theorem SlotState.emit_nextId : (s.emit id tag ty out).nextId = s.nextId := by
  cases out <;> rfl

/-- The packet that goes to a recirculation port. -/
def Emission.flight : Emission → List (Flight n)
  | .recirculated port pkt => [⟨id, tag, port, pkt⟩]
  | _ => []

@[simp] theorem SlotState.emit_recirc :
    (s.emit id tag ty out).recirc = s.recirc ++ out.flight id tag := by
  cases out <;> simp [SlotState.emit, Emission.flight]

theorem Emission.flight_id {f : Flight n} (hf : f ∈ out.flight id tag) :
    f.id = id ∧ f.tag = tag ∧ out = .recirculated f.port f.pkt := by
  cases out <;> simp_all [Emission.flight]

theorem Emission.flight_nodup : ((out.flight id tag).map Flight.id).Nodup := by
  cases out <;> simp [Emission.flight]

end Emit

/-- A packet on a recirculation port: it waits for a consume pass, with the slices that
are left, or for a harvest pass. -/
structure FlightOk (job : Job) (f : Flight job.n) : Prop where
  md : MdOk job f.tag.worker f.tag.chunk f.pkt.md
  sendable : job.sendable f.tag.worker f.tag.chunk f.tag.sent = true
  route : (∃ i : Fin 4, i ≠ 0 ∧ i.val < job.pipes ∧ f.pkt.md.packetType = .consume i ∧
      f.port = job.lanePort f.tag.worker i ∧
      f.pkt.payload = f.tag.sent.payload.drop (2 * i.val)) ∨
    ∃ j : Fin 8, job.firstHarvest ≤ j ∧ f.pkt.md.packetType = .harvest j ∧
      f.port = job.harvestPort j

/-- It has made its first pass. -/
theorem FlightOk.not_first {job : Job} {f : Flight job.n} (h : FlightOk job f) :
    f.pkt.md.packetType ≠ .consume 0 := by
  intro hType
  rcases h.route with ⟨i, hi, -, hConsume, -⟩ | ⟨j, -, hHarvest, -⟩
  · rw [hType] at hConsume
    exact hi (PacketType.consume.inj hConsume).symm
  · rw [hType] at hHarvest
    exact absurd hHarvest (by simp)

structure WellFormed (job : Job) (s : SlotState job.n) : Prop where
  uplink : ∀ w, ∀ x ∈ s.uplink w, job.sendable w x.1 x.2 = true
  flights : ∀ f ∈ s.recirc, FlightOk job f
  downlink : ∀ w, ∀ x ∈ s.downlink w, x.2.md.poolIndex = job.pool x.1

-- ---------------------------------------------------------------------------
-- Passes
-- ---------------------------------------------------------------------------

/-- Pass `CONSUME<i>` of a packet: `st` is the packet as it meets the slot, `regs` the
registers it meets. -/
structure ConsumePass (job : Job) (before after : Registers) (i : Fin 4) (tag : Tag job.n)
    (st : PassState) (regs : Registers) (out : Emission) : Prop where
  lt : i.val < job.pipes
  ready : PassReady job tag.worker tag.chunk st
  type : st.md.packetType = .consume i
  sendable : job.sendable tag.worker tag.chunk tag.sent = true
  data : st.d0 :: st.d1 :: st.payload = tag.sent.payload.drop (2 * i.val)
  meets : SameSlot job.slot before regs
  leaves : SameSlot job.slot (consumeRegs regs st i) after
  forwards : i.val + 1 < job.pipes → ∃ rdmaMd, out =
    if i ≠ 0 ∨ consumeMap regs st = 0 ∨ consumeFlag regs st = 0 then
      .recirculated (job.lanePort tag.worker (i + 1))
        ⟨slotStatus (consumeState regs st i) (.consume (i + 1)), rdmaMd,
          (consumeState regs st i).exponents, st.payload⟩
    else .dropped
  finishes : i.val + 1 = job.pipes → ∃ rdmaMd, out =
    if consumeFlag regs st = 1 ∨ consumeMap regs st ≠ 0 ∧ consumeFlag regs st = 0 then
      .recirculated (job.harvestPort job.firstHarvest)
        ⟨slotStatus (consumeState regs st i) (.harvest job.firstHarvest), rdmaMd,
          (consumeState regs st i).exponents, (consumeState regs st i).d1 :: st.payload⟩
    else .dropped

/-- A packet that leaves a harvest pass is the packet that came in with a slice put in
front. -/
structure Harvested (job : Job) (regs : Registers) (j : Fin 8) (f : Flight job.n)
    (ty : PacketType) (pkt : Packet) : Prop where
  md : MdOk job f.tag.worker f.tag.chunk pkt.md
  type : pkt.md.packetType = ty
  dup : pkt.md.mapResultNonzero = f.pkt.md.mapResultNonzero
  first : pkt.md.firstFlag = f.pkt.md.firstFlag
  last : pkt.md.lastFlag = f.pkt.md.lastFlag
  payload : pkt.payload = harvestSlice regs (job.pool f.tag.chunk) j :: f.pkt.payload
  exponents : pkt.exponents = if job.last f.tag.chunk = true ∧ j = 7 then
      { f.pkt.exponents with e1 := (regs.exponents (job.pool f.tag.chunk)).second }
    else f.pkt.exponents

/-- Pass `HARVEST<j>` of a packet. -/
structure HarvestPass (job : Job) (before after : Registers) (j : Fin 8) (f : Flight job.n)
    (out : Emission) : Prop where
  type : f.pkt.md.packetType = .harvest j
  leaves : SameSlot job.slot before after
  continues : j ≠ 7 → ∃ pkt, Harvested job before j f (.harvest (j + 1)) pkt ∧
    out = .recirculated (job.harvestPort (j + 1)) pkt
  ends : j = 7 →
    if f.pkt.md.firstFlag = false ∧ f.pkt.md.lastFlag = true ∧ f.dup = false then
      ∃ pkt, Harvested job before j f .broadcast pkt ∧ out = .multicast job.mgid pkt
    else if f.pkt.md.firstFlag = true ∧ f.dup = true then
      ∃ pkt, Harvested job before j f .retransmit pkt ∧
        out = .unicast (job.port f.tag.worker) pkt
    else out = .dropped

/-- The packet that goes on from a consume pass. -/
theorem ConsumePass.flight {job : Job} {before after regs : Registers} {i : Fin 4}
    {tag : Tag job.n} {st : PassState} {out : Emission}
    (hPass : ConsumePass job before after i tag st regs out) {id : ℕ} {g : Flight job.n}
    (hg : g ∈ out.flight id tag) :
    ∃ ty, g.pkt.md = slotStatus (consumeState regs st i) ty ∧
      g.pkt.exponents = (consumeState regs st i).exponents ∧
      ((i.val + 1 < job.pipes ∧ ty = .consume (i + 1)) ∨
        (i.val + 1 = job.pipes ∧ ty = .harvest job.firstHarvest ∧
          (consumeFlag regs st = 1 ∨ consumeMap regs st ≠ 0 ∧ consumeFlag regs st = 0))) := by
  obtain ⟨-, -, hEmit⟩ := Emission.flight_id _ _ _ hg
  rcases Nat.lt_or_eq_of_le (Nat.succ_le_of_lt hPass.lt) with hNext | hEnd
  · obtain ⟨rdmaMd, hOut⟩ := hPass.forwards hNext
    rw [hEmit] at hOut
    split at hOut
    · rw [(Emission.recirculated.inj hOut).2]
      exact ⟨_, rfl, rfl, .inl ⟨hNext, rfl⟩⟩
    · exact absurd hOut (by simp)
  · obtain ⟨rdmaMd, hOut⟩ := hPass.finishes hEnd
    rw [hEmit] at hOut
    split at hOut
    · next hOn =>
      rw [(Emission.recirculated.inj hOut).2]
      exact ⟨_, rfl, rfl, .inr ⟨hEnd, rfl, hOn⟩⟩
    · exact absurd hOut (by simp)

/-- A packet in the harvest goes to the next harvest pass. -/
theorem HarvestPass.flight_harvested {job : Job} {before after : Registers} {j : Fin 8}
    {f g : Flight job.n} {out : Emission} (hPass : HarvestPass job before after j f out)
    (hg : g ∈ out.flight f.id f.tag) :
    ∃ pkt, Harvested job before j f (.harvest (j + 1)) pkt ∧
      g = ⟨f.id, f.tag, job.harvestPort (j + 1), pkt⟩ := by
  by_cases hj : j = 7
  · have hEnds := hPass.ends hj
    split at hEnds
    · obtain ⟨pkt, -, rfl⟩ := hEnds
      exact absurd hg (by simp [Emission.flight])
    · split at hEnds
      · obtain ⟨pkt, -, rfl⟩ := hEnds
        exact absurd hg (by simp [Emission.flight])
      · rw [hEnds] at hg
        exact absurd hg (by simp [Emission.flight])
  · obtain ⟨pkt, hPkt, rfl⟩ := hPass.continues hj
    exact ⟨pkt, hPkt, List.mem_singleton.mp hg⟩

-- ---------------------------------------------------------------------------
-- Moves
-- ---------------------------------------------------------------------------

/-- The moves of the slot machine. Where a packet makes a pass, no duplicate makes its
last consume pass over several pipes while one worker is missing. -/
inductive SlotMove (job : Job) (d : Discipline) (s : SlotState job.n) : SlotState job.n → Prop where
  | stay {regs : Fin 4 → Registers} (hRegs : ∀ i, SameSlot job.slot (s.regs i) (regs i)) :
      SlotMove job d s { s with regs }
  | send (w : Fin job.n) {rp : RocePacket} (hSend : job.sendable w (s.pos w) rp = true)
      (hFree : s.sent w = false ∨ d.resends = true) :
      SlotMove job d s
        { s with
          uplink := Function.update s.uplink w (s.uplink w ++ [(s.pos w, rp)])
          sent := Function.update s.sent w true }
  | loseUp (w : Fin job.n) {l : List (ℕ × RocePacket)} (hl : l.Sublist (s.uplink w))
      {regs : Fin 4 → Registers} (hRegs : ∀ i, SameSlot job.slot (s.regs i) (regs i)) :
      SlotMove job d s { s with uplink := Function.update s.uplink w l, regs }
  | loseDown (w : Fin job.n) {l : List (ℕ × Packet)} (hl : l.Sublist (s.downlink w)) :
      SlotMove job d s { s with downlink := Function.update s.downlink w l }
  | advance (w : Fin job.n) {k : ℕ} {pkt : Packet} {rest : List (ℕ × Packet)}
      (hDown : s.downlink w = (k, pkt) :: rest) (hAdv : d.advances = true)
      (hPool : pkt.md.poolIndex = job.pool (s.pos w)) :
      SlotMove job d s
        { s with
          downlink := Function.update s.downlink w rest
          pos := Function.update s.pos w (s.pos w + 1)
          sent := Function.update s.sent w false }
  | arrive (w : Fin job.n) {k : ℕ} {rp : RocePacket} {rest : List (ℕ × RocePacket)}
      {st : PassState} {regs after : Registers} {out : Emission}
      (hUp : s.uplink w = (k, rp) :: rest)
      (hPass : ConsumePass job (s.regs 0) after 0 ⟨w, k, rp⟩ st regs out)
      (hExp : st.exponents = rp.exponents)
      (hFlags : st.md.mapResultNonzero = false ∧ st.md.firstFlag = false ∧
        st.md.lastFlag = false) :
      SlotMove job d s
        ({ s with
            uplink := Function.update s.uplink w rest
            regs := Function.update s.regs 0 after
            nextId := s.nextId + 1 }.emit s.nextId ⟨w, k, rp⟩ (.consume 0) out)
  | consume (i : Fin 4) {pre post : List (Flight job.n)} {f : Flight job.n} {st : PassState}
      {regs after : Registers} {out : Emission} (hi : i ≠ 0) (hRecirc : s.recirc = pre ++ f :: post)
      (hFifo : d.fifo = true → ∀ g ∈ pre, g.port ≠ f.port)
      (hPass : ConsumePass job (s.regs i) after i f.tag st regs out)
      (hMd : st.md = f.pkt.md) (hExp : st.exponents = f.pkt.exponents)
      (hClean : i.val + 1 = job.pipes → f.dup = true →
        (s.regs i).workerCount (job.pool f.tag.chunk) ≠ 1) :
      SlotMove job d s
        ({ s with recirc := pre ++ post, regs := Function.update s.regs i after }.emit
          f.id f.tag (.consume i) out)
  | harvest (j : Fin 8) {pre post : List (Flight job.n)} {f : Flight job.n} {after : Registers}
      {out : Emission} (hj : j ≠ 0) (hRecirc : s.recirc = pre ++ f :: post)
      (hFifo : d.fifo = true → ∀ g ∈ pre, g.port ≠ f.port)
      (hPass : HarvestPass job (s.regs (harvestPipe j)) after j f out) :
      SlotMove job d s
        ({ s with recirc := pre ++ post, regs := Function.update s.regs (harvestPipe j) after }.emit
          f.id f.tag (.harvest j) out)

-- ---------------------------------------------------------------------------
-- Passes of well-formed packets
-- ---------------------------------------------------------------------------

theorem finishPass_sameSlot (slot : SlotIndex) (cfg : SwitchConfig) (regs : Registers)
    (st : PassState) : SameSlot slot regs (finishPass cfg regs st).1 := by
  rw [finishPass_regs]
  exact SameSlot.of_eq rfl rfl rfl rfl

/-- The slices that are left for consume pass `i`. -/
theorem exists_slices_left {job : Job} {l : List Data} (h : l.length = job.slices) {i : Fin 4}
    (hi : i.val < job.pipes) : ∃ d0 d1 rest, l.drop (2 * i.val) = d0 :: d1 :: rest := by
  have hLength : 2 ≤ (l.drop (2 * i.val)).length := by
    rw [List.length_drop, h, Job.slices]
    omega
  match hDrop : l.drop (2 * i.val), hLength with
  | d0 :: d1 :: rest, _ => exact ⟨d0, d1, rest, rfl⟩

theorem Job.sendable_length {job : Job} {w : Fin job.n} {k : ℕ} {rp : RocePacket}
    (h : job.sendable w k rp = true) : rp.payload.length = job.slices := by
  simp only [Job.sendable, Bool.and_eq_true, decide_eq_true_eq] at h
  exact h.2

/-- A packet that waits for a consume pass makes it. -/
theorem FlightOk.consumes {job : Job} {f : Flight job.n} (h : FlightOk job f) {i : Fin 4}
    (hType : f.pkt.md.packetType = .consume i) (regs : Registers) :
    i ≠ 0 ∧ pipeOf f.port = i ∧
    ∃ st, ConsumePass job regs (recirculate job.config f.port f.pkt regs).1 i f.tag st regs
        (recirculate job.config f.port f.pkt regs).2 ∧
      st.md = f.pkt.md ∧ st.exponents = f.pkt.exponents := by
  obtain ⟨i', hi, hLt, hType', hPort, hPayload⟩ : ∃ i' : Fin 4, i' ≠ 0 ∧ i'.val < job.pipes ∧
      f.pkt.md.packetType = .consume i' ∧ f.port = job.lanePort f.tag.worker i' ∧
      f.pkt.payload = f.tag.sent.payload.drop (2 * i'.val) := by
    rcases h.route with hConsume | ⟨j, -, hHarvest, -⟩
    · exact hConsume
    · rw [hType] at hHarvest
      exact absurd hHarvest (by simp)
  obtain rfl : i' = i := by
    rw [hType'] at hType
    simpa using hType
  obtain ⟨hRecirc, hPipe⟩ := job.lanePort_pipe f.tag.worker hi
  obtain ⟨d0, d1, rest, hSlices⟩ := exists_slices_left (Job.sendable_length h.sendable) hLt
  obtain ⟨st, hReady, hMd, h0, h1, hRest, hIngress, hExp, hRun⟩ :=
    recirculate_enters_consume h.md hType hi (hPort ▸ hRecirc) (hPayload.trans hSlices)
  have hTypeSt : st.md.packetType = .consume i' := by rw [hMd, hType]
  refine ⟨hi, hPort ▸ hPipe, st, ⟨hLt, hReady, hTypeSt, h.sendable, ?_, SameSlot.refl _ _, ?_, ?_,
    ?_⟩, hMd, hExp⟩
  · rw [h0, h1, hRest, hSlices]
  · rw [hRun]
    exact finishPass_sameSlot _ _ _ _
  · intro hNext
    rw [hRun]
    exact ⟨_, consume_forwards hReady hTypeSt hNext (hIngress.trans hPort) regs _⟩
  · intro hEnd
    rw [hRun]
    exact ⟨_, consume_finishes hReady hTypeSt hEnd regs _⟩

/-- Flags that were read back from the metadata are recorded as they were. -/
theorem slotStatus_harvest {st : PassState} {md : SwitchmlMd} (regs : Registers) (j : Fin 8)
    (ty : PacketType) (hMd : st.md = md)
    (hMap : st.mapResult = if md.mapResultNonzero then 0xffffffff else 0)
    (hFlag : st.firstLastFlag = if md.firstFlag then 0 else if md.lastFlag then 1 else 0xff) :
    (slotStatus (harvestState regs st j) ty).mapResultNonzero = md.mapResultNonzero ∧
    (slotStatus (harvestState regs st j) ty).firstFlag = md.firstFlag ∧
    (slotStatus (harvestState regs st j) ty).lastFlag = md.lastFlag := by
  have hStay : (harvestState regs st j).mapResult = st.mapResult ∧
      (harvestState regs st j).firstLastFlag = st.firstLastFlag ∧
      (harvestState regs st j).md = st.md := ⟨rfl, rfl, rfl⟩
  simp only [slotStatus, hStay, hMd, hMap, hFlag]
  cases md.mapResultNonzero <;> cases md.firstFlag <;> cases md.lastFlag <;> simp

/-- A packet that waits for a harvest pass makes it. -/
theorem FlightOk.harvests {job : Job} {f : Flight job.n} (h : FlightOk job f) {j : Fin 8}
    (hType : f.pkt.md.packetType = .harvest j) (regs : Registers) :
    j ≠ 0 ∧ pipeOf f.port = harvestPipe j ∧
    HarvestPass job regs (recirculate job.config f.port f.pkt regs).1 j f
      (recirculate job.config f.port f.pkt regs).2 := by
  obtain ⟨hFirst, hPort⟩ : job.firstHarvest ≤ j ∧ f.port = job.harvestPort j := by
    rcases h.route with ⟨i, -, -, hConsume, -⟩ | ⟨j', hLe, hHarvest, hPort⟩
    · rw [hType] at hConsume
      exact absurd hConsume (by simp)
    · rw [hType] at hHarvest
      obtain rfl : j = j' := by simpa using hHarvest
      exact ⟨hLe, hPort⟩
  have hj : j ≠ 0 := by
    rintro rfl
    unfold Job.firstHarvest at hFirst
    split at hFirst <;> exact absurd hFirst (by decide)
  obtain ⟨hRecirc, hPipe⟩ := job.harvestPort_pipe hj
  obtain ⟨st, hReady, hMd, -, hPayload, hIngress, hExp, hMap, hFlag, hRun⟩ :=
    recirculate_enters_harvest h.md hType (hPort ▸ hRecirc)
  have hTypeSt : st.md.packetType = .harvest j := by rw [hMd, hType]
  have hHarvested : ∀ ty rdmaMd, Harvested job regs j f ty
      ⟨slotStatus (harvestState regs st j) ty, rdmaMd, (harvestState regs st j).exponents,
        harvestSlice regs st.md.poolIndex j :: st.payload⟩ := by
    intro ty rdmaMd
    obtain ⟨hDup, hFirst, hLast⟩ := slotStatus_harvest regs j ty hMd hMap hFlag
    refine ⟨hReady.md.slotStatus ty, rfl, hDup, hFirst, hLast, ?_, ?_⟩
    · rw [hReady.md.poolIndex, hPayload]
    · simp only [harvestState, hReady.md.last, hReady.md.poolIndex, hExp]
  refine ⟨hj, hPort ▸ hPipe, hType, ?_, fun hNe => ?_, ?_⟩
  · rw [hRun]
    exact finishPass_sameSlot _ _ _ _
  · have hLarge : job.large = true := by
      unfold Job.firstHarvest at hFirst
      split at hFirst
      · assumption
      · omega
    have hOut := harvest_continues hReady hLarge hTypeSt ⟨by omega, by omega⟩
      (hIngress.trans hPort) regs regs
    rw [hRun]
    exact ⟨_, hHarvested (.harvest (j + 1)) _, hOut⟩
  · rintro rfl
    have hOut := harvest_ends hReady hTypeSt regs regs
    have hAll : st.firstLastFlag = 1 ∧ st.mapResult = 0 ↔
        f.pkt.md.firstFlag = false ∧ f.pkt.md.lastFlag = true ∧ f.dup = false := by
      rw [hFlag, hMap, Flight.dup]
      cases f.pkt.md.mapResultNonzero <;> cases f.pkt.md.firstFlag <;>
        cases f.pkt.md.lastFlag <;> simp
    have hOne : st.firstLastFlag = 0 ∧ st.mapResult ≠ 0 ↔
        f.pkt.md.firstFlag = true ∧ f.dup = true := by
      rw [hFlag, hMap, Flight.dup]
      cases f.pkt.md.mapResultNonzero <;> cases f.pkt.md.firstFlag <;>
        cases f.pkt.md.lastFlag <;> simp
    simp only [hAll, hOne] at hOut
    rw [hRun]
    dsimp only
    rw [hOut]
    split
    · exact ⟨_, hHarvested .broadcast _, rfl⟩
    · split
      · exact ⟨_, hHarvested .retransmit _, rfl⟩
      · rfl

/-- A packet of a worker that the receive stage takes makes its first pass. -/
theorem receive_consumes {job : Job} {w : Fin job.n} {k : ℕ} {rp : RocePacket}
    {regs : Registers} (hSend : job.sendable w k rp = true)
    (hPool : receivedPoolIndex job.config.workers rp regs = some (job.pool k)) :
    ∃ st regs', ConsumePass job regs (receiveRoce job.config {} (job.port w) rp regs).1 0
        ⟨w, k, rp⟩ st regs' (receiveRoce job.config {} (job.port w) rp regs).2 ∧
      st.exponents = rp.exponents ∧ st.md.mapResultNonzero = false ∧
      st.md.firstFlag = false ∧ st.md.lastFlag = false := by
  obtain ⟨regs', st, hSame, hReady, hType, hDup, hFirst, hLast, hData, hPort, hExp, hRun⟩ :=
    receive_enters hSend hPool
  have hPipes : 0 < job.pipes := by
    unfold Job.pipes
    split <;> omega
  refine ⟨st, regs', ⟨hPipes, hReady, hType, hSend, hData, hSame, ?_, ?_, ?_⟩, hExp, hDup, hFirst,
    hLast⟩
  · rw [hRun]
    exact finishPass_sameSlot _ _ _ _
  · intro hNext
    rw [hRun]
    exact ⟨_, consume_forwards hReady hType hNext hPort regs' _⟩
  · intro hEnd
    rw [hRun]
    exact ⟨_, consume_finishes hReady hType hEnd regs' _⟩

-- ---------------------------------------------------------------------------
-- Steps are moves
-- ---------------------------------------------------------------------------

/-- The packet that makes the pass of step `recirculate i`. -/
def SlotState.next {n : ℕ} (d : Discipline) (s : SlotState n) (i : ℕ) : Option (Flight n) :=
  match s.recirc[i]? with
  | none => none
  | some f =>
    if d.fifo && (s.recirc.take i).any fun g => decide (g.port = f.port) then none else some f

/-- In this step a duplicate of 1024 bytes makes its last consume pass while one worker
is missing in pipe 3. -/
def misreads (job : Job) (d : Discipline) (s : SlotState job.n) : SlotLabel job.n → Bool
  | .recirculate i =>
    match s.next d i with
    | none => false
    | some f =>
      decide (f.pkt.md.packetType = .consume 3) && f.dup &&
        decide ((s.regs 3).workerCount f.pkt.md.poolIndex = 1)
  | _ => false

theorem sameSlot_update (slot : SlotIndex) {regs : Fin 4 → Registers} {i : Fin 4}
    {after : Registers} (h : SameSlot slot (regs i) after) (i' : Fin 4) :
    SameSlot slot (regs i') (Function.update regs i after i') := by
  by_cases hi : i' = i
  · subst hi
    rwa [Function.update_self]
  · rw [Function.update_of_ne hi]
    exact SameSlot.refl _ _

variable {job : Job} {d : Discipline} {s : SlotState job.n}

theorem SlotMove.refl : SlotMove job d s s :=
  .stay fun _ => SameSlot.refl _ _

theorem arriveStep_move (hWf : WellFormed job s) (w : Fin job.n) :
    SlotMove job d s (arriveStep job s w) := by
  unfold arriveStep
  split
  · exact .refl
  · next k rp rest hUp =>
    dsimp only
    have hSend := hWf.uplink w (k, rp) (by rw [hUp]; exact List.mem_cons_self)
    split
    · next hNone =>
      refine .loseUp w (l := rest) (by rw [hUp]; exact List.sublist_cons_self _ _) ?_
      refine sameSlot_update job.slot (receiveRoce_frame _ _ _ _ _ ?_)
      rw [hNone]
      simp
    · next p hSome =>
      split
      · next hPool =>
        obtain ⟨st, regs, hPass, hExp, hFlags⟩ := receive_consumes hSend (hPool ▸ hSome)
        exact .arrive w hUp hPass hExp hFlags
      · exact .refl

theorem recirculateStep_move (hWf : WellFormed job s) {i : ℕ}
    (hClean : misreads job d s (.recirculate i) = false) :
    SlotMove job d s (recirculateStep job d s i) := by
  unfold recirculateStep
  split
  · exact .refl
  next f hGet =>
  split
  · exact .refl
  next hTurn =>
  obtain ⟨hLt, hf⟩ := List.getElem?_eq_some_iff.mp hGet
  have hRecirc : s.recirc = s.recirc.take i ++ f :: s.recirc.drop (i + 1) := by
    rw [← hf, ← List.drop_eq_getElem_cons hLt, List.take_append_drop]
  have hErase : s.recirc.eraseIdx i = s.recirc.take i ++ s.recirc.drop (i + 1) :=
    List.eraseIdx_eq_take_drop_succ _ _
  have hFifo : d.fifo = true → ∀ g ∈ s.recirc.take i, g.port ≠ f.port := by
    intro hOn g hg hEq
    refine hTurn ?_
    rw [hOn, Bool.true_and, List.any_eq_true]
    exact ⟨g, hg, by simp [hEq]⟩
  have hFlight := hWf.flights f (by rw [hRecirc]; simp)
  dsimp only
  rw [hErase]
  rcases hFlight.route with ⟨c, -, hc, hType, -⟩ | ⟨j, -, hType, -⟩
  · obtain ⟨hNe, hPipe, st, hPass, hMd, hExp⟩ := hFlight.consumes hType (s.regs (pipeOf f.port))
    rw [hPipe] at hPass ⊢
    rw [hType]
    refine .consume c hNe hRecirc hFifo hPass hMd hExp fun hLast hDup hOne => ?_
    -- the last of several consume passes is the one in pipe 3
    obtain rfl : c = 3 := by
      unfold Job.pipes at hLast
      split at hLast <;> omega
    have hNext : s.next d i = some f := by
      unfold SlotState.next
      rw [hGet]
      exact if_neg hTurn
    simp [misreads, hNext, hType, hDup, hFlight.md.poolIndex, hOne] at hClean
  · obtain ⟨hNe, hPipe, hPass⟩ := hFlight.harvests hType (s.regs (pipeOf f.port))
    rw [hPipe] at hPass ⊢
    rw [hType]
    exact .harvest j hNe hRecirc hFifo hPass

theorem deliverStep_move (w : Fin job.n) : SlotMove job d s (deliverStep job d s w) := by
  unfold deliverStep
  split
  · exact .refl
  · next k pkt rest hDown =>
    dsimp only
    split
    · next hNext =>
      rw [Bool.and_eq_true, decide_eq_true_eq] at hNext
      exact .advance w hDown hNext.1 hNext.2
    · exact .loseDown w (by rw [hDown]; exact List.sublist_cons_self _ _)

/-- **Steps are moves.** -/
theorem slotStep_move (hWf : WellFormed job s) {label : SlotLabel job.n}
    (hClean : misreads job d s label = false) :
    SlotMove job d s (slotStep job d s label) := by
  cases label with
  | send w rp =>
    simp only [slotStep]
    split
    · next hOk =>
      simp only [Bool.and_eq_true, Bool.not_eq_true'] at hOk
      exact .send w hOk.2 (.inl hOk.1)
    · exact .refl
  | resend w rp =>
    simp only [slotStep]
    split
    · next hOk =>
      simp only [Bool.and_eq_true] at hOk
      obtain ⟨⟨hResends, hSent⟩, hSend⟩ := hOk
      have hMove := SlotMove.send (d := d) (s := s) w hSend (.inr hResends)
      rwa [show Function.update s.sent w true = s.sent from hSent ▸ Function.update_eq_self ..]
        at hMove
    · exact .refl
  | loseUp w i =>
    simp only [slotStep]
    split
    · exact .loseUp w (List.eraseIdx_sublist _ _) fun _ => SameSlot.refl _ _
    · exact .refl
  | loseDown w i =>
    simp only [slotStep]
    split
    · exact .loseDown w (List.eraseIdx_sublist _ _)
    · exact .refl
  | arrive w => exact arriveStep_move hWf w
  | recirculate i => exact recirculateStep_move hWf hClean
  | deliver w => exact deliverStep_move w
  | otherArrival port rp =>
    simp only [slotStep]
    split
    · next p hSome =>
      split
      · exact .refl
      · next hOther =>
        refine .stay (sameSlot_update job.slot (receiveRoce_frame _ _ _ _ _ fun q hq => ?_))
        rw [hSome] at hq
        exact Option.some.inj hq ▸ hOther
    · next hNone =>
      refine .stay (sameSlot_update job.slot (receiveRoce_frame _ _ _ _ _ fun q hq => ?_))
      rw [hNone] at hq
      exact absurd hq (by simp)
  | otherRecirculation port pkt =>
    simp only [slotStep]
    split
    · exact .refl
    · next hOther => exact .stay (sameSlot_update job.slot (recirculate_frame _ _ _ _ hOther))

-- ---------------------------------------------------------------------------
-- Moves keep well-formedness
-- ---------------------------------------------------------------------------

/-- What a pass may emit: a well-formed packet for a recirculation port, or a reply with
the pool index of the chunk. -/
def EmissionOk (job : Job) (id : ℕ) (tag : Tag job.n) : Emission → Prop
  | .recirculated port pkt => FlightOk job ⟨id, tag, port, pkt⟩
  | .multicast _ pkt => MdOk job tag.worker tag.chunk pkt.md
  | .unicast _ pkt => MdOk job tag.worker tag.chunk pkt.md
  | .dropped | .forwarded => True

theorem WellFormed.emit {id : ℕ} {tag : Tag job.n} {ty : PacketType} {out : Emission}
    (hWf : WellFormed job s) (hOut : EmissionOk job id tag out) :
    WellFormed job (s.emit id tag ty out) := by
  have hReply : ∀ pkt, MdOk job tag.worker tag.chunk pkt.md → ∀ w (p : Prop) [Decidable p],
      ∀ x ∈ (if p then s.downlink w ++ [(tag.chunk, pkt)] else s.downlink w),
        x.2.md.poolIndex = job.pool x.1 := by
    intro pkt hMd w p _ x hx
    split at hx
    · rcases List.mem_append.mp hx with hx | hx
      · exact hWf.downlink w x hx
      · rw [List.mem_singleton.mp hx]
        exact hMd.poolIndex
    · exact hWf.downlink w x hx
  cases out with
  | dropped => exact ⟨hWf.uplink, hWf.flights, hWf.downlink⟩
  | forwarded => exact ⟨hWf.uplink, hWf.flights, hWf.downlink⟩
  | recirculated port pkt =>
    refine ⟨hWf.uplink, fun f hf => ?_, hWf.downlink⟩
    rcases List.mem_append.mp hf with hf | hf
    · exact hWf.flights f hf
    · rw [List.mem_singleton.mp hf]
      exact hOut
  | multicast group pkt =>
    exact ⟨hWf.uplink, hWf.flights, fun w x hx =>
      hReply pkt hOut w True x (by rw [if_pos trivial]; exact hx)⟩
  | unicast port pkt => exact ⟨hWf.uplink, hWf.flights, fun w => hReply pkt hOut w _⟩

theorem Job.firstHarvest_pos (job : Job) : job.firstHarvest ≠ 0 := by
  unfold Job.firstHarvest
  split <;> decide

theorem ConsumePass.emissionOk {before after regs : Registers} {i : Fin 4} {tag : Tag job.n}
    {st : PassState} {out : Emission} (h : ConsumePass job before after i tag st regs out)
    (id : ℕ) : EmissionOk job id tag out := by
  have hMd : ∀ ty, MdOk job tag.worker tag.chunk (slotStatus (consumeState regs st i) ty) :=
    fun ty => (show MdOk job tag.worker tag.chunk (consumeState regs st i).md from
      h.ready.md).slotStatus ty
  rcases Nat.lt_or_eq_of_le (Nat.succ_le_of_lt h.lt) with hNext | hEnd
  · obtain ⟨rdmaMd, hOut⟩ := h.forwards hNext
    have hSucc : (i + 1).val = i.val + 1 := by
      have hPipes : job.pipes ≤ 4 := by
        unfold Job.pipes
        split <;> omega
      exact Fin.val_add_one_of_lt' (by omega)
    rw [hOut]
    split
    · refine ⟨hMd _, h.sendable, .inl ⟨i + 1, ?_, by omega, rfl, rfl, ?_⟩⟩
      · intro hZero
        rw [hZero] at hSucc
        simp at hSucc
      · have hDrop := congrArg (List.drop 2) h.data
        rw [List.drop_drop] at hDrop
        rw [hSucc, show 2 * (i.val + 1) = 2 * i.val + 2 by omega, ← hDrop]
        rfl
    · trivial
  · obtain ⟨rdmaMd, hOut⟩ := h.finishes hEnd
    rw [hOut]
    split
    · exact ⟨hMd _, h.sendable, .inr ⟨_, Nat.le_refl _, rfl, rfl⟩⟩
    · trivial

theorem HarvestPass.emissionOk {before after : Registers} {j : Fin 8} {f : Flight job.n}
    {out : Emission} (h : HarvestPass job before after j f out) (hFlight : FlightOk job f) :
    EmissionOk job f.id f.tag out := by
  by_cases hj : j = 7
  · have hEnds := h.ends hj
    split at hEnds
    · obtain ⟨pkt, hPkt, rfl⟩ := hEnds
      exact hPkt.md
    · split at hEnds
      · obtain ⟨pkt, hPkt, rfl⟩ := hEnds
        exact hPkt.md
      · rw [hEnds]
        trivial
  · obtain ⟨pkt, hPkt, rfl⟩ := h.continues hj
    refine ⟨hPkt.md, hFlight.sendable, .inr ⟨j + 1, ?_, hPkt.type, rfl⟩⟩
    have hFirst : job.firstHarvest ≤ j := by
      rcases hFlight.route with ⟨i, -, -, hType, -⟩ | ⟨j', hLe, hType, -⟩
      · rw [h.type] at hType
        exact absurd hType (by simp)
      · rw [h.type] at hType
        obtain rfl : j = j' := by simpa using hType
        exact hLe
    refine Fin.le_trans hFirst (Fin.le_def.mpr ?_)
    rw [Fin.val_add_one_of_lt' (by omega)]
    omega

/-- **Moves keep well-formedness.** -/
theorem SlotMove.wellFormed {s' : SlotState job.n} (hMove : SlotMove job d s s')
    (hWf : WellFormed job s) : WellFormed job s' := by
  have hUp : ∀ w (l : List (ℕ × RocePacket)), (∀ x ∈ l, job.sendable w x.1 x.2 = true) → ∀ w',
      ∀ x ∈ Function.update s.uplink w l w', job.sendable w' x.1 x.2 = true := by
    intro w l hl w' x hx
    by_cases hw : w' = w
    · subst hw
      rw [Function.update_self] at hx
      exact hl x hx
    · rw [Function.update_of_ne hw] at hx
      exact hWf.uplink w' x hx
  have hDown : ∀ w (l : List (ℕ × Packet)), l.Sublist (s.downlink w) → ∀ w',
      ∀ x ∈ Function.update s.downlink w l w', x.2.md.poolIndex = job.pool x.1 := by
    intro w l hl w' x hx
    by_cases hw : w' = w
    · subst hw
      rw [Function.update_self] at hx
      exact hWf.downlink w' x (hl.subset hx)
    · rw [Function.update_of_ne hw] at hx
      exact hWf.downlink w' x hx
  have hLeave : ∀ pre f post, s.recirc = pre ++ f :: post →
      (∀ g ∈ pre ++ post, FlightOk job g) ∧ FlightOk job f := by
    intro pre f post hRecirc
    rw [List.forall_mem_append]
    have hAll := hWf.flights
    rw [hRecirc, List.forall_mem_append, List.forall_mem_cons] at hAll
    exact ⟨⟨hAll.1, hAll.2.2⟩, hAll.2.1⟩
  cases hMove with
  | stay hRegs => exact ⟨hWf.uplink, hWf.flights, hWf.downlink⟩
  | send w hSend hFree =>
    refine ⟨hUp w _ fun x hx => ?_, hWf.flights, hWf.downlink⟩
    rcases List.mem_append.mp hx with hx | hx
    · exact hWf.uplink w x hx
    · rw [List.mem_singleton.mp hx]
      exact hSend
  | loseUp w hl hRegs =>
    exact ⟨hUp w _ fun x hx => hWf.uplink w x (hl.subset hx), hWf.flights, hWf.downlink⟩
  | loseDown w hl => exact ⟨hWf.uplink, hWf.flights, hDown w _ hl⟩
  | advance w hHead hAdv hPool =>
    exact ⟨hWf.uplink, hWf.flights, hDown w _ (by rw [hHead]; exact List.sublist_cons_self _ _)⟩
  | arrive w hHead hPass hExp hFlags =>
    refine WellFormed.emit ⟨hUp w _ fun x hx => ?_, hWf.flights, hWf.downlink⟩ (hPass.emissionOk _)
    exact hWf.uplink w x (by rw [hHead]; exact List.mem_cons_of_mem _ hx)
  | consume i hi hRecirc hFifo hPass hMd hExp hClean =>
    exact WellFormed.emit ⟨hWf.uplink, (hLeave _ _ _ hRecirc).1, hWf.downlink⟩ (hPass.emissionOk _)
  | harvest j hj hRecirc hFifo hPass =>
    obtain ⟨hRest, hFlight⟩ := hLeave _ _ _ hRecirc
    exact WellFormed.emit ⟨hWf.uplink, hRest, hWf.downlink⟩ (hPass.emissionOk hFlight)

end SwitchML
