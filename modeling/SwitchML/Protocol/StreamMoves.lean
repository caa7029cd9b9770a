import SwitchML.Protocol.Stream

/-!
# SwitchML protocol — the steps of a stream, seen from its slots

Every step of a stream is a move of the slot machine for every slot, if the chunks of the
slots use their sets in turn and the receive stage finds the slot of a packet it takes.

* `send_move`, `arrive_move`, `recirculate_move`, `deliver_move` — the slot that a packet is
  for makes the step, and to the others nothing happens;
* `next_project` — a worker that goes on to the next message is where the answers have
  brought it.
-/

namespace SwitchML

/-- What the slots of a stream do: packets may be lost, but none is sent again. -/
def Discipline.streaming : Discipline where
  fifo := false
  lossy := true
  resends := false
  advances := true

attribute [ext] SlotState

namespace Stream

-- ---------------------------------------------------------------------------
-- Packets
-- ---------------------------------------------------------------------------

/-- What the parts of `sends` are. -/
structure Sent (x : Stream) (w : Fin x.job.n) (k j : ℕ) (rp : RocePacket) : Prop where
  lt : j < x.sizes k
  matching : (x.job.receiveEntry w).matchesPacket rp = true
  write : rp.opcode.isRdmaWrite = true
  dstQp : rp.dstQp = x.dstQp w
  first : rp.opcode.isFirst = decide (j = 0)
  last : rp.opcode.isLast = decide (j + 1 = x.sizes k)
  psn : rp.psn = x.psn w k j
  rKey : j = 0 → rp.reth.rKey = (x.job.pool k).setWidth 32
  payload : rp.payload = x.data w k j

variable {x : Stream} {s : StreamState x.job.n} {w : Fin x.job.n} {k : ℕ} {rp : RocePacket}

theorem of_sends {j : ℕ} (h : x.sends w k j rp = true) : x.Sent w k j rp := by
  simp only [sends, Bool.and_eq_true, Bool.or_eq_true, decide_eq_true_eq] at h
  obtain ⟨⟨⟨⟨⟨⟨⟨⟨hLt, hMatch⟩, hOp⟩, hQp⟩, hFirst⟩, hLast⟩, hPsn⟩, hKey⟩, hPayload⟩ := h
  exact ⟨hLt, hMatch, hOp, hQp, hFirst, hLast, hPsn, fun h0 => hKey.resolve_left (not_not_intro h0),
    hPayload⟩

theorem Sent.length {j : ℕ} (h : x.Sent w k j rp) : rp.payload.length = x.job.slices := by
  rw [h.payload, x.data_length]

theorem Sent.sendable {j : Fin x.ratio} (h : x.Sent w k j rp) :
    (x.slotJob j).sendable w (x.chunk j k) rp = true := by
  have hLast : (x.slotJob j).last (x.chunk j k) = decide (j + 1 = x.sizes k) := by
    simp [nth_chunk h.lt]
  have hSlices : (x.slotJob j).slices = x.job.slices := rfl
  unfold Job.sendable
  rw [hLast, hSlices, h.last, h.length]
  simpa using ⟨h.matching, h.write⟩

-- ---------------------------------------------------------------------------
-- Steps are moves of the slots
-- ---------------------------------------------------------------------------

section Moves

variable (j : Fin x.ratio)

/-- A packet is sent: the slot it is for sees a chunk, the others see nothing. -/
theorem send_move (hSent : x.Sent w (s.pos w) (s.sent w) rp)
    (hFresh : s.answered w (s.sent w) = false) :
    SlotMove (x.slotJob j) .streaming (x.project j s) (x.project j
      { s with
        uplink := Function.update s.uplink w (s.uplink w ++ [(s.sent w, s.pos w, rp)])
        sent := Function.update s.sent w (s.sent w + 1) }) := by
  by_cases hj : s.sent w = j
  · rw [hj] at hSent hFresh
    have hPos : (x.project j s).pos w = x.chunk j (s.pos w) := by simp [project, hFresh]
    have hProject : x.project j
        { s with
          uplink := Function.update s.uplink w (s.uplink w ++ [(s.sent w, s.pos w, rp)])
          sent := Function.update s.sent w (s.sent w + 1) } =
        { x.project j s with
          uplink := Function.update (x.project j s).uplink w
            ((x.project j s).uplink w ++ [((x.project j s).pos w, rp)])
          sent := Function.update (x.project j s).sent w true } := by
      rw [hPos]
      apply SlotState.ext <;> try rfl
      · funext w'
        by_cases hw : w' = w
        · subst hw
          simp [project, hj, hFresh]
        · simp [project, hw]
      · refine (pick_update s.uplink w _).trans ?_
        rw [pick_append, hj, pick_cons_self]
        rfl
    rw [hProject]
    exact @SlotMove.send (x.slotJob j) .streaming (x.project j s) w rp (hPos ▸ hSent.sendable)
      (.inl (by simp [project, hj]))
  · have hProject : x.project j
        { s with
          uplink := Function.update s.uplink w (s.uplink w ++ [(s.sent w, s.pos w, rp)])
          sent := Function.update s.sent w (s.sent w + 1) } = x.project j s := by
      apply SlotState.ext <;> try rfl
      · funext w'
        by_cases hw : w' = w
        · subst hw
          have hLt : (j : ℕ) < s.sent w' + 1 ↔ (j : ℕ) < s.sent w' := by omega
          simp [project, hLt]
        · simp [project, hw]
      · refine (pick_update s.uplink w _).trans ?_
        rw [pick_append, pick_cons_of_ne _ hj, pick_nil, List.append_nil]
        exact Function.update_eq_self w _
    rw [hProject]
    exact .refl

/-- A worker goes on: it is where the answers have brought it. -/
theorem next_project (hAll : ∀ i < x.sizes (s.pos w), s.answered w i = true)
    (hAnswered : ∀ i, s.answered w i = true → i < x.sizes (s.pos w))
    (hSent : s.sent w ≤ x.sizes (s.pos w)) (j : ℕ) :
    x.project j
      { s with
        pos := Function.update s.pos w (s.pos w + 1)
        sent := Function.update s.sent w 0
        answered := Function.update s.answered w fun _ => false } = x.project j s := by
  have hj : s.answered w j = decide (j < x.sizes (s.pos w)) := by
    rw [Bool.eq_iff_iff, decide_eq_true_eq]
    exact ⟨hAnswered j, hAll j⟩
  apply SlotState.ext <;> try rfl
  · funext w'
    by_cases hw : w' = w
    · subst hw
      simp [project, chunk_succ, hj]
    · simp [project, hw]
  · funext w'
    by_cases hw : w' = w
    · subst hw
      have hNot : ¬ (j < s.sent w' ∧ x.sizes (s.pos w') ≤ j) := by omega
      simpa [project, hj] using hNot
    · simp [project, hw]

/-- Packets are lost. -/
theorem loseUp_move {l : List (ℕ × ℕ × RocePacket)} (hl : l.Sublist (s.uplink w)) :
    SlotMove (x.slotJob j) .streaming (x.project j s)
      (x.project j { s with uplink := Function.update s.uplink w l }) := by
  have hProject : x.project j { s with uplink := Function.update s.uplink w l } =
      { x.project j s with
        uplink := Function.update (x.project j s).uplink w
          (pick (Prod.map (x.chunk j) id) j l) } := by
    apply SlotState.ext <;> try rfl
    exact pick_update s.uplink w l
  rw [hProject]
  exact @SlotMove.loseUp (x.slotJob j) .streaming (x.project j s) w _ (pick_sublist _ hl) _
    fun _ => SameSlot.refl _ _

theorem loseDown_project (l : List (ℕ × ℕ × Packet)) :
    x.project j { s with downlink := Function.update s.downlink w l } =
      { x.project j s with
        downlink := Function.update (x.project j s).downlink w
          (pick (Prod.map (x.chunk j) id) j l) } := by
  apply SlotState.ext <;> try rfl
  exact pick_update s.downlink w l

theorem loseDown_move {l : List (ℕ × ℕ × Packet)} (hl : l.Sublist (s.downlink w)) :
    SlotMove (x.slotJob j) .streaming (x.project j s)
      (x.project j { s with downlink := Function.update s.downlink w l }) := by
  rw [loseDown_project]
  exact @SlotMove.loseDown (x.slotJob j) .streaming (x.project j s) w _ (pick_sublist _ hl)

/-- A reply for another slot, or a second one. -/
theorem answered_project {i j : ℕ} (h : i ≠ j ∨ s.answered w i = true) :
    x.project j
      { s with answered := Function.update s.answered w (Function.update (s.answered w) i true) } =
      x.project j s := by
  have hSame : ∀ w', Function.update s.answered w (Function.update (s.answered w) i true) w' j =
      s.answered w' j := by
    intro w'
    by_cases hw : w' = w
    · subst hw
      rw [Function.update_self]
      rcases h with hNe | hTrue
      · rw [Function.update_of_ne (Ne.symm hNe)]
      · rw [← hTrue, Function.update_eq_self]
    · rw [Function.update_of_ne hw]
  simp only [project, hSame]

/-- The reply a worker waits for. -/
theorem advance_project {rest : List (ℕ × ℕ × Packet)} {j : ℕ}
    (hFresh : s.answered w j = false) :
    x.project j
      { s with
        downlink := Function.update s.downlink w rest
        answered := Function.update s.answered w (Function.update (s.answered w) j true) } =
      { x.project j s with
        downlink := Function.update (x.project j s).downlink w
          (pick (Prod.map (x.chunk j) id) j rest)
        pos := Function.update (x.project j s).pos w ((x.project j s).pos w + 1)
        sent := Function.update (x.project j s).sent w false } := by
  apply SlotState.ext <;> try rfl
  · funext w'
    by_cases hw : w' = w
    · subst hw
      simp [project, hFresh]
    · simp [project, hw]
  · funext w'
    by_cases hw : w' = w
    · subst hw
      simp [project]
    · simp [project, hw]
  · exact pick_update s.downlink w rest

/-- The slot of a reply that a worker takes is the one it was sent for. -/
theorem packetOf_downlink (hWf : ∀ j, WellFormed (x.slotJob j) (x.project j s))
    (hRatio : ∀ w, ∀ u ∈ s.downlink w, u.1 < x.ratio) {i j k k' : ℕ} {pkt : Packet}
    (hMem : (i, k, pkt) ∈ s.downlink w) (hPacket : x.packetOf k' pkt.md.poolIndex = some j) :
    j = i := by
  obtain ⟨hj, hPool⟩ := packetOf_eq_some hPacket
  have hi := hRatio w _ hMem
  have hPkt : pkt.md.poolIndex = (x.slotJob ⟨i, hi⟩).pool (x.chunk i k) :=
    (hWf ⟨i, hi⟩).downlink w (x.chunk i k, pkt) (mem_pick.mpr ⟨(k, pkt), hMem, rfl⟩)
  have hSlots := congrArg PoolIndex.slot (hPool.symm.trans hPkt)
  rw [pool, PoolIndex.slot_mk, Job.pool_slot] at hSlots
  exact slot_inj (lt_ratio hj) hi hSlots

theorem deliver_move (hSets : x.SetsAlternate)
    (hWf : ∀ j, WellFormed (x.slotJob j) (x.project j s))
    (hRatio : ∀ w, ∀ u ∈ s.downlink w, u.1 < x.ratio) :
    SlotMove (x.slotJob j) .streaming (x.project j s) (x.project j (x.deliverStep s w)) := by
  unfold deliverStep
  split
  · exact .refl
  next i k pkt rest hDown =>
  have hMem : (i, k, pkt) ∈ s.downlink w := by rw [hDown]; exact List.mem_cons_self
  have hLose : SlotMove (x.slotJob j) .streaming (x.project j s)
      (x.project j { s with downlink := Function.update s.downlink w rest }) :=
    loseDown_move j (by rw [hDown]; exact List.sublist_cons_self _ _)
  dsimp only
  split
  · exact hLose
  next j' hPacket =>
  obtain rfl := packetOf_downlink hWf hRatio hMem hPacket
  obtain ⟨hUses, hPool⟩ := packetOf_eq_some hPacket
  by_cases hOther : j' ≠ j ∨ s.answered w j' = true
  · rw [answered_project (s := { s with downlink := Function.update s.downlink w rest }) hOther]
    exact hLose
  · obtain ⟨hj, hFresh⟩ := not_or.mp hOther
    obtain rfl := not_not.mp hj
    rw [Bool.not_eq_true] at hFresh
    rw [advance_project hFresh]
    refine @SlotMove.advance (x.slotJob j) .streaming (x.project j s) w (x.chunk j k) pkt _ ?_ rfl
      ?_
    · show pick _ _ (s.downlink w) = _
      rw [hDown, pick_cons_self]
      rfl
    · have hPos : (x.project j s).pos w = x.chunk j (s.pos w) := by simp [project, hFresh]
      rw [hPos, chunk_pool hSets j hUses]
      exact hPool

/-- Passes of packets that are not for the slot. -/
theorem stay_move {j : Fin x.ratio} {s' : StreamState x.job.n} (i : Fin 4) (after : Registers)
    (hProject : x.project j s' =
      { x.project j s with regs := Function.update s.regs i after })
    (hSame : SameSlot (x.slot j) (s.regs i) after) :
    SlotMove (x.slotJob j) .streaming (x.project j s) (x.project j s') := by
  rw [hProject]
  exact @SlotMove.stay (x.slotJob j) .streaming (x.project j s) _ (sameSlot_update _ hSame)

theorem arrived_project (j : ℕ) (l : List (ℕ × ℕ × RocePacket)) (regs : Fin 4 → Registers)
    (nextId : ℕ → ℕ) :
    x.project j { s with uplink := Function.update s.uplink w l, regs, nextId } =
      { x.project j s with
        uplink := Function.update (x.project j s).uplink w (pick (Prod.map (x.chunk j) id) j l)
        regs := regs
        nextId := nextId j } := by
  apply SlotState.ext <;> try rfl
  exact pick_update s.uplink w l

/-- The next packet of an uplink makes its first pass, and the receive stage has found its
slot if it takes it. -/
theorem arrive_move {i : ℕ} {rest : List (ℕ × ℕ × RocePacket)}
    (hWf : WellFormed (x.slotJob j) (x.project j s))
    (hUp : s.uplink w = (i, k, rp) :: rest) (hUses : i < x.sizes k) (hSets : x.SetsAlternate)
    (hVerdict : ∀ p, receivedPoolIndex x.job.config.workers rp (s.regs 0) = some p →
      p = x.pool k i) :
    SlotMove (x.slotJob j) .streaming (x.project j s) (x.project j (x.arriveStep s w)) := by
  by_cases hi : i = j
  · subst hi
    have hSlotUp : (x.project j s).uplink w =
        (x.chunk j k, rp) :: pick (Prod.map (x.chunk j) id) j rest := by
      show pick _ _ (s.uplink w) = _
      rw [hUp, pick_cons_self]
      rfl
    have hStep : x.project j (x.arriveStep s w) =
        SwitchML.arriveStep (x.slotJob j) (x.project j s) w := by
      unfold Stream.arriveStep SwitchML.arriveStep
      rw [hUp, hSlotUp]
      dsimp only
      have hRead : receivedPoolIndex (x.slotJob j).config.workers rp ((x.project j s).regs 0) =
        receivedPoolIndex x.job.config.workers rp (s.regs 0) := rfl
      rw [hRead]
      cases hPool : receivedPoolIndex x.job.config.workers rp (s.regs 0) with
      | none => exact arrived_project j rest _ _
      | some p =>
        dsimp only
        rw [if_pos ((hVerdict p hPool).trans (chunk_pool hSets j hUses).symm), project_emit_self,
          arrived_project, Function.update_self]
        rfl
    rw [hStep]
    exact arriveStep_move hWf w
  · refine stay_move 0 (receiveRoce x.job.config {} (x.job.port w) rp (s.regs 0)).1 ?_
      (receiveRoce_frame _ _ _ _ _ fun p hp => ?_)
    · have hRest : Function.update (x.project j s).uplink w
          (pick (Prod.map (x.chunk j) id) (j : ℕ) rest) = (x.project j s).uplink := by
        refine (Function.update_eq_iff.mpr ⟨?_, fun _ _ => rfl⟩)
        show _ = pick _ _ (s.uplink w)
        rw [hUp, pick_cons_of_ne _ hi]
      unfold Stream.arriveStep
      rw [hUp]
      dsimp only
      cases receivedPoolIndex x.job.config.workers rp (s.regs 0) with
      | none =>
        dsimp only
        rw [arrived_project, hRest]
        rfl
      | some p =>
        dsimp only
        rw [project_emit_of_ne hi, arrived_project, hRest, Function.update_of_ne (Ne.symm hi)]
        rfl
    · rw [hVerdict p hp, pool, PoolIndex.slot_mk]
      exact fun hEq => hi (slot_inj (lt_ratio hUses) j.isLt hEq)

theorem recirculated_project (j : ℕ) (l : List (ℕ × Flight x.job.n))
    (regs : Fin 4 → Registers) :
    x.project j { s with recirc := l, regs } =
      { x.project j s with recirc := pick (Flight.inSlot (x.chunk j)) j l, regs := regs } := rfl

/-- A packet on a recirculation port makes its next pass. -/
theorem recirculate_move
    (hSim : ∀ j, ∃ a, Sim (x.slotJob j) .streaming (x.project j s) a)
    {pre post : List (ℕ × Flight x.job.n)} {i : ℕ} {f : Flight x.job.n} (hi : i < x.ratio)
    (hRecirc : s.recirc = pre ++ (i, f) :: post) :
    SlotMove (x.slotJob j) .streaming (x.project j s)
      (x.project j (x.recirculateStep s pre.length)) := by
  have hGet : s.recirc[pre.length]? = some (i, f) := by simp [hRecirc]
  have hErase : s.recirc.eraseIdx pre.length = pre ++ post := by
    rw [hRecirc, List.eraseIdx_append_of_length_le (Nat.le_refl _)]
    simp
  by_cases hj : i = j
  · subst hj
    obtain ⟨a, hSim⟩ := hSim j
    have hSlotRecirc : (x.project j s).recirc = pick (Flight.inSlot (x.chunk j)) j pre ++
        f.inSlot (x.chunk j) :: pick (Flight.inSlot (x.chunk j)) j post := by
      show pick _ _ s.recirc = _
      rw [hRecirc, pick_append, pick_cons_self]
    have hStep : x.project j (x.recirculateStep s pre.length) =
        SwitchML.recirculateStep (x.slotJob j) .streaming (x.project j s)
          (pick (Flight.inSlot (x.chunk j)) j pre).length := by
      have hSlotGet : (x.project j s).recirc[(pick (Flight.inSlot (x.chunk j)) j pre).length]? =
          some (f.inSlot (x.chunk j)) := by
        simp [hSlotRecirc]
      have hSlotErase : (x.project j s).recirc.eraseIdx
          (pick (Flight.inSlot (x.chunk j)) j pre).length =
          pick (Flight.inSlot (x.chunk j)) j (pre ++ post) := by
        rw [hSlotRecirc, List.eraseIdx_append_of_length_le (Nat.le_refl _), pick_append]
        simp
      unfold Stream.recirculateStep SwitchML.recirculateStep
      rw [hGet, hSlotGet]
      dsimp only
      rw [if_neg (by simp [Discipline.streaming]), project_emit_self, recirculated_project, hErase,
        hSlotErase]
      rfl
    rw [hStep]
    exact recirculateStep_move hSim.wellFormed (hSim.not_misreads (.inr rfl) _)
  · refine stay_move (pipeOf f.port)
      (recirculate x.job.config f.port f.pkt (s.regs (pipeOf f.port))).1 ?_
      (recirculate_frame _ _ _ _ ?_)
    · have hSlotRecirc : (x.project j s).recirc =
          pick (Flight.inSlot (x.chunk j)) j (pre ++ post) := by
        show pick _ _ s.recirc = _
        rw [hRecirc, pick_append, pick_cons_of_ne _ hj, pick_append]
      unfold Stream.recirculateStep
      rw [hGet]
      dsimp only
      rw [project_emit_of_ne hj, recirculated_project, hErase, ← hSlotRecirc]
    · obtain ⟨a, hSim⟩ := hSim ⟨i, hi⟩
      have hMem : f.inSlot (x.chunk i) ∈ (x.project i s).recirc :=
        mem_pick.mpr ⟨f, by rw [hRecirc]; simp, rfl⟩
      have hPool := (hSim.wellFormed.flights _ hMem).md.poolIndex
      have hSlot : f.pkt.md.poolIndex.slot = x.slot i :=
        (congrArg PoolIndex.slot hPool).trans (Job.pool_slot _ _)
      rw [hSlot]
      exact fun hEq => hj (slot_inj hi j.isLt hEq)

end Moves

end Stream

end SwitchML
