import SwitchML.Protocol.SlotRecord

/-!
# SwitchML protocol — duplicates change nothing

A duplicate of a 256-byte packet that the switch has counted makes its passes in any
state of the slot: with nobody else in, with one worker missing (when the counter reads
like that of a last packet), with a complete chunk, and while the next chunk fills the
other set.

* `duplicate_idempotent` — after all passes of the duplicate the registers of the slot are as
  before, and the worker gets an answer exactly if its chunk is complete.
-/

namespace SwitchML

section Duplicate

variable {job : Job} {used : Bool → Prop} {regs : Registers} {c : Fin job.n → ℕ}
  {x : Fin job.n → ℕ → Data × Data} {w : Fin job.n} {k : ℕ} {st : PassState} {i : Fin 4}

/-- A consume pass of a duplicate of the chunk that was taken last from its worker. -/
theorem Represents.consume_same (h : Represents job used regs c x) (hUsed : ∀ σ, used σ)
    (hReady : ConsumeReady job w k st) (hw : c w = k + 1) :
    SameSlot job.slot regs (consumeRegs regs st i) := by
  have hMap := h.map_dup hReady (hUsed _) hw
  refine ⟨fun p hp => ?_, fun p _ => ?_, fun p _ => ?_, fun l p _ => ?_⟩
  · -- the bit of the worker is set in its set, and not in the other
    obtain ⟨σ, rfl⟩ : ∃ σ, p = PoolIndex.mk job.slot σ :=
      ⟨p.set, by rw [← hp, PoolIndex.mk_slot_set]⟩
    have hBits := h.bits_consume (i := i) hReady (hUsed σ)
    have hSet : (Finset.univ.filter fun w' => if w' = w then job.set k = σ
        else 0 < c w' ∧ job.set (c w' - 1) = σ) =
        Finset.univ.filter fun w' => 0 < c w' ∧ job.set (c w' - 1) = σ := by
      refine Finset.filter_congr fun w' _ => ?_
      by_cases hEq : w' = w
      · simp [hEq, hw]
      · simp [hEq]
    rw [hSet] at hBits
    exact (h.bits σ (hUsed σ)).unique hBits
  · simp only [consumeRegs]
    rw [if_neg hMap]
  · simp only [consumeRegs]
    rw [if_neg fun hNew => hMap hNew.1]
  · simp only [consumeRegs]
    rw [if_neg hMap]

variable {rp : RocePacket} {before after met : Registers} {out : Emission} {f : Flight job.n}

/-- A duplicate of 256 bytes goes on to its last pass if it reads 0 or 1 from the
counter. -/
theorem ConsumePass.duplicate_goes (hPass : ConsumePass job before after 0 ⟨w, k, rp⟩ st met out)
    (hSmall : job.large = false) (hMap : consumeMap met st ≠ 0)
    (hFlags : st.md.mapResultNonzero = false ∧ st.md.firstFlag = false ∧ st.md.lastFlag = false) :
    (consumeFlag met st = 0 ∨ consumeFlag met st = 1) ∧
      (∃ port pkt, out = .recirculated port pkt ∧ pkt.md.packetType = .harvest 7 ∧
        pkt.md.mapResultNonzero = true ∧
        pkt.md.firstFlag = decide (consumeFlag met st = 0)) ∨
    (consumeFlag met st ≠ 0 ∧ consumeFlag met st ≠ 1) ∧ out = .dropped := by
  obtain ⟨hDup, hFirst, -⟩ := hFlags
  have hEnd : (0 : Fin 4).val + 1 = job.pipes := by simp [Job.pipes, hSmall]
  have hLast : job.firstHarvest = 7 := by simp [Job.firstHarvest, hSmall]
  obtain ⟨rdmaMd, hOut⟩ := hPass.finishes hEnd
  by_cases hGoes : consumeFlag met st = 0 ∨ consumeFlag met st = 1
  · rw [if_pos (hGoes.symm.imp id fun h0 => ⟨hMap, h0⟩)] at hOut
    refine .inl ⟨hGoes, _, _, hOut, ?_, ?_, ?_⟩
    · show PacketType.harvest job.firstHarvest = _
      rw [hLast]
    · show (st.md.mapResultNonzero || decide (consumeMap met st ≠ 0)) = true
      rw [decide_eq_true hMap, Bool.or_true]
    · show (st.md.firstFlag || decide (consumeFlag met st = 0)) = _
      rw [hFirst, Bool.false_or]
  · rw [not_or] at hGoes
    rw [if_neg fun h => h.elim hGoes.2 fun h => hGoes.1 h.2] at hOut
    exact .inr ⟨hGoes, hOut⟩

/-- The last pass of a duplicate: an answer if it has read 0 from the counter. -/
theorem HarvestPass.duplicate_ends (hPass : HarvestPass job before after 7 f out)
    (hDup : f.pkt.md.mapResultNonzero = true) :
    if f.pkt.md.firstFlag = true then
      ∃ pkt, out = .unicast (job.port f.tag.worker) pkt ∧ pkt.md.packetType = .retransmit ∧
        MdOk job f.tag.worker f.tag.chunk pkt.md
    else out = .dropped := by
  have hEnds := hPass.ends rfl
  rw [if_neg fun h => by simp [Flight.dup, hDup] at h] at hEnds
  by_cases hFirst : f.pkt.md.firstFlag = true
  · rw [if_pos ⟨hFirst, hDup⟩] at hEnds
    obtain ⟨pkt, hPkt, hOut⟩ := hEnds
    rw [if_pos hFirst]
    exact ⟨pkt, hOut, hPkt.type, hPkt.md⟩
  · rw [if_neg fun h => hFirst h.1] at hEnds
    rw [if_neg hFirst]
    exact hEnds

/-- All passes of a duplicate of the chunk that was taken last from its worker. -/
theorem Represents.duplicate_outcome {regs : Fin 4 → Registers} (hSmall : job.large = false)
    (h : Represents job used (regs 0) c x) (hUsed : ∀ σ, used σ) (hw : c w = k + 1)
    (hc : ∀ w', k ≤ c w' + 1 ∧ c w' ≤ k + 2) (hSend : job.sendable w k rp = true)
    (hPool : receivedPoolIndex job.config.workers rp (regs 0) = some (job.pool k)) :
    let result := duplicateOutcome job regs w rp
    (∀ i, SameSlot job.slot (regs i) (result.1 i)) ∧
    ((∀ w', k < c w') → ∃ pkt, result.2 = .unicast (job.port w) pkt ∧
      pkt.md.packetType = .retransmit ∧ MdOk job w k pkt.md) ∧
    (¬ (∀ w', k < c w') → result.2 = .dropped) := by
  intro result
  obtain ⟨st, met, hPass, -, hFlags⟩ := receive_consumes hSend hPool
  have hMet := h.congr hPass.meets
  have hReady := hPass.ready.consumeReady
  have hMap := hMet.map_dup hReady (hUsed _) hw
  have hZero := hMet.flag_dup_zero hReady (hUsed _) hc hw
  have hResult : result = remainingPasses job.config 10
      (Function.update regs 0 (receiveRoce job.config {} (job.port w) rp (regs 0)).1)
      (receiveRoce job.config {} (job.port w) rp (regs 0)).2 := rfl
  have hRegs : ∀ i, SameSlot job.slot (regs i) (Function.update regs 0
      (receiveRoce job.config {} (job.port w) rp (regs 0)).1 i) :=
    sameSlot_update job.slot
      ((hPass.meets.trans (hMet.consume_same hUsed hReady hw)).trans hPass.leaves)
  have hEmit := hPass.emissionOk 0
  rcases hPass.duplicate_goes hSmall hMap hFlags with ⟨-, hGoes⟩ | ⟨⟨hNe, -⟩, hOut⟩
  · obtain ⟨port, pkt, hOut, hType, hDup, hFirst⟩ := hGoes
    rw [hOut] at hEmit hResult
    generalize Function.update regs 0
      (receiveRoce job.config {} (job.port w) rp (regs 0)).1 = regs' at hRegs hResult
    obtain ⟨-, -, hLast⟩ := FlightOk.harvests hEmit hType (regs' (pipeOf port))
    have hEnds := hLast.duplicate_ends hDup
    rw [hFirst] at hEnds
    -- the second pass is the last one
    have hTwo : result = (Function.update regs' (pipeOf port)
        (recirculate job.config port pkt (regs' (pipeOf port))).1,
        (recirculate job.config port pkt (regs' (pipeOf port))).2) := by
      rw [hResult, remainingPasses]
      dsimp only at hEnds ⊢
      split at hEnds
      · obtain ⟨pkt', hUnicast, -⟩ := hEnds
        rw [hUnicast]
        rfl
      · rw [hEnds]
        rfl
    rw [hTwo]
    refine ⟨fun i => (hRegs i).trans (sameSlot_update job.slot hLast.leaves i),
      fun hAll => ?_, fun hNot => ?_⟩
    · rw [if_pos (decide_eq_true (hZero.mpr hAll))] at hEnds
      exact hEnds
    · rw [if_neg (by simpa using fun h0 => hNot (hZero.mp h0))] at hEnds
      exact hEnds
  · rw [hOut] at hResult
    rw [hResult]
    exact ⟨hRegs, fun hAll => absurd (hZero.mpr hAll) hNe, fun _ => rfl⟩

end Duplicate

/-- **Duplicates change nothing.** In every state a run of a job with 256-byte packets
reaches, let a worker send its current chunk again after the switch has counted it. The
passes of the duplicate leave the registers of the slot, in both sets, as they are. If all
workers are in with the chunk, the duplicate is answered by one retransmission, to this
worker and out of its port; if not, it is dropped. -/
theorem duplicate_idempotent (job : Job) (hSmall : job.large = false)
    (labels : List (SlotLabel job.n)) (w : Fin job.n) (rp : RocePacket)
    (hCounted : consumed (slotRun job .unreliable .initial labels).log 0 w
      ((slotRun job .unreliable .initial labels).pos w) = true)
    (hSend : job.sendable w ((slotRun job .unreliable .initial labels).pos w) rp = true)
    (hPool : receivedPoolIndex job.config.workers rp
      ((slotRun job .unreliable .initial labels).regs 0) =
        some (job.pool ((slotRun job .unreliable .initial labels).pos w))) :
    let s := slotRun job .unreliable .initial labels
    let result := duplicateOutcome job s.regs w rp
    (∀ i, SameSlot job.slot (s.regs i) (result.1 i)) ∧
    (processed s.log (s.pos w) = Finset.univ →
      ∃ pkt, result.2 = .unicast (job.port w) pkt ∧ pkt.md.packetType = .retransmit ∧
        pkt.md.workerId = BitVec.ofNat 16 w ∧ pkt.md.ingressPort = job.port w ∧
        pkt.md.poolIndex = job.pool (s.pos w)) ∧
    (processed s.log (s.pos w) ≠ Finset.univ → result.2 = .dropped) := by
  intro s result
  obtain ⟨a, hSim⟩ := (sim_initial job .unreliable).run_mode (.inl rfl) (.inl hSmall) labels
  change Sim job .unreliable s a at hSim
  have hUsed : ∀ σ, Discipline.uses .unreliable job σ := fun _ => .inl rfl
  have hPos := hSim.rel.pos
  -- the worker's current chunk is the one that was taken last
  have hCount : a.count 0 w = s.pos w + 1 := by
    have hLt := (hSim.rel.consumed 0 job.pipes_pos w _).mp hCounted
    have hLe := hSim.inv.count_le w
    rw [hPos] at hLe
    exact Nat.le_antisymm hLe hLt
  have hClose : ∀ w', s.pos w ≤ a.count 0 w' + 1 ∧ a.count 0 w' ≤ s.pos w + 2 := by
    intro w'
    have := hSim.counts_close w w'
    have := hSim.counts_close w' w
    omega
  obtain ⟨hSame, hAnswer, hDrop⟩ :=
    hSim.represents.duplicate_outcome hSmall hUsed hCount hClose hSend hPool
  have hAll : processed s.log (s.pos w) = Finset.univ ↔ ∀ w', s.pos w < a.count 0 w' := by
    rw [hSim.processed_eq, Finset.eq_univ_iff_forall]
    simp only [mem_taken]
  refine ⟨hSame, fun hFull => ?_, fun hNot => hDrop fun h => hNot (hAll.mpr h)⟩
  obtain ⟨pkt, hOut, hType, hMd⟩ := hAnswer (hAll.mp hFull)
  exact ⟨pkt, hOut, hType, hMd.workerId, hMd.ingressPort, hMd.poolIndex⟩

/-- Worker 0's chunk comes once more with one worker missing, and once more when the chunk
is complete. -/
theorem duplicate_idempotent_pair :
    let job := Job.plain 2 (by decide) (by decide) false
    let labels : List (SlotLabel 2) := [.send 0 (plainPacket 0 2 100), .arrive 0]
    let labels' := labels ++ [.send 1 (plainPacket 1 2 200), .arrive 1]
    let s := slotRun job .unreliable .initial labels
    let s' := slotRun job .unreliable .initial labels'
    let rp := plainPacket 0 2 100
    (duplicateOutcome job s.regs (0 : Fin 2) rp).2 = .dropped ∧
    ∃ pkt, (duplicateOutcome job s'.regs (0 : Fin 2) rp).2 = .unicast 0 pkt ∧
      pkt.md.packetType = .retransmit ∧ pkt.md.workerId = 0 ∧ pkt.md.ingressPort = 0 ∧
      pkt.md.poolIndex = 0 := by
  intro job labels labels' s s' rp
  have hBefore := duplicate_idempotent job rfl labels (0 : Fin 2) rp (by decide +kernel)
    (by decide +kernel) (by decide +kernel)
  have hAfter := duplicate_idempotent job rfl labels' (0 : Fin 2) rp (by decide +kernel)
    (by decide +kernel) (by decide +kernel)
  have hIndex : job.pool (s'.pos (0 : Fin 2)) = 0 := by decide +kernel
  obtain ⟨pkt, hOut, hType, hWorker, hPort, hPool⟩ := hAfter.2.1 (by decide +kernel)
  exact ⟨hBefore.2.2 (by decide +kernel), pkt, hOut, hType, hWorker, hPort, hPool.trans hIndex⟩

end SwitchML
