import SwitchML.Protocol.Aggregation

/-!
# SwitchML protocol — the payload of a retransmitted reply

A duplicate of a complete chunk goes through the passes of a packet that completes its
chunk. Each harvest pass puts a slice of the sums in front of it, but the last slice
does not come from a harvest pass: a new packet takes it from its last consume pass, a
duplicate brings along its own.

* `duplicateReply` — what becomes of a packet after its passes;
* `duplicate_answered` — what the reply to a duplicate carries: what the slot holds, with
  the last slice of the duplicate in the place of its own, and that the slot holds the
  aggregate.
-/

namespace SwitchML

/-- What becomes of a packet that worker `w` sends, after all of its passes. -/
def duplicateReply (job : Job) (regs : Fin 4 → Registers) (w : Fin job.n) (rp : RocePacket) :
    Emission := (duplicateOutcome job regs w rp).2

section Duplicate

variable {job : Job} {w : Fin job.n} {k : ℕ} {rp : RocePacket}

/-- A slot that is complete in one pipe and in which worker `w` is still in: nobody is
missing, and `x` is what it holds. -/
structure SlotFull (job : Job) (w : Fin job.n) (k : ℕ) (regs : Registers)
    (x : Fin 32 → SignificandPair) : Prop where
  bit : regs.bitmap (job.pool k) &&& ((1#32) <<< w.val) ≠ 0
  count : regs.workerCount (job.pool k) = 0
  sums : ∀ l, regs.significands l (job.pool k) = x l

/-- The slot is complete in all pipes that the packets are consumed in. -/
def AllFull (job : Job) (w : Fin job.n) (k : ℕ) (regs : Fin 4 → Registers)
    (x : Fin 4 → Fin 32 → SignificandPair) : Prop :=
  ∀ i : Fin 4, i.val < job.pipes → SlotFull job w k (regs i) (x i)

theorem SlotFull.congr {regs regs' : Registers} {x : Fin 32 → SignificandPair}
    (h : SlotFull job w k regs x) (hSame : SameSlot job.slot regs regs') :
    SlotFull job w k regs' x where
  bit := by
    rw [hSame.bitmap _ (job.pool_slot k)]
    exact h.bit
  count := (hSame.workerCount _ (job.pool_slot k)).trans h.count
  sums l := (hSame.significands l _ (job.pool_slot k)).trans (h.sums l)

theorem AllFull.update {regs : Fin 4 → Registers} {x : Fin 4 → Fin 32 → SignificandPair}
    (h : AllFull job w k regs x) {i : Fin 4} {after : Registers}
    (hAfter : i.val < job.pipes → SlotFull job w k after (x i)) :
    AllFull job w k (Function.update regs i after) x := by
  intro i' hi'
  by_cases hi : i' = i
  · subst hi
    rw [Function.update_self]
    exact hAfter hi'
  · rw [Function.update_of_ne hi]
    exact h i' hi'

/-- A duplicate finds a full slot. -/
theorem SlotFull.finds {regs : Registers} {x : Fin 32 → SignificandPair}
    (h : SlotFull job w k regs x) {st : PassState} (hReady : ConsumeReady job w k st) :
    consumeMap regs st ≠ 0 ∧ consumeFlag regs st = 0 := by
  have hMap : consumeMap regs st ≠ 0 := by
    unfold consumeMap
    rw [hReady.poolIndex, hReady.workerBitmap]
    exact h.bit
  refine ⟨hMap, ?_⟩
  unfold consumeFlag slotFlag
  rw [if_neg hMap, hReady.poolIndex, h.count]
  split <;> rfl

/-- A duplicate leaves the slot as it is. -/
theorem SlotFull.consumed {regs : Registers} {x : Fin 32 → SignificandPair}
    (h : SlotFull job w k regs x) {st : PassState} (hReady : ConsumeReady job w k st)
    (i : Fin 4) : SlotFull job w k (consumeRegs regs st i) x := by
  have hMap := (h.finds hReady).1
  refine ⟨?_, ?_, fun l => ?_⟩
  · rw [bitmap_consumeRegs, Registers.bitmap_recordWorker, hReady.poolIndex, hReady.workerBitmap,
      if_pos rfl, if_pos rfl]
    intro hZero
    rw [BitVec.and_or_distrib_right] at hZero
    exact h.bit (BitVec.or_eq_zero_iff.mp hZero).1
  · rw [show (consumeRegs regs st i).workerCount = regs.workerCount from if_neg hMap]
    exact h.count
  · rw [show (consumeRegs regs st i).significands = regs.significands from if_neg hMap]
    exact h.sums l

theorem AllFull.consumes {regs : Fin 4 → Registers} {x : Fin 4 → Fin 32 → SignificandPair}
    (h : AllFull job w k regs x) {i : Fin 4} {st : PassState} {met after : Registers}
    {out : Emission} (hPass : ConsumePass job (regs i) after i ⟨w, k, rp⟩ st met out) :
    consumeMap met st ≠ 0 ∧ consumeFlag met st = 0 ∧
      AllFull job w k (Function.update regs i after) x := by
  have hMet := (h i hPass.lt).congr hPass.meets
  have hReady := hPass.ready.consumeReady
  refine ⟨(hMet.finds hReady).1, (hMet.finds hReady).2, h.update fun _ => ?_⟩
  exact (hMet.consumed hReady i).congr hPass.leaves

/-- Slice `j` of what a slot holds. -/
def slotSlice (x : Fin 4 → Fin 32 → SignificandPair) (j : ℕ) : Data := fun l =>
  if j % 2 = 0 then (x (Fin.ofNat 4 (j / 2)) l).first else (x (Fin.ofNat 4 (j / 2)) l).second

/-- What a slot holds, as the payload of a packet. -/
def slotContents (job : Job) (x : Fin 4 → Fin 32 → SignificandPair) : List Data :=
  (List.range job.slices).map (slotSlice x)

/-- The payload of the reply to a duplicate: what the slot holds, with the duplicate's own
last slice. -/
def duplicatePayload (job : Job) (x : Fin 4 → Fin 32 → SignificandPair) (rp : RocePacket) :
    List Data :=
  (slotContents job x).take (job.slices - 1) ++ rp.payload.drop (job.slices - 1)

/-- A duplicate in the harvest, before pass `j`. -/
structure DuplicateAt (job : Job) (x : Fin 4 → Fin 32 → SignificandPair) (w : Fin job.n) (k : ℕ)
    (rp : RocePacket) (j : Fin 8) (port : PortId) (pkt : Packet) : Prop where
  flight : FlightOk job ⟨0, ⟨w, k, rp⟩, port, pkt⟩
  type : pkt.md.packetType = .harvest j
  dup : pkt.md.mapResultNonzero = true
  first : pkt.md.firstFlag = true
  payload : pkt.payload = (duplicatePayload job x rp).drop (8 - j.val)

variable {x : Fin 4 → Fin 32 → SignificandPair}

theorem slotContents_length : (slotContents job x).length = job.slices := by
  simp [slotContents]

theorem duplicatePayload_drop {m : ℕ} (hm : m + 1 < job.slices) :
    (duplicatePayload job x rp).drop m =
      slotSlice x m :: (duplicatePayload job x rp).drop (m + 1) := by
  have hLength : m < ((slotContents job x).take (job.slices - 1)).length := by
    rw [List.length_take, slotContents_length]
    omega
  unfold duplicatePayload
  rw [List.drop_append_of_le_length (Nat.le_of_lt hLength), List.drop_append_of_le_length hLength,
    List.drop_eq_getElem_cons hLength, List.cons_append]
  simp [slotContents]

theorem Job.firstHarvest_eq (job : Job) : 8 - job.firstHarvest.val = job.slices - 1 := by
  unfold Job.firstHarvest Job.slices Job.pipes
  cases job.large <;> rfl

theorem Job.lt_slices {j : Fin 8} (hj : job.firstHarvest ≤ j) : 7 - j.val + 1 < job.slices := by
  have hSlices := job.two_le_slices
  have hFirst := job.firstHarvest_eq
  have hLe : job.firstHarvest.val ≤ j.val := hj
  omega

/-- A harvest pass reads the slice that comes in front of what was read. -/
theorem AllFull.slice {regs : Fin 4 → Registers} (h : AllFull job w k regs x) {j : Fin 8}
    (hj : job.firstHarvest ≤ j) :
    harvestSlice (regs (harvestPipe j)) (job.pool k) j = slotSlice x (7 - j.val) := by
  have hSlices := Job.lt_slices hj
  have hPipe : (harvestPipe j).val < job.pipes := by
    unfold Job.slices at hSlices
    show (7 - j.val) / 2 < job.pipes
    omega
  have hIndex : Fin.ofNat 4 ((7 - j.val) / 2) = harvestPipe j := by
    have hj8 := j.isLt
    exact Fin.ext (Nat.mod_eq_of_lt (by omega))
  funext l
  unfold harvestSlice slotSlice
  rw [(h _ hPipe).sums l, hIndex]
  have hj8 := j.isLt
  by_cases hEven : j.val % 2 = 0
  · rw [if_pos hEven, if_neg (by omega)]
  · rw [if_neg hEven, if_pos (by omega)]

/-- The harvest passes of a duplicate. The induction is on the number of passes left. -/
theorem AllFull.harvested (m : ℕ) {regs : Fin 4 → Registers} (h : AllFull job w k regs x)
    {j : Fin 8} (hm : j.val + m = 7) {fuel : ℕ} (hFuel : m < fuel) {port : PortId} {pkt : Packet}
    (hAt : DuplicateAt job x w k rp j port pkt) :
    ∃ pkt', (remainingPasses job.config fuel regs (.recirculated port pkt)).2 =
        .unicast (job.port w) pkt' ∧ pkt'.payload = duplicatePayload job x rp := by
  induction m generalizing j fuel regs port pkt with
  | zero =>
    obtain ⟨fuel, rfl⟩ := Nat.exists_eq_succ_of_ne_zero (Nat.ne_of_gt hFuel)
    obtain rfl : j = 7 := by omega
    obtain ⟨-, hPipe, hPass⟩ := hAt.flight.harvests hAt.type (regs (pipeOf port))
    have hEnds := hPass.ends rfl
    rw [if_neg (by simp [hAt.first]), if_pos ⟨hAt.first, hAt.dup⟩] at hEnds
    obtain ⟨pkt', hPkt, hOut⟩ := hEnds
    refine ⟨pkt', ?_, ?_⟩
    · simp only [remainingPasses]
      rw [hOut]
      cases fuel <;> rfl
    · have hFirst := hAt.flight.firstHarvest_le hAt.type
      rw [hPkt.payload, show pipeOf port = harvestPipe 7 from hPipe, h.slice hFirst, hAt.payload,
        ← List.drop_zero (l := duplicatePayload job x rp),
        duplicatePayload_drop (m := 0) (Job.lt_slices hFirst)]
      rfl
  | succ m ih =>
    obtain ⟨fuel, rfl⟩ := Nat.exists_eq_succ_of_ne_zero (Nat.ne_of_gt (Nat.zero_lt_of_lt hFuel))
    obtain ⟨-, hPipe, hPass⟩ := hAt.flight.harvests hAt.type (regs (pipeOf port))
    obtain ⟨pkt', hPkt, hOut⟩ := hPass.continues (by omega)
    have hEmit := hPass.emissionOk hAt.flight
    rw [hOut] at hEmit
    have hSucc : (j + 1).val = j.val + 1 := Fin.val_add_one_of_lt' (by omega)
    have hFirst := hAt.flight.firstHarvest_le hAt.type
    have hNext : DuplicateAt job x w k rp (j + 1) (job.harvestPort (j + 1)) pkt' := by
      refine ⟨hEmit, hPkt.type, hPkt.dup.trans hAt.dup, hPkt.first.trans hAt.first, ?_⟩
      rw [hPkt.payload, show pipeOf port = harvestPipe j from hPipe, h.slice hFirst, hSucc,
        show 8 - (j.val + 1) = 7 - j.val by omega, duplicatePayload_drop (Job.lt_slices hFirst),
        show 7 - j.val + 1 = 8 - j.val by omega, hAt.payload]
    have hStill := h.update (i := pipeOf port) fun hi => (h _ hi).congr hPass.leaves
    obtain ⟨pkt'', hRun, hPayload⟩ := ih hStill (by omega) (Nat.lt_of_succ_lt_succ hFuel) hNext
    refine ⟨pkt'', ?_, hPayload⟩
    simp only [remainingPasses]
    rw [hOut]
    exact hRun

/-- The last consume pass of a duplicate keeps its last slice. -/
theorem AllFull.starts {regs : Fin 4 → Registers} (h : AllFull job w k regs x) {i : Fin 4}
    {st : PassState} {met after : Registers} {out : Emission}
    (hPass : ConsumePass job (regs i) after i ⟨w, k, rp⟩ st met out)
    (hEnd : i.val + 1 = job.pipes) :
    ∃ port pkt, out = .recirculated port pkt ∧
      DuplicateAt job x w k rp job.firstHarvest port pkt := by
  obtain ⟨hMap, hFlag, -⟩ := h.consumes hPass
  obtain ⟨rdmaMd, hOut⟩ := hPass.finishes hEnd
  rw [if_pos (.inr ⟨hMap, hFlag⟩)] at hOut
  have hEmit := hPass.emissionOk 0
  rw [hOut] at hEmit
  refine ⟨_, _, hOut, hEmit, rfl, ?_, ?_, ?_⟩
  · show (st.md.mapResultNonzero || decide (consumeMap met st ≠ 0)) = true
    simp only [hMap, ne_eq, not_false_eq_true, decide_true, Bool.or_true]
  · show (st.md.firstFlag || decide (consumeFlag met st = 0)) = true
    simp only [hFlag, decide_true, Bool.or_true]
  · have hData := congrArg (List.drop 1) hPass.data
    rw [List.drop_drop, show 2 * i.val + 1 = job.slices - 1 by rw [Job.slices]; omega] at hData
    show (consumeState met st i).d1 :: st.payload = _
    rw [show (consumeState met st i).d1 = st.d1 from if_neg hMap, job.firstHarvest_eq,
      duplicatePayload, List.drop_left' (by rw [List.length_take, slotContents_length]; omega),
      ← hData]
    rfl

/-- The consume passes of a duplicate, and then the harvest. The induction is on the number
of consume passes left. -/
theorem AllFull.consumed (m : ℕ) {regs : Fin 4 → Registers} (h : AllFull job w k regs x)
    {i : Fin 4} (hm : i.val + 1 + m = job.pipes) {fuel : ℕ} (hFuel : m + 7 ≤ fuel) {st : PassState}
    {met after : Registers} {out : Emission}
    (hPass : ConsumePass job (regs i) after i ⟨w, k, rp⟩ st met out) :
    ∃ pkt, (remainingPasses job.config fuel (Function.update regs i after) out).2 =
        .unicast (job.port w) pkt ∧ pkt.payload = duplicatePayload job x rp := by
  induction m generalizing i fuel regs st met after out with
  | zero =>
    obtain ⟨port, pkt, rfl, hAt⟩ := h.starts hPass hm
    have hFirst := job.firstHarvest.isLt
    have hPos := Fin.pos_iff_ne_zero.mpr job.firstHarvest_pos
    exact AllFull.harvested (7 - job.firstHarvest.val) (h.consumes hPass).2.2 (by omega) (by omega)
      hAt
  | succ m ih =>
    obtain ⟨fuel, rfl⟩ : ∃ fuel', fuel = fuel' + 1 := ⟨fuel - 1, by omega⟩
    obtain ⟨hMap, hFlag, hStill⟩ := h.consumes hPass
    obtain ⟨rdmaMd, hOut⟩ := hPass.forwards (by omega)
    rw [if_pos (.inr (.inr hFlag))] at hOut
    have hEmit := hPass.emissionOk 0
    subst hOut
    obtain ⟨-, hPipe, st', hNext, -, -⟩ := FlightOk.consumes hEmit (i := i + 1) rfl
      (Function.update regs i after (pipeOf (job.lanePort w (i + 1))))
    have hSucc : (i + 1).val = i.val + 1 :=
      Fin.val_add_one_of_lt' (by have := job.pipes_le; omega)
    have hPipe' : pipeOf (job.lanePort w (i + 1)) = i + 1 := hPipe
    simp only [remainingPasses]
    rw [hPipe'] at hNext ⊢
    exact ih hStill (by omega) (by omega) hNext

theorem AllFull.replies {regs : Fin 4 → Registers} (h : AllFull job w k regs x)
    (hSend : job.sendable w k rp = true)
    (hPool : receivedPoolIndex job.config.workers rp (regs 0) = some (job.pool k)) :
    ∃ pkt, duplicateReply job regs w rp = .unicast (job.port w) pkt ∧
      pkt.payload = duplicatePayload job x rp := by
  obtain ⟨st, met, hPass, -⟩ := receive_consumes hSend hPool
  have hPos := job.pipes_pos
  have hLe := job.pipes_le
  have hLeft : (0 : Fin 4).val + 1 + (job.pipes - 1) = job.pipes := by
    rw [Fin.val_zero]
    omega
  have hFuel : job.pipes - 1 + 7 ≤ 10 := by omega
  obtain ⟨pkt, hRun, hPayload⟩ := AllFull.consumed (job.pipes - 1) h hLeft hFuel hPass
  exact ⟨pkt, hRun, hPayload⟩

/-- A list is given by its last element and what comes before. -/
theorem duplicatePayload_eq_iff (hLength : rp.payload.length = job.slices) :
    duplicatePayload job x rp = slotContents job x ↔
      rp.payload.getLast? = (slotContents job x).getLast? := by
  have hSlices := job.two_le_slices
  have hSent : rp.payload ≠ [] := by
    intro hNil
    rw [hNil, List.length_nil] at hLength
    omega
  have hHeld : slotContents job x ≠ [] := by
    intro hNil
    have hZero : (slotContents job x).length = job.slices := slotContents_length
    rw [hNil, List.length_nil] at hZero
    omega
  have hSplit := List.take_append_drop (job.slices - 1) (slotContents job x)
  have hDropSent := List.drop_length_sub_one hSent
  have hDropHeld := List.drop_length_sub_one hHeld
  rw [hLength] at hDropSent
  rw [slotContents_length] at hDropHeld
  rw [duplicatePayload, hDropSent, List.getLast?_eq_some_getLast hSent,
    List.getLast?_eq_some_getLast hHeld]
  nth_rewrite 2 [← hSplit]
  rw [hDropHeld, List.append_cancel_left_eq, List.singleton_inj, Option.some_inj]

end Duplicate

-- ---------------------------------------------------------------------------
-- What a slot holds along a run
-- ---------------------------------------------------------------------------

/-- What the pipes hold for a chunk. -/
def Job.held (job : Job) (regs : Fin 4 → Registers) (k : ℕ) :
    Fin 4 → Fin 32 → SignificandPair :=
  fun i l => (regs i).significands l (job.pool k)

/-- All workers have sent chunk `k`, and nobody has sent the next chunk of its set. -/
def Settled (job : Job) (log : List (Event job.n)) (k : ℕ) : Prop :=
  ∀ i : Fin 4, i.val < job.pipes → ∀ w,
    consumed log i w k = true ∧ consumed log i w (k + 2) = false

section Held

variable {job : Job} {d : Discipline} {s : SlotState job.n} {a : Staged.State (Fin job.n)} {k : ℕ}

theorem Sim.held_aggregate (h : Sim job d s a) (hDone : Settled job s.log k) :
    slotContents job (job.held s.regs k) = aggregate job s.log k := by
  have hTaken : ∀ i : Fin 4, i.val < job.pipes → ∀ w, k < a.count i w ∧ a.count i w ≤ k + 2 := by
    intro i hi w
    obtain ⟨hSome, hNone⟩ := hDone i hi w
    refine ⟨(h.rel.consumed i hi w k).mp hSome, Nat.le_of_not_lt fun hLt => ?_⟩
    rw [(h.rel.consumed i hi w (k + 2)).mpr hLt] at hNone
    exact Bool.noConfusion hNone
  have hUses : d.uses job (job.set k) := by
    have hCount := (hTaken 0 job.pipes_pos ⟨0, job.n_pos⟩).1
    have hSent := h.inv.count_le ⟨0, job.n_pos⟩
    rw [Fin.val_zero] at hCount
    exact h.uses (w := ⟨0, job.n_pos⟩) (by omega)
  refine List.map_congr_left fun j hj => funext fun l => ?_
  have hLt : j / 2 < job.pipes := by
    have : j < 2 * job.pipes := List.mem_range.mp hj
    omega
  have hPipe : (Fin.ofNat 4 (j / 2)).val = j / 2 :=
    Nat.mod_eq_of_lt (Nat.lt_of_lt_of_le hLt job.pipes_le)
  have hi : (Fin.ofNat 4 (j / 2)).val < job.pipes := by
    rw [hPipe]
    exact hLt
  have hSums := h.rel.significands hi hUses (fun w => (hTaken _ hi w).1)
    (fun w => (hTaken _ hi w).2) l
  rw [hPipe] at hSums
  unfold slotSlice Job.held
  rw [hSums]
  split
  · rw [show 2 * (j / 2) = j by omega]
  · rw [show 2 * (j / 2) + 1 = j by omega]

end Held

/-- **The reply to a duplicate.** In every state that a run reaches, a worker that is
still in a slot that misses nobody is answered, and the answer is what the slot holds if
and only if the last slice of the duplicate happens to be that of the slot. What the slot
holds is the aggregate, as in the broadcast of the chunk, where no duplicate has misread
the slot. -/
theorem duplicate_answered (job : Job) (labels : List (SlotLabel job.n)) {w : Fin job.n} {k : ℕ}
    {rp : RocePacket} (hSend : job.sendable w k rp = true)
    (hPool : receivedPoolIndex job.config.workers rp
      ((slotRun job .unreliable .initial labels).regs 0) = some (job.pool k))
    (hFull : ∀ i : Fin 4, i.val < job.pipes →
      let regs := (slotRun job .unreliable .initial labels).regs i
      regs.bitmap (job.pool k) &&& ((1#32) <<< w.val) ≠ 0 ∧ regs.workerCount (job.pool k) = 0) :
    let s := slotRun job .unreliable .initial labels
    let contents := slotContents job (job.held s.regs k)
    (∃ pkt, duplicateReply job s.regs w rp = .unicast (job.port w) pkt ∧
      (pkt.payload = contents ↔ rp.payload.getLast? = contents.getLast?)) ∧
    (job.large = false ∨ cleanRun job .unreliable .initial labels = true →
      Settled job s.log k → contents = aggregate job s.log k ∧
      ∀ e ∈ s.log, ∀ pkt, e.broadcast? = some pkt → e.tag.chunk = k → pkt.payload = contents) := by
  intro s contents
  have hAll : AllFull job w k s.regs (job.held s.regs k) :=
    fun i hi => ⟨(hFull i hi).1, (hFull i hi).2, fun _ => rfl⟩
  obtain ⟨pkt, hReply, hPayload⟩ := hAll.replies hSend hPool
  refine ⟨⟨pkt, hReply, ?_⟩, fun hRun hDone => ?_⟩
  · rw [hPayload]
    exact duplicatePayload_eq_iff (job.sendable_length hSend)
  · obtain ⟨a, hSim⟩ : ∃ a, Sim job .unreliable s a := by
      rcases hRun with hSmall | hClean
      · exact (sim_initial job .unreliable).run_mode (.inl rfl) (.inl hSmall) labels
      · exact (sim_initial job .unreliable).run (.inl rfl) hClean
    have hHeld : contents = aggregate job s.log k := hSim.held_aggregate hDone
    refine ⟨hHeld, fun e he pkt hCast hk => ?_⟩
    obtain ⟨pre, post, hLog⟩ := List.append_of_mem he
    obtain ⟨hBefore, hSums⟩ := hSim.broadcast_correct hLog hCast
    rw [hSums, hHeld, hLog, hk, aggregate_append]
    rw [← hk]
    exact hBefore 0 job.pipes_pos

/-- Worker 0 sends a chunk again, with other data, after its broadcast. -/
theorem duplicate_answered_pair :
    let job := Job.plain 2 (by decide) (by decide) false
    let labels : List (SlotLabel 2) :=
      [.send 0 (plainPacket 0 2 100), .arrive 0, .send 1 (plainPacket 1 2 200), .arrive 1,
        .recirculate 0]
    let s := slotRun job .unreliable .initial labels
    let contents := slotContents job (job.held s.regs 0)
    let rp := plainPacket 0 2 500
    contents.map (· 0) = [300, 302] ∧ Settled job s.log 0 ∧
    (∃ pkt, duplicateReply job s.regs (0 : Fin 2) rp = .unicast (job.port (0 : Fin 2)) pkt ∧
      (pkt.payload = contents ↔ rp.payload.getLast? = contents.getLast?)) ∧
    (job.large = false ∨ cleanRun job .unreliable .initial labels = true →
      Settled job s.log 0 → contents = aggregate job s.log 0 ∧
      ∀ e ∈ s.log, ∀ pkt, e.broadcast? = some pkt → e.tag.chunk = 0 →
        pkt.payload = contents) := by
  intro job labels s contents rp
  refine ⟨by decide +kernel, ?_, duplicate_answered job labels (w := (0 : Fin 2)) ?_ ?_ ?_⟩
  · unfold Settled
    decide +kernel
  · decide +kernel
  · decide +kernel
  · decide +kernel

/-- **A retransmitted reply that is not the aggregate.** After the broadcast of the sums
worker 0 sends its chunk again, with other data. The last slice of the reply is that of
the duplicate, with packets of either size. -/
theorem duplicate_own_slice :
    let small := Job.plain 2 (by decide) (by decide) false
    let large := Job.plain 2 (by decide) (by decide) true
    let labels : List (SlotLabel 2) :=
      [.send 0 (plainPacket 0 2 100), .arrive 0, .send 1 (plainPacket 1 2 200), .arrive 1,
        .recirculate 0, .resend 0 (plainPacket 0 2 500), .arrive 0, .recirculate 0]
    let labels' : List (SlotLabel 2) :=
      [.send 0 (plainPacket 0 8 100), .arrive 0] ++ List.replicate 3 (.recirculate 0) ++
        [.send 1 (plainPacket 1 8 200), .arrive 1] ++ List.replicate 10 (.recirculate 0) ++
        [.resend 0 (plainPacket 0 8 500), .arrive 0] ++ List.replicate 10 (.recirculate 0)
    let log := (slotRun small .unreliable .initial labels).log
    let log' := (slotRun large .unreliable .initial labels').log
    let words := fun pkt : Packet => pkt.payload.map (· 0)
    ((log.filterMap Event.broadcast?).map words = [[300, 302]] ∧
      (log.filterMap Event.retransmit?).map words = [[300, 501]]) ∧
    ((log'.filterMap Event.broadcast?).map words = [[300, 302, 304, 306, 308, 310, 312, 314]] ∧
      (log'.filterMap Event.retransmit?).map words =
        [[300, 302, 304, 306, 308, 310, 312, 507]]) := by
  decide +kernel

end SwitchML
