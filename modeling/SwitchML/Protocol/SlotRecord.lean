import SwitchML.Protocol.Aggregation

/-!
# SwitchML protocol — bitmap and counter of a slot

The bitmap and the counter of a set are separate registers that separate tables write.
Along every run of a 256-byte job they agree on one story: who is in with the latest
chunk of the set, and how many are missing.

* `Record` — what the two registers say of a chunk;
* `slot_records` — they say so in every state a run reaches, a chunk finds its set empty
  when its first packet arrives, the counter stays below the number of workers, and a
  duplicate that reads 0 from it belongs to a complete chunk.
-/

namespace SwitchML

-- ---------------------------------------------------------------------------
-- What the registers should say
-- ---------------------------------------------------------------------------

/-- The workers whose packets of chunk `k` were processed. -/
def processed {n : ℕ} (log : List (Event n)) (k : ℕ) : Finset (Fin n) :=
  Finset.univ.filter fun w => consumed log 0 w k = true

/-- No later chunk of the set of chunk `k` was started, and chunk `k` was, or it is the
first one of its set. -/
def Latest {n : ℕ} (log : List (Event n)) (k : ℕ) : Prop :=
  (k < 2 ∨ (processed log k).Nonempty) ∧ processed log (k + 2) = ∅

instance {n : ℕ} (log : List (Event n)) (k : ℕ) : Decidable (Latest log k) :=
  inferInstanceAs (Decidable ((k < 2 ∨ (processed log k).Nonempty) ∧ processed log (k + 2) = ∅))

/-- What the bitmap and the counter of a set say of the latest chunk of the set. -/
structure Record (job : Job) (regs : Registers) (log : List (Event job.n)) (k : ℕ) : Prop where
  -- the counter counts down from the number of workers, with 0 for nobody in
  filling : processed log k ≠ Finset.univ →
    regs.workerCount (job.pool k) =
      BitVec.ofNat 8 (if processed log k = ∅ then 0 else job.n - (processed log k).card) ∧
    Bitmap.Holds (regs.bitmap (job.pool k)) (processed log k)
  -- in a complete chunk, the workers that go on to the next one leave the bitmap
  complete : processed log k = Finset.univ →
    regs.workerCount (job.pool k) = 0 ∧
    Bitmap.Holds (regs.bitmap (job.pool k))
      (Finset.univ.filter fun w => consumed log 0 w (k + 1) = false)

/-- The slot status that the first pass of a packet finds. -/
def slotStatusOf (cfg : SwitchConfig) (port : PortId) (rp : RocePacket) (regs : Registers) :
    Option (WorkerBitmap × NumWorkers) :=
  (parseRoce cfg port rp).map fun parsed =>
    let entered := firstPass cfg {} rp regs parsed
    let checked := (checkSlot entered.1 entered.2).2
    (checked.mapResult, checked.firstLastFlag)

section Records

variable {job : Job} {d : Discipline} {s : SlotState job.n} {a : Staged.State (Fin job.n)} {k : ℕ}

theorem Sim.processed_eq (h : Sim job d s a) (k : ℕ) :
    processed s.log k = taken (a.count 0) k := by
  ext w
  rw [processed, Finset.mem_filter, mem_taken, h.rel.consumed 0 job.pipes_pos]
  simp

theorem Sim.counts_close (h : Sim job d s a) (w w' : Fin job.n) : a.count 0 w ≤ a.count 0 w' + 1 :=
  h.inv.counts_close job.pipes_pos job.pipes_pos w w'

theorem Sim.represents (h : Sim job d s a) :
    Represents job (d.uses job) (s.regs 0) (a.count 0) (pipeSlices s.log 0) :=
  h.rel.regs 0 job.pipes_pos

theorem Sim.count_eq (h : Sim job d s a) (hUses : d.uses job (job.set k))
    (hc : ∀ w, k ≤ a.count 0 w + 1 ∧ a.count 0 w ≤ k + 2) :
    (s.regs 0).workerCount (job.pool k) =
      BitVec.ofNat 8 ((job.n - (processed s.log k).card) % job.n) := by
  rw [h.represents.count k hUses hc, h.processed_eq]

theorem Sim.bitmap_holds (h : Sim job d s a) (hUses : d.uses job (job.set k))
    {S : Finset (Fin job.n)}
    (hS : ∀ w, w ∈ S ↔ 0 < a.count 0 w ∧ (a.count 0 w - 1) % 2 = k % 2) :
    Bitmap.Holds ((s.regs 0).bitmap (job.pool k)) S := by
  have hBits := h.represents.bits (job.set k) hUses
  have hEq : (Finset.univ.filter fun w => 0 < a.count 0 w ∧
      job.set (a.count 0 w - 1) = job.set k) = S := by
    ext w
    simp only [Finset.mem_filter, Finset.mem_univ, true_and, job.set_eq_iff, hS]
  rwa [hEq] at hBits

/-- Where the workers are while `k` is the latest chunk of its set. -/
theorem Sim.latest_counts (h : Sim job d s a) (hLatest : Latest s.log k) (w : Fin job.n) :
    a.count 0 w ≤ k + 2 ∧ k ≤ a.count 0 w + 1 ∧
      (k ≤ a.count 0 w ∨ k = 1 ∧ ∀ w', a.count 0 w' ≤ 1) := by
  obtain ⟨hStarted, hNext⟩ := hLatest
  rw [h.processed_eq, ← Finset.card_eq_zero, card_taken_eq_zero_iff] at hNext
  have hTop := hNext w
  by_cases hSome : ∃ w', k < a.count 0 w'
  · obtain ⟨w', hw'⟩ := hSome
    have := h.counts_close w' w
    omega
  · rw [not_exists] at hSome
    rcases hStarted with hk | ⟨w', hw'⟩
    · refine ⟨hTop, by omega, ?_⟩
      rcases Nat.lt_or_ge k 1 with h0 | h1
      · exact .inl (by omega)
      · exact .inr ⟨by omega, fun w' => by have := hSome w'; omega⟩
    · rw [h.processed_eq, mem_taken] at hw'
      exact absurd hw' (hSome w')

theorem Sim.record (h : Sim job d s a) (hAdv : d.advances = true) (hLatest : Latest s.log k) :
    Record job (s.regs 0) s.log k where
  filling hNot := by
    have hPos := job.n_pos
    have hCount := h.count_eq (.inl hAdv) (fun w => ⟨(h.latest_counts hLatest w).2.1,
      (h.latest_counts hLatest w).1⟩)
    refine ⟨?_, h.bitmap_holds (.inl hAdv) fun w => ?_⟩
    · rw [hCount, mod_sub_eq]
      simp only [Finset.card_eq_zero]
    · -- somebody is missing, so nobody is past chunk `k`
      rw [h.processed_eq] at hNot ⊢
      obtain ⟨w', hw'⟩ : ∃ w', ¬ k < a.count 0 w' := by
        by_contra hAll
        refine hNot (Finset.eq_univ_iff_forall.mpr fun w' => mem_taken.mpr ?_)
        exact not_not.mp fun hw' => hAll ⟨w', hw'⟩
      have hClose := h.counts_close w w'
      have hW := (h.latest_counts hLatest w).2.2
      rw [mem_taken]
      rcases hW with hW | ⟨rfl, hW⟩
      · omega
      · have := hW w
        omega
  complete hAll := by
    have hTaken : ∀ w, k < a.count 0 w := by
      intro w
      rw [← mem_taken, ← h.processed_eq, hAll]
      exact Finset.mem_univ w
    have hTop := fun w => (h.latest_counts hLatest w).1
    refine ⟨?_, h.bitmap_holds (.inl hAdv) fun w => ?_⟩
    · rw [h.count_eq (.inl hAdv) fun w => ⟨by have := hTaken w; omega, hTop w⟩, hAll]
      simp
    · rw [Finset.mem_filter, Bool.eq_false_iff, Ne, h.rel.consumed 0 job.pipes_pos]
      have := hTaken w
      have := hTop w
      simp only [Finset.mem_univ, true_and]
      show ¬ k + 1 < a.count 0 w ↔ _
      omega

/-- The chunks that may be on the way of a worker. -/
theorem Sim.uplink_chunk (h : Sim job d s a) {w : Fin job.n} {rp : RocePacket}
    {rest : List (ℕ × RocePacket)} (hUp : s.uplink w = (k, rp) :: rest) :
    a.count 0 w ≤ k + 1 ∧ ∀ w', k ≤ a.count 0 w' := by
  have hMem : k ∈ a.up w := by
    rw [h.rel.up w, hUp]
    exact List.mem_cons_self
  obtain ⟨hCount, hPos⟩ := h.inv.up_mem w k hMem
  exact ⟨hCount, fun w' => hPos.trans (h.inv.pos_le 0 job.pipes_pos w w')⟩

/-- The first packet of a chunk finds its set empty. -/
theorem Sim.arrives_empty (h : Sim job d s a) (hAdv : d.advances = true) {w : Fin job.n}
    {rp : RocePacket} {rest : List (ℕ × RocePacket)} (hUp : s.uplink w = (k, rp) :: rest)
    (hFirst : processed s.log k = ∅) :
    (s.regs 0).bitmap (job.pool k) = 0 ∧ (s.regs 0).workerCount (job.pool k) = 0 := by
  have hGe := (h.uplink_chunk hUp).2
  have hLe := hFirst
  rw [h.processed_eq, ← Finset.card_eq_zero, card_taken_eq_zero_iff] at hLe
  have hEq : ∀ w', a.count 0 w' = k := fun w' => Nat.le_antisymm (hLe w') (hGe w')
  refine ⟨?_, ?_⟩
  · refine (Bitmap.Holds.eq_zero_iff (h.bitmap_holds (.inl hAdv) (S := ∅) fun w' => ?_)).mpr rfl
    simp only [Finset.notMem_empty, hEq w', false_iff]
    omega
  · rw [h.count_eq (.inl hAdv) fun w' => by rw [hEq w']; omega, hFirst]
    simp

/-- The counter of neither set reaches the number of workers. -/
theorem Sim.count_lt (h : Sim job d s a) (hAdv : d.advances = true) (k : ℕ) :
    ((s.regs 0).workerCount (job.pool k)).toNat < job.n := by
  have hPos := job.n_pos
  have hLe := job.n_le_32
  -- the least count and the one after it are chunks of both sets
  obtain ⟨w, hMin⟩ : ∃ w, ∀ w', a.count 0 w ≤ a.count 0 w' := by
    obtain ⟨w, -, hw⟩ := Finset.exists_min_image Finset.univ (a.count 0)
      ⟨(⟨0, hPos⟩ : Fin job.n), Finset.mem_univ _⟩
    exact ⟨w, fun w' => hw w' (Finset.mem_univ _)⟩
  have hClose := fun w' => h.counts_close w' w
  obtain ⟨k', hPool, hc⟩ : ∃ k', job.pool k = job.pool k' ∧
      ∀ w', k' ≤ a.count 0 w' + 1 ∧ a.count 0 w' ≤ k' + 2 := by
    rcases Nat.mod_two_eq_zero_or_one (k + a.count 0 w) with hEven | hOdd
    · exact ⟨a.count 0 w, job.pool_eq_iff.mpr (by omega),
        fun w' => by have := hClose w'; have := hMin w'; omega⟩
    · exact ⟨a.count 0 w + 1, job.pool_eq_iff.mpr (by omega),
        fun w' => by have := hClose w'; have := hMin w'; omega⟩
  rw [hPool, h.count_eq (.inl hAdv) hc, BitVec.toNat_ofNat]
  have hLt := Nat.mod_lt (job.n - (processed s.log k').card) hPos
  rwa [Nat.mod_eq_of_lt (by omega)]

/-- A packet is told to be a duplicate exactly if one like it was processed, and a
duplicate reads 0 exactly if all workers are in. -/
theorem Sim.status_of_uplink (h : Sim job d s a) (hAdv : d.advances = true) {w : Fin job.n}
    {rp : RocePacket} {rest : List (ℕ × RocePacket)} (hUp : s.uplink w = (k, rp) :: rest)
    (hPool : receivedPoolIndex job.config.workers rp (s.regs 0) = some (job.pool k)) :
    ∃ map flag, slotStatusOf job.config (job.port w) rp (s.regs 0) = some (map, flag) ∧
      (map ≠ 0 ↔ consumed s.log 0 w k = true) ∧
      (map ≠ 0 → (flag = 0 ↔ processed s.log k = Finset.univ)) := by
  have hSend := h.wellFormed.uplink w (k, rp) (by rw [hUp]; exact List.mem_cons_self)
  obtain ⟨parsed, hParse, regs, st, hFirst, hSame, hReady, hType, -⟩ := receive_ready hSend hPool
  have hRep := h.represents.congr hSame
  obtain ⟨hLe, hGe⟩ := h.uplink_chunk hUp
  have hUses : d.uses job (job.set k) := .inl hAdv
  have hNew : a.count 0 w = k → consumeMap regs st = 0 := fun hEq =>
    hRep.map_new hReady.consumeReady hUses
      (fun w' => ⟨hGe w', by have := h.counts_close w' w; omega⟩) hEq
  have hDup : consumeMap regs st ≠ 0 ↔ a.count 0 w = k + 1 := by
    refine ⟨fun hMap => ?_, fun hEq => hRep.map_dup hReady.consumeReady hUses hEq⟩
    have hNe : a.count 0 w ≠ k := fun hEq => hMap (hNew hEq)
    have := hGe w
    omega
  refine ⟨consumeMap regs st, consumeFlag regs st, ?_, ?_, fun hMap => ?_⟩
  · unfold slotStatusOf
    rw [hParse]
    simp only [Option.map_some, hFirst]
    rw [checkSlot_consume hType hReady.fresh.dropCtl hReady.noDrop]
  · rw [hDup, h.rel.consumed 0 job.pipes_pos]
    show _ ↔ k < a.count 0 w
    omega
  · have hEq := hDup.mp hMap
    have hFlag := hRep.flag_dup_zero hReady.consumeReady hUses
      (fun w' => by have := h.counts_close w' w; have := hGe w'; omega) hEq
    rw [hFlag, h.processed_eq, Finset.eq_univ_iff_forall]
    simp only [mem_taken]

/-- A packet that finds its set empty is written over what the set holds. -/
theorem overwrites_of_empty {w : Fin job.n} {rp : RocePacket} {regs : Registers}
    (hSend : job.sendable w k rp = true)
    (hPool : receivedPoolIndex job.config.workers rp regs = some (job.pool k))
    (hEmpty : regs.bitmap (job.pool k) = 0) (l : Fin 32) :
    (receiveRoce job.config {} (job.port w) rp regs).1.significands l (job.pool k) =
      ⟨rp.payload.getD 0 (fun _ => 0) l, rp.payload.getD 1 (fun _ => 0) l⟩ := by
  obtain ⟨st, met, hPass, -⟩ := receive_consumes hSend hPool
  have hMet : met.bitmap st.md.poolIndex = 0 := by
    rw [hPass.ready.md.poolIndex, hPass.meets.bitmap _ (job.pool_slot k)]
    exact hEmpty
  have hData : rp.payload = st.d0 :: st.d1 :: st.payload := by
    simpa using hPass.data.symm
  rw [hPass.leaves.significands l _ (job.pool_slot k), hData]
  have hRegs : (consumeRegs met st 0).significands l =
      Function.update (met.significands l) st.md.poolIndex (newSignificands met st l) := by
    simp only [consumeRegs]
    rw [if_pos (consumeMap_eq_zero_of_bitmap hMet)]
  have hIndex : st.md.poolIndex = job.pool k := hPass.ready.md.poolIndex
  rw [hRegs, hIndex, Function.update_self, newSignificands, if_pos hMet]
  rfl

end Records

/-- **Bitmap and counter of a slot.** In every state a run of a job with 256-byte packets
reaches, whatever is lost and however often chunks are sent again: the bitmap and the
counter of a set give a true record of the latest chunk of the set. The first packet of a
chunk finds its set empty, and is written over what the set holds. The counter stays
below the number of workers. A packet is told to be a duplicate exactly if it is one, and
a duplicate that reads 0 belongs to a complete chunk. -/
theorem slot_records (job : Job) (hSmall : job.large = false) (labels : List (SlotLabel job.n)) :
    let s := slotRun job .unreliable .initial labels
    (∀ k, Latest s.log k → Record job (s.regs 0) s.log k) ∧
    (∀ w k rp rest, s.uplink w = (k, rp) :: rest → processed s.log k = ∅ →
      (s.regs 0).bitmap (job.pool k) = 0 ∧ (s.regs 0).workerCount (job.pool k) = 0 ∧
      (receivedPoolIndex job.config.workers rp (s.regs 0) = some (job.pool k) →
        ∀ l, (receiveRoce job.config {} (job.port w) rp (s.regs 0)).1.significands l (job.pool k) =
          ⟨rp.payload.getD 0 (fun _ => 0) l, rp.payload.getD 1 (fun _ => 0) l⟩)) ∧
    (∀ k, ((s.regs 0).workerCount (job.pool k)).toNat < job.n) ∧
    ∀ w k rp rest, s.uplink w = (k, rp) :: rest →
      receivedPoolIndex job.config.workers rp (s.regs 0) = some (job.pool k) →
      ∃ map flag, slotStatusOf job.config (job.port w) rp (s.regs 0) = some (map, flag) ∧
        (map ≠ 0 ↔ consumed s.log 0 w k = true) ∧
        (map ≠ 0 → flag = 0 → processed s.log k = Finset.univ) := by
  intro s
  obtain ⟨a, hSim⟩ := (sim_initial job .unreliable).run_mode (.inl rfl) (.inl hSmall) labels
  refine ⟨fun k hLatest => hSim.record rfl hLatest, fun w k rp rest hUp hFirst => ?_,
    fun k => hSim.count_lt rfl k, fun w k rp rest hUp hPool => ?_⟩
  · obtain ⟨hBitmap, hCount⟩ := hSim.arrives_empty rfl hUp hFirst
    have hSend := hSim.wellFormed.uplink w (k, rp) (by rw [hUp]; exact List.mem_cons_self)
    exact ⟨hBitmap, hCount, fun hPool l => overwrites_of_empty hSend hPool hBitmap l⟩
  · obtain ⟨map, flag, hStatus, hMap, hFlag⟩ := hSim.status_of_uplink rfl hUp hPool
    exact ⟨map, flag, hStatus, hMap, fun hDup => (hFlag hDup).mp⟩

/-- One of two workers is in with chunk 0, and its packet comes once more. -/
theorem slot_records_pair :
    let job := Job.plain 2 (by decide) (by decide) false
    let labels : List (SlotLabel 2) :=
      [.send 0 (plainPacket 0 2 100), .arrive 0, .resend 0 (plainPacket 0 2 100)]
    let s := slotRun job .unreliable .initial labels
    (s.regs 0).workerCount (job.pool 0) = 1 ∧ (s.regs 0).bitmap (job.pool 0) = 1 ∧
    slotStatusOf job.config (job.port (0 : Fin 2)) (plainPacket 0 2 100) (s.regs 0) =
      some (1, 1) ∧
    Record job (s.regs 0) s.log 0 := by
  intro job labels s
  exact ⟨by decide +kernel, by decide +kernel, by decide +kernel,
    (slot_records job rfl labels).1 0 (by decide +kernel)⟩

end SwitchML
