import SwitchML.Protocol.Simulation

/-!
# SwitchML protocol — broadcasts carry the aggregate

Over whole runs, from registers that are all zero:

* `aggregation_256B` — with 256-byte packets, whatever is lost and however often
  chunks are sent again, a chunk is broadcast at most once, after all workers have sent
  it, and with the sums of the packets that were processed first;
* `aggregation_1024B` — with 1024-byte packets and nothing lost or sent again, whatever
  the order of the passes in the four pipes, a broadcast carries all eight slices of the
  sums in their order.
-/

namespace SwitchML

open scoped BigOperators

-- ---------------------------------------------------------------------------
-- Runs
-- ---------------------------------------------------------------------------

namespace Discipline

/-- Packets are lost and sent again; the recirculation ports keep the order. -/
def unreliable : Discipline where
  fifo := true
  lossy := true
  resends := true
  advances := true

/-- Nothing is lost or sent again; passes come in any order. -/
def reliable : Discipline where
  fifo := false
  lossy := false
  resends := false
  advances := true

end Discipline

/-- Nothing was sent yet, and all registers are zero. -/
def SlotState.initial {n : ℕ} : SlotState n := { regs := fun _ => {} }

/-- A job on the front-panel ports 0, 1, 2, … with a message for each packet. -/
def Job.plain (n : ℕ) (hPos : 0 < n) (hLe : n ≤ 32) (large : Bool) : Job where
  n := n
  n_pos := hPos
  n_le := hLe
  large := large
  mgid := 1
  slot := 0
  slot_lt := by decide
  firstSet := false
  last := fun _ => true
  port := fun w => BitVec.ofNat 9 w
  port_front := by
    have hPorts : ∀ w : Fin 32, pipeOf (BitVec.ofNat 9 w) = 0 ∧ BitVec.ofNat 9 w ≠ 64 ∧
      BitVec.ofNat 9 w ≠ 68 := by decide
    exact fun w => hPorts (w.castLE hLe)
  ip := fun w => BitVec.ofNat 32 w
  switchIp := 100
  partitionKey := 0xffff
  alternateRecircPort := none
  alternate_pipe := by simp
  others := []

/-- A packet of worker `w` for set 0 of the slot, with the words of slice `j` all
`v + j`. -/
def plainPacket (w slices v : ℕ) : RocePacket where
  srcAddr := BitVec.ofNat 32 w
  dstAddr := 100
  opcode := .rdmaWriteOnlyImmediate
  dstQp := 0x800000 ||| (BitVec.ofNat 24 w <<< 16)
  psn := 0
  payload := (List.range slices).map fun j _ => BitVec.ofNat 32 (v + j)

variable {job : Job} {d : Discipline}

/-- A slot whose sets are empty is where the protocol starts. -/
theorem sim_empty {regs : Fin 4 → Registers}
    (hEmpty : ∀ i : Fin 4, i.val < job.pipes → ∀ σ, d.uses job σ →
      (regs i).bitmap (PoolIndex.mk job.slot σ) = 0 ∧
      (regs i).workerCount (PoolIndex.mk job.slot σ) = 0) :
    Sim job d { regs } Staged.init := by
  have hRegs : ∀ i : Fin 4, i.val < job.pipes →
      Represents job (d.uses job) (regs i) (fun _ => 0) (pipeSlices [] i) := by
    intro i hi
    refine ⟨fun σ hσ => ?_, fun k hk _ => ?_, fun k _ hSome => ?_⟩
    · rw [(hEmpty i hi σ hσ).1]
      simpa using Bitmap.holds_zero
    · rw [Job.pool, (hEmpty i hi _ hk).2]
      simp [taken]
    · obtain ⟨w, hw⟩ := hSome
      exact absurd hw (by simp)
  have hRel : Rel job d { regs } Staged.init :=
    { pos := rfl, up := fun _ => rfl, lane := fun _ _ _ => rfl, harvest := rfl
      down := fun _ => rfl, casts := rfl, regs := hRegs
      consumed := fun _ _ _ _ => by simp [consumed, Staged.init]
      flags := fun f hf => absurd hf (by simp), broadcasts := .nil }
  refine ⟨hRel, ⟨fun w x hx => ?_, fun f hf => ?_, fun w x hx => ?_⟩, Staged.inv_init _,
    fun _ => Staged.single_init _, fun _ _ _ => ⟨rfl, rfl⟩, fun _ _ => rfl⟩
  · exact absurd hx (by simp)
  · exact absurd hf (by simp)
  · exact absurd hx (by simp)

theorem sim_initial (job : Job) (d : Discipline) : Sim job d .initial Staged.init := by
  refine sim_empty fun i _ σ _ => ⟨?_, rfl⟩
  simp [Registers.bitmap]

/-- Only duplicates of 1024 bytes misread a slot. -/
theorem Sim.not_misreads {s : SlotState job.n} {a : Staged.State (Fin job.n)}
    (h : Sim job d s a) (hMode : job.large = false ∨ d.resends = false)
    (label : SlotLabel job.n) : misreads job d s label = false := by
  cases label with
  | recirculate i =>
    simp only [misreads]
    split
    · rfl
    · next f hNext =>
      have hMem : f ∈ s.recirc := by
        unfold SlotState.next at hNext
        split at hNext
        · exact absurd hNext (by simp)
        · next g hGet =>
          split at hNext
          · exact absurd hNext (by simp)
          · exact Option.some.inj hNext ▸ List.mem_of_getElem? hGet
      by_contra hMis
      simp only [Bool.not_eq_false, Bool.and_eq_true, decide_eq_true_eq] at hMis
      obtain ⟨⟨hType, hDup⟩, -⟩ := hMis
      rcases hMode with hSmall | hOnce
      · rcases (h.wellFormed.flights f hMem).route with ⟨i', -, hLt, hType', -⟩ | ⟨j, -, hType', -⟩
        · rw [hType] at hType'
          obtain rfl := PacketType.consume.inj hType'
          simp [Job.pipes, hSmall] at hLt
        · rw [hType] at hType'
          exact absurd hType' (by simp)
      · have hItem : f.item ∈ a.lane 3 f.tag.worker := by
          have hLane := h.rel.lane 3 f.tag.worker (by decide)
          rw [show ((3 : Fin 4) : ℕ) = 3 from rfl] at hLane
          rw [hLane]
          exact List.mem_map_of_mem
            (List.mem_filter.mpr ⟨hMem, onLane_type.mpr ⟨hType, rfl⟩⟩)
        have := (h.single hOnce).lanes_new 3 f.tag.worker _ hItem
        simp [Flight.item, hDup] at this
  | _ => rfl

theorem Sim.clean {s : SlotState job.n} {a : Staged.State (Fin job.n)} (h : Sim job d s a)
    (hMode : d.fifo = true ∨ d.resends = false) (hJob : job.large = false ∨ d.resends = false)
    (labels : List (SlotLabel job.n)) : cleanRun job d s labels = true := by
  induction labels generalizing s a with
  | nil => rfl
  | cons label labels ih =>
    have hClean := h.not_misreads hJob label
    obtain ⟨a', h'⟩ := h.move hMode (slotStep_move h.wellFormed hClean)
    exact cleanRun_cons.mpr ⟨hClean, ih h'⟩

/-- Every run of a small job on ordered ports, and every run in which nothing is sent
twice, is a run of the protocol. -/
theorem Sim.run_mode {s : SlotState job.n} {a : Staged.State (Fin job.n)} (h : Sim job d s a)
    (hMode : d.fifo = true ∨ d.resends = false) (hJob : job.large = false ∨ d.resends = false)
    (labels : List (SlotLabel job.n)) : ∃ a', Sim job d (slotRun job d s labels) a' :=
  h.run hMode (h.clean hMode hJob labels)

-- ---------------------------------------------------------------------------
-- Broadcasts
-- ---------------------------------------------------------------------------

/-- The broadcasts of a chunk. -/
def broadcasts {n : ℕ} (log : List (Event n)) (k : ℕ) : List (Event n) :=
  log.filter fun e => decide (e.castChunk = some k)

theorem mem_broadcasts {n : ℕ} {log : List (Event n)} {e : Event n} {k : ℕ} :
    e ∈ broadcasts log k ↔ e ∈ log ∧ e.broadcast?.isSome = true ∧ e.tag.chunk = k := by
  unfold broadcasts Event.castChunk
  rw [List.mem_filter, decide_eq_true_eq]
  cases e.broadcast? <;> simp

/-- A chunk is broadcast at most once. -/
theorem Sim.broadcasts_length {s : SlotState job.n} {a : Staged.State (Fin job.n)}
    (h : Sim job d s a) (k : ℕ) : (broadcasts s.log k).length ≤ 1 := by
  have hNodup : (s.log.filterMap Event.castChunk).Nodup := by
    have hSorted := h.inv.casts_sorted
    rw [h.rel.casts] at hSorted
    exact hSorted.imp fun hlt => Nat.ne_of_lt hlt
  have hCount : (broadcasts s.log k).length = (s.log.filterMap Event.castChunk).count k := by
    rw [broadcasts, ← List.countP_eq_length_filter, List.count_filterMap]
    exact List.countP_congr fun e _ => by
      simp
  rw [hCount]
  exact List.nodup_iff_count_le_one.mp hNodup k

/-- What a broadcast means: it comes after all workers have sent the chunk, to all pipes,
and carries the aggregate. -/
theorem Sim.broadcast_correct {s : SlotState job.n} {a : Staged.State (Fin job.n)}
    (h : Sim job d s a) {pre post : List (Event job.n)} {e : Event job.n} {pkt : Packet}
    (hLog : s.log = pre ++ e :: post) (hCast : e.broadcast? = some pkt) :
    (∀ i : Fin 4, i.val < job.pipes → ∀ w, consumed pre i w e.tag.chunk = true) ∧
    pkt.payload = aggregate job pre e.tag.chunk :=
  h.rel.broadcasts.before hLog pkt hCast

/-- **256-byte aggregation.** In every run of a job with 256-byte packets, each chunk is
broadcast at most once, only after the switch has processed a packet of it from every
worker, and with the sums of the words of the packets that it processed first. -/
theorem aggregation_256B (job : Job) (hSmall : job.large = false)
    (labels : List (SlotLabel job.n)) (k : ℕ) :
    let log := (slotRun job .unreliable .initial labels).log
    (broadcasts log k).length ≤ 1 ∧
    ∀ pre e post pkt, log = pre ++ e :: post → e.broadcast? = some pkt → e.tag.chunk = k →
      (∀ w, consumed pre 0 w k = true) ∧ pkt.payload = aggregate job pre k := by
  intro log
  obtain ⟨a, hSim⟩ := (sim_initial job .unreliable).run_mode (.inl rfl) (.inl hSmall) labels
  refine ⟨hSim.broadcasts_length k, ?_⟩
  rintro pre e post pkt hLog hCast rfl
  obtain ⟨hAll, hPayload⟩ := hSim.broadcast_correct hLog hCast
  exact ⟨hAll 0 job.pipes_pos, hPayload⟩

/-- A run in which both workers send a chunk, and worker 0 sends it once more with other
data: the broadcast has the sums of what came first. -/
theorem aggregation_256B_pair :
    let job := Job.plain 2 (by decide) (by decide) false
    let labels : List (SlotLabel 2) :=
      [.send 0 (plainPacket 0 2 100), .arrive 0, .send 1 (plainPacket 1 2 200), .arrive 1,
        .resend 0 (plainPacket 0 2 500), .arrive 0, .recirculate 0, .recirculate 0]
    let log := (slotRun job .unreliable .initial labels).log
    ((log.filterMap Event.broadcast?).map fun pkt => pkt.payload.map (· 0)) = [[300, 302]] ∧
    (broadcasts log 0).length ≤ 1 ∧
    ∀ pre e post pkt, log = pre ++ e :: post → e.broadcast? = some pkt → e.tag.chunk = 0 →
      (∀ w, consumed pre 0 w 0 = true) ∧ pkt.payload = aggregate job pre 0 := by
  intro job labels log
  exact ⟨by decide +kernel, aggregation_256B job rfl labels 0⟩

/-- **1024-byte aggregation.** If nothing is lost or sent again, a broadcast of a job with
1024-byte packets comes after all workers' packets have been through all four pipes, in
whatever order, and its payload is the eight slices of the sums in their order. -/
theorem aggregation_1024B (job : Job) (hLarge : job.large = true)
    (labels : List (SlotLabel job.n)) {pre post : List (Event job.n)} {e : Event job.n}
    {pkt : Packet} (hLog : (slotRun job .reliable .initial labels).log = pre ++ e :: post)
    (hCast : e.broadcast? = some pkt) :
    (∀ i w, consumed pre i w e.tag.chunk = true) ∧
    pkt.payload = (List.range 8).map fun j x => ∑ w, firstSlice pre w e.tag.chunk j x := by
  obtain ⟨a, hSim⟩ := (sim_initial job .reliable).run_mode (.inr rfl) (.inr rfl) labels
  obtain ⟨hAll, hPayload⟩ := hSim.broadcast_correct hLog hCast
  have hPipes : job.pipes = 4 := if_pos hLarge
  refine ⟨fun i => hAll i (by rw [hPipes]; exact i.isLt), ?_⟩
  rw [hPayload, aggregate, Job.slices, hPipes]
  rfl

/-- Two workers, one chunk: the last event of the run is the broadcast. -/
theorem aggregation_1024B_pair :
    let job := Job.plain 2 (by decide) (by decide) true
    let labels : List (SlotLabel 2) :=
      [.send 0 (plainPacket 0 8 100), .send 1 (plainPacket 1 8 200), .arrive 0, .arrive 1,
        .recirculate 0, .recirculate 1, .recirculate 1] ++ List.replicate 10 (.recirculate 0)
    let log := (slotRun job .reliable .initial labels).log
    ∃ e pkt, e.broadcast? = some pkt ∧ log = log.dropLast ++ [e] ∧
      pkt.payload.map (· 0) = [300, 302, 304, 306, 308, 310, 312, 314] ∧
      (∀ i w, consumed log.dropLast i w e.tag.chunk = true) ∧
      pkt.payload =
        (List.range 8).map fun j x => ∑ w, firstSlice log.dropLast w e.tag.chunk j x := by
  intro job labels log
  have hLast : (log.getLast?.bind Event.broadcast?).isSome = true := by decide +kernel
  obtain ⟨pkt, hPkt⟩ := Option.isSome_iff_exists.mp hLast
  obtain ⟨e, he, hCast⟩ := Option.bind_eq_some_iff.mp hPkt
  have hLog : log = log.dropLast ++ [e] := (List.dropLast_append_getLast? e he).symm
  have hWords : (log.getLast?.bind Event.broadcast?).map (fun pkt => pkt.payload.map (· 0)) =
      some [300, 302, 304, 306, 308, 310, 312, 314] := by decide +kernel
  rw [hPkt] at hWords
  exact ⟨e, pkt, hCast, hLog, Option.some.inj hWords, aggregation_1024B job rfl labels hLog hCast⟩

end SwitchML
