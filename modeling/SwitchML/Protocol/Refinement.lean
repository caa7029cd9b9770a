import SwitchML.Lib.Staged
import SwitchML.Protocol.Log
import SwitchML.Protocol.Moves

/-!
# SwitchML protocol — the slot machine is staged aggregation

The slot machine with its registers, ports and packets refines the protocol of
`Staged`: a pipe is a stage, the ports of a worker's consume passes are its lanes, and
all ports of the harvest together are the reply queue. `Rel` relates the states,
`Sim` adds what the protocol keeps invariant, and `Sim.move` is the step lemma.

The relation also says what the registers and the packets hold: the sums of the slices
of the packets that were processed first, and in a packet on its way to a broadcast the
part of the aggregate that was harvested so far.
-/

namespace SwitchML

open Staged (Dest)
open History (Along)

-- ---------------------------------------------------------------------------
-- Packets as items of the protocol
-- ---------------------------------------------------------------------------

namespace Flight

variable {n : ℕ}

/-- What a packet on a lane is to the protocol. -/
def item (f : Flight n) : ℕ × Bool := (f.tag.chunk, !f.dup)

/-- What a packet in the harvest is to the protocol. A packet that filled the slot up is
for all, but not if it was the first one in an earlier pipe; a duplicate is for its sender
if it found the slot full. -/
def reply (f : Flight n) : Dest (Fin n) × ℕ :=
  (match f.dup, f.pkt.md.firstFlag with
    | false, false => .all
    | true, true => .one f.tag.worker
    | _, _ => .nobody, f.tag.chunk)

theorem reply_all {f : Flight n} :
    f.reply.1 = .all ↔ f.dup = false ∧ f.pkt.md.firstFlag = false := by
  unfold reply
  cases f.dup <;> cases f.pkt.md.firstFlag <;> simp

theorem reply_one {f : Flight n} {w : Fin n} :
    f.reply.1 = .one w ↔ (f.dup = true ∧ f.pkt.md.firstFlag = true) ∧ f.tag.worker = w := by
  unfold reply
  cases f.dup <;> cases f.pkt.md.firstFlag <;> simp

end Flight

/-- The harvest passes, the last one first. -/
def harvestOrder : List (Fin 8) := [7, 6, 5, 4, 3, 2, 1]

/-- The packets in the harvest in the order in which they leave it. -/
def harvestQueue {n : ℕ} (l : List (Flight n)) : List (Flight n) :=
  harvestOrder.flatMap fun j => l.filter (Flight.onHarvest j)

section Queues

variable {n : ℕ} {pre post : List (Flight n)} {f : Flight n}

theorem filter_head {p : Flight n → Bool} (hf : p f = true) (hPre : ∀ g ∈ pre, p g = false) :
    (pre ++ f :: post).filter p = f :: (pre ++ post).filter p := by
  have hNil : pre.filter p = [] := List.filter_eq_nil_iff.mpr fun g hg => by simp [hPre g hg]
  simp [List.filter_append, hNil, hf]

theorem filter_skip {p : Flight n → Bool} (hf : p f = false) :
    (pre ++ f :: post).filter p = (pre ++ post).filter p := by
  simp [hf]

theorem filter_snoc {p : Flight n → Bool} {l : List (Flight n)} (hf : p f = true) :
    (l ++ [f]).filter p = l.filter p ++ [f] := by
  simp [hf]

theorem filter_snoc_skip {p : Flight n → Bool} {l : List (Flight n)} (hf : p f = false) :
    (l ++ [f]).filter p = l.filter p := by
  simp [hf]

theorem onHarvest_type {f : Flight n} {j : Fin 8} :
    f.onHarvest j = true ↔ f.pkt.md.packetType = .harvest j := by
  simp [Flight.onHarvest]

theorem onLane_type {f : Flight n} {i : Fin 4} {w : Fin n} :
    f.onLane i w = true ↔ f.pkt.md.packetType = .consume i ∧ f.tag.worker = w := by
  simp [Flight.onLane]

theorem onHarvest_of_type (hType : f.pkt.md.packetType = .harvest j') (j : Fin 8) :
    f.onHarvest j = decide (j' = j) := by
  simp [Flight.onHarvest, hType]

theorem onHarvest_of_consume {i : Fin 4} (hType : f.pkt.md.packetType = .consume i) (j : Fin 8) :
    f.onHarvest j = false := by
  simp [Flight.onHarvest, hType]

theorem onLane_of_harvest {j : Fin 8} (hType : f.pkt.md.packetType = .harvest j) (i : Fin 4)
    (w : Fin n) : f.onLane i w = false := by
  simp [Flight.onLane, hType]

/-- A packet on a lane is not in the harvest. -/
theorem harvestQueue_skip {i : Fin 4} (hType : f.pkt.md.packetType = .consume i) :
    harvestQueue (pre ++ f :: post) = harvestQueue (pre ++ post) := by
  unfold harvestQueue
  exact List.flatMap_congr fun j _ => filter_skip (onHarvest_of_consume hType j)

theorem harvestQueue_snoc_consume {l : List (Flight n)} {i : Fin 4}
    (hType : f.pkt.md.packetType = .consume i) : harvestQueue (l ++ [f]) = harvestQueue l := by
  have hSkip : harvestQueue (l ++ f :: []) = harvestQueue (l ++ []) := harvestQueue_skip hType
  rwa [List.append_nil] at hSkip

/-- The harvest passes around pass `j`. -/
theorem harvestOrder_split {j : Fin 8} (hj : j ≠ 0) (hj' : j ≠ 7) :
    ∃ xs ys, harvestOrder = xs ++ (j + 1) :: j :: ys ∧
      (∀ c ∈ xs ++ ys, c ≠ j ∧ c ≠ j + 1) := by
  match j, hj, hj' with
  | 1, _, _ => exact ⟨[7, 6, 5, 4, 3], [], rfl, by decide⟩
  | 2, _, _ => exact ⟨[7, 6, 5, 4], [1], rfl, by decide⟩
  | 3, _, _ => exact ⟨[7, 6, 5], [2, 1], rfl, by decide⟩
  | 4, _, _ => exact ⟨[7, 6], [3, 2, 1], rfl, by decide⟩
  | 5, _, _ => exact ⟨[7], [4, 3, 2, 1], rfl, by decide⟩
  | 6, _, _ => exact ⟨[], [5, 4, 3, 2, 1], rfl, by decide⟩
  | 7, _, h => exact absurd rfl h

/-- From one harvest pass to the next, a packet keeps its place in the queue. -/
theorem harvestQueue_shift {f' : Flight n} {j : Fin 8} (hj : j ≠ 0) (hj' : j ≠ 7)
    (hType : f.pkt.md.packetType = .harvest j) (hType' : f'.pkt.md.packetType = .harvest (j + 1))
    (hPre : ∀ g ∈ pre, g.onHarvest j = false) (hReply : f'.reply = f.reply) :
    (harvestQueue (pre ++ post ++ [f'])).map Flight.reply =
      (harvestQueue (pre ++ f :: post)).map Flight.reply := by
  obtain ⟨xs, ys, hOrder, hOther⟩ := harvestOrder_split hj hj'
  have hNe : j + 1 ≠ j := by
    intro h
    have := congrArg Fin.val h
    rw [Fin.val_add_one_of_lt' (by omega)] at this
    omega
  have hRest : ∀ c ∈ xs ++ ys, (pre ++ post ++ [f']).filter (Flight.onHarvest c) =
      (pre ++ f :: post).filter (Flight.onHarvest c) := by
    intro c hc
    obtain ⟨h1, h2⟩ := hOther c hc
    exact (filter_snoc_skip (by simp [onHarvest_of_type hType', h2.symm])).trans
      (filter_skip (by simp [onHarvest_of_type hType, h1.symm])).symm
  have hHere : (pre ++ f :: post).filter (Flight.onHarvest j) =
      f :: (pre ++ post).filter (Flight.onHarvest j) :=
    filter_head (by simp [onHarvest_of_type hType]) hPre
  have hHere' : (pre ++ post ++ [f']).filter (Flight.onHarvest j) =
      (pre ++ post).filter (Flight.onHarvest j) :=
    filter_snoc_skip (by simp [onHarvest_of_type hType', hNe])
  have hNext : (pre ++ f :: post).filter (Flight.onHarvest (j + 1)) =
      (pre ++ post).filter (Flight.onHarvest (j + 1)) :=
    filter_skip (by simp [onHarvest_of_type hType, hNe.symm])
  have hNext' : (pre ++ post ++ [f']).filter (Flight.onHarvest (j + 1)) =
      (pre ++ post).filter (Flight.onHarvest (j + 1)) ++ [f'] :=
    filter_snoc (by simp [onHarvest_of_type hType'])
  unfold harvestQueue
  simp only [hOrder, List.flatMap_append, List.flatMap_cons]
  rw [hHere, hHere', hNext, hNext',
    List.flatMap_congr fun c hc => hRest c (List.mem_append_left _ hc),
    List.flatMap_congr fun c hc => hRest c (List.mem_append_right _ hc)]
  simp [hReply]

/-- The packet that makes the last harvest pass is the first of the queue. -/
theorem harvestQueue_head (hType : f.pkt.md.packetType = .harvest 7)
    (hPre : ∀ g ∈ pre, g.onHarvest 7 = false) :
    harvestQueue (pre ++ f :: post) = f :: harvestQueue (pre ++ post) := by
  have hRest : ∀ c ∈ [6, 5, 4, 3, 2, 1], (pre ++ f :: post).filter (Flight.onHarvest c) =
      (pre ++ post).filter (Flight.onHarvest c) := by
    intro c hc
    refine filter_skip ?_
    rw [onHarvest_of_type hType]
    simp only [List.mem_cons, List.not_mem_nil, or_false] at hc
    rcases hc with rfl | rfl | rfl | rfl | rfl | rfl <;> rfl
  unfold harvestQueue
  rw [show harvestOrder = 7 :: [6, 5, 4, 3, 2, 1] from rfl, List.flatMap_cons,
    filter_head (by simp [onHarvest_of_type hType]) hPre, List.flatMap_congr hRest]
  simp only [List.flatMap_cons, List.cons_append]

end Queues

-- ---------------------------------------------------------------------------
-- The relation
-- ---------------------------------------------------------------------------

/-- The sets a run uses. -/
def Discipline.uses (d : Discipline) (job : Job) (σ : Bool) : Prop :=
  d.advances = true ∨ σ = job.firstSet

/-- What the flags of a packet on a port say. -/
structure FlagsOk (job : Job) (log : List (Event job.n)) (f : Flight job.n) : Prop where
  -- a duplicate has come past the first of several pipes because the slot was full there
  lane : ∀ i, f.pkt.md.packetType = .consume i → f.dup = true → f.pkt.md.firstFlag = true
  harvest : ∀ j, f.pkt.md.packetType = .harvest j → f.dup = false → f.pkt.md.lastFlag = true
  new : f.dup = false → firstProcessed log f.tag.worker f.tag.chunk = some f.tag.sent
  payload : ∀ j, f.pkt.md.packetType = .harvest j → f.reply.1 = .all →
    f.pkt.payload = (aggregate job log f.tag.chunk).drop (8 - j.val)

/-- A broadcast comes when all workers are in, in all pipes, and carries the aggregate. -/
def BroadcastOk (job : Job) (log : List (Event job.n)) (e : Event job.n) : Prop :=
  ∀ pkt, e.broadcast? = some pkt →
    (∀ i : Fin 4, i.val < job.pipes → ∀ w, consumed log i w e.tag.chunk = true) ∧
    pkt.payload = aggregate job log e.tag.chunk

/-- A state of the slot machine and the state of the protocol it stands for. -/
structure Rel (job : Job) (d : Discipline) (s : SlotState job.n)
    (a : Staged.State (Fin job.n)) : Prop where
  pos : a.pos = s.pos
  up : ∀ w, a.up w = (s.uplink w).map Prod.fst
  lane : ∀ (i : Fin 4) w, i ≠ 0 →
    a.lane i w = (s.recirc.filter (Flight.onLane i w)).map Flight.item
  harvest : a.harvest = (harvestQueue s.recirc).map Flight.reply
  down : ∀ w, a.down w = (s.downlink w).map Prod.fst
  casts : a.casts = s.log.filterMap Event.castChunk
  regs : ∀ i : Fin 4, i.val < job.pipes →
    Represents job (d.uses job) (s.regs i) (a.count i) (pipeSlices s.log i)
  consumed : ∀ i : Fin 4, i.val < job.pipes → ∀ w k,
    consumed s.log i w k = true ↔ k < a.count i w
  flags : ∀ f ∈ s.recirc, FlagsOk job s.log f
  broadcasts : Along (BroadcastOk job) s.log

/-- The relation with what is invariant on both sides. -/
structure Sim (job : Job) (d : Discipline) (s : SlotState job.n)
    (a : Staged.State (Fin job.n)) : Prop where
  rel : Rel job d s a
  wellFormed : WellFormed job s
  inv : Staged.Inv job.pipes a
  single : d.resends = false → Staged.Single job.pipes a
  -- a worker that may send has nothing on the way
  turn : d.resends = false → ∀ w, s.sent w = false → a.up w = [] ∧ a.count 0 w = a.pos w
  idle : d.advances = false → ∀ w, a.pos w = 0

section Moves

variable {job : Job} {d : Discipline} {s : SlotState job.n} {a : Staged.State (Fin job.n)}

theorem Job.pipes_pos (job : Job) : 0 < job.pipes := by
  unfold Job.pipes
  split <;> omega

theorem Job.pipes_le (job : Job) : job.pipes ≤ 4 := by
  unfold Job.pipes
  split <;> omega

-- ---------------------------------------------------------------------------
-- Moves without a pass
-- ---------------------------------------------------------------------------

theorem Rel.stay (h : Rel job d s a) {regs : Fin 4 → Registers}
    (hRegs : ∀ i, SameSlot job.slot (s.regs i) (regs i)) : Rel job d { s with regs } a :=
  { h with regs := fun i hi => (h.regs i hi).congr (hRegs i) }

theorem map_update {α β : Type} {n : ℕ} (g : α → β) (f : Fin n → List α) (w : Fin n) (l : List α)
    (w' : Fin n) :
    (Function.update f w l w').map g =
      Function.update (fun w => (f w).map g) w (l.map g) w' := by
  by_cases hw : w' = w
  · subst hw
    simp
  · simp [hw]

theorem Rel.setUp (h : Rel job d s a) (w : Fin job.n) (l : List (ℕ × RocePacket)) :
    Rel job d { s with uplink := Function.update s.uplink w l }
      (Staged.setUp a w (l.map Prod.fst)) := by
  refine { h with up := fun w' => ?_ }
  show Function.update a.up w (l.map Prod.fst) w' = (Function.update s.uplink w l w').map Prod.fst
  rw [map_update, funext h.up]

theorem Rel.setDown (h : Rel job d s a) (w : Fin job.n) (l : List (ℕ × Packet)) :
    Rel job d { s with downlink := Function.update s.downlink w l }
      (Staged.setDown a w (l.map Prod.fst)) := by
  refine { h with down := fun w' => ?_ }
  show Function.update a.down w (l.map Prod.fst) w' =
    (Function.update s.downlink w l w').map Prod.fst
  rw [map_update, funext h.down]

/-- A worker sends. -/
theorem Sim.send (h : Sim job d s a) {w : Fin job.n} {rp : RocePacket}
    (hFree : s.sent w = false ∨ d.resends = true)
    (hWf : WellFormed job
      { s with
        uplink := Function.update s.uplink w (s.uplink w ++ [(s.pos w, rp)])
        sent := Function.update s.sent w true }) :
    Sim job d
      { s with
        uplink := Function.update s.uplink w (s.uplink w ++ [(s.pos w, rp)])
        sent := Function.update s.sent w true }
      (Staged.setUp a w (a.up w ++ [a.pos w])) := by
  have hStep : Staged.Step job.pipes (!d.resends) a (Staged.setUp a w (a.up w ++ [a.pos w])) := by
    refine .send w fun hSingle => h.turn (by simpa using hSingle) w ?_
    rcases hFree with hFree | hFree
    · exact hFree
    · simp [hFree] at hSingle
  refine ⟨?_, hWf, h.inv.step job.pipes_pos hStep, fun hOnce => ?_, fun hOnce w' hw' => ?_, h.idle⟩
  · have hRel := h.rel.setUp w (s.uplink w ++ [(s.pos w, rp)])
    have hList : (s.uplink w ++ [(s.pos w, rp)]).map Prod.fst = a.up w ++ [a.pos w] := by
      rw [List.map_append, ← h.rel.up w, h.rel.pos]
      rfl
    rw [hList] at hRel
    exact { hRel with }
  · rw [hOnce] at hStep
    exact (h.single hOnce).step h.inv job.pipes_pos hStep
  · have hNe : w' ≠ w := by
      rintro rfl
      simp at hw'
    have hTurn := h.turn hOnce w' (by simpa [hNe] using hw')
    simpa [Staged.setUp, hNe] using hTurn

theorem Sim.loseUp (h : Sim job d s a) {w : Fin job.n} {l : List (ℕ × RocePacket)}
    (hl : l.Sublist (s.uplink w)) {regs : Fin 4 → Registers}
    (hRegs : ∀ i, SameSlot job.slot (s.regs i) (regs i))
    (hWf : WellFormed job { s with uplink := Function.update s.uplink w l, regs }) :
    Sim job d { s with uplink := Function.update s.uplink w l, regs }
      (Staged.setUp a w (l.map Prod.fst)) := by
  have hSub : (l.map Prod.fst).Sublist (a.up w) := by
    rw [h.rel.up w]
    exact hl.map _
  have hStep : Staged.Step job.pipes (!d.resends) a (Staged.setUp a w (l.map Prod.fst)) :=
    .loseUp w hSub
  refine ⟨(h.rel.setUp w l).stay hRegs, hWf, h.inv.step job.pipes_pos hStep, fun hOnce => ?_,
    fun hOnce w' hw' => ?_, h.idle⟩
  · rw [hOnce] at hStep
    exact (h.single hOnce).step h.inv job.pipes_pos hStep
  · obtain ⟨hUp, hCount⟩ := h.turn hOnce w' hw'
    refine ⟨?_, hCount⟩
    by_cases hw : w' = w
    · subst hw
      rw [hUp, List.sublist_nil] at hSub
      simpa [Staged.setUp] using hSub
    · simpa [Staged.setUp, hw] using hUp

theorem Sim.loseDown (h : Sim job d s a) {w : Fin job.n} {l : List (ℕ × Packet)}
    (hl : l.Sublist (s.downlink w))
    (hWf : WellFormed job { s with downlink := Function.update s.downlink w l }) :
    Sim job d { s with downlink := Function.update s.downlink w l }
      (Staged.setDown a w (l.map Prod.fst)) := by
  have hSub : (l.map Prod.fst).Sublist (a.down w) := by
    rw [h.rel.down w]
    exact hl.map _
  have hStep : Staged.Step job.pipes (!d.resends) a (Staged.setDown a w (l.map Prod.fst)) :=
    .loseDown w hSub
  refine ⟨h.rel.setDown w l, hWf, h.inv.step job.pipes_pos hStep, fun hOnce => ?_, h.turn, h.idle⟩
  rw [hOnce] at hStep
  exact (h.single hOnce).step h.inv job.pipes_pos hStep

/-- The reply that a worker waits for is the one for its current chunk. -/
theorem Sim.reply_head (h : Sim job d s a) {w : Fin job.n} {k : ℕ} {pkt : Packet}
    {rest : List (ℕ × Packet)} (hDown : s.downlink w = (k, pkt) :: rest)
    (hPool : pkt.md.poolIndex = job.pool (s.pos w)) :
    a.down w = a.pos w :: rest.map Prod.fst := by
  have hHead : a.down w = k :: rest.map Prod.fst := by
    rw [h.rel.down w, hDown]
    rfl
  have hParity : k % 2 = a.pos w % 2 := by
    have hPkt := h.wellFormed.downlink w (k, pkt) (by rw [hDown]; exact List.mem_cons_self)
    rw [h.rel.pos]
    exact job.pool_eq_iff.mp (hPkt.symm.trans hPool)
  obtain rfl := h.inv.reply_current job.pipes_pos hHead hParity
  exact hHead

/-- It comes only when the worker has sent the chunk. -/
theorem Sim.sent_of_reply (h : Sim job d s a) (hOnce : d.resends = false) {w : Fin job.n} {k : ℕ}
    {pkt : Packet} {rest : List (ℕ × Packet)} (hDown : s.downlink w = (k, pkt) :: rest)
    (hPool : pkt.md.poolIndex = job.pool (s.pos w)) : s.sent w = true := by
  have hHead := h.reply_head hDown hPool
  obtain ⟨-, hCount⟩ := (h.single hOnce).after_reply h.inv job.pipes_pos hHead
  by_contra hNot
  obtain ⟨-, hTurn⟩ := h.turn hOnce w (Bool.not_eq_true _ ▸ hNot)
  omega

/-- A worker takes a reply for its current chunk. -/
theorem Sim.advance (h : Sim job d s a) {w : Fin job.n} {k : ℕ} {pkt : Packet}
    {rest : List (ℕ × Packet)} (hDown : s.downlink w = (k, pkt) :: rest)
    (hAdv : d.advances = true) (hPool : pkt.md.poolIndex = job.pool (s.pos w))
    (hWf : WellFormed job
      { s with
        downlink := Function.update s.downlink w rest
        pos := Function.update s.pos w (s.pos w + 1)
        sent := Function.update s.sent w false }) :
    ∃ a', Sim job d
      { s with
        downlink := Function.update s.downlink w rest
        pos := Function.update s.pos w (s.pos w + 1)
        sent := Function.update s.sent w false } a' := by
  have hHead := h.reply_head hDown hPool
  have hStep : Staged.Step job.pipes (!d.resends) a _ := .advance w hHead rfl
  refine ⟨_, ?_, hWf, h.inv.step job.pipes_pos hStep, fun hOnce => ?_, fun hOnce w' hw' => ?_,
    fun hOff => ?_⟩
  · exact { h.rel.setDown w rest with
      pos := by
        show Function.update a.pos w (a.pos w + 1) = Function.update s.pos w (s.pos w + 1)
        rw [h.rel.pos] }
  · rw [hOnce] at hStep
    exact (h.single hOnce).step h.inv job.pipes_pos hStep
  · by_cases hw : w' = w
    · subst hw
      obtain ⟨hUp, hCount⟩ := (h.single hOnce).after_reply h.inv job.pipes_pos hHead
      exact ⟨hUp, by simpa [Staged.setDown] using hCount⟩
    · have hTurn := h.turn hOnce w' (by simpa [hw] using hw')
      simpa [Staged.setDown, hw] using hTurn
  · rw [hAdv] at hOff
    exact absurd hOff (by simp)

-- ---------------------------------------------------------------------------
-- Consume passes
-- ---------------------------------------------------------------------------

theorem FlagsOk.append {log : List (Event job.n)} {f : Flight job.n} (h : FlagsOk job log f)
    (hAll : ∀ j, f.onHarvest j = true → f.reply.1 = .all →
      ∀ w, consumed log 0 w f.tag.chunk = true)
    (log' : List (Event job.n)) : FlagsOk job (log ++ log') f where
  lane := h.lane
  harvest := h.harvest
  new hDup := firstProcessed_eq_some_append (h.new hDup) log'
  payload j hType hReply := by
    rw [aggregate_append (hAll j (onHarvest_type.mpr hType) hReply)]
    exact h.payload j hType hReply

/-- The state of the protocol after a stage has looked at a packet. -/
def looked (a : Staged.State (Fin job.n)) (new : Bool) (i : ℕ) (w : Fin job.n) :
    Staged.State (Fin job.n) := if new then Staged.bump a i w else a

theorem looked_count (a : Staged.State (Fin job.n)) (new : Bool) (i : ℕ) (w : Fin job.n)
    (i' : ℕ) (w' : Fin job.n) :
    (looked a new i w).count i' w' =
      if new = true ∧ i' = i ∧ w' = w then a.count i' w' + 1 else a.count i' w' := by
  cases new
  · simp [looked]
  · simp [looked, Staged.bump]

theorem looked_same (a : Staged.State (Fin job.n)) (new : Bool) (i : ℕ) (w : Fin job.n) :
    (looked a new i w).pos = a.pos ∧ (looked a new i w).up = a.up ∧
    (looked a new i w).lane = a.lane ∧ (looked a new i w).harvest = a.harvest ∧
    (looked a new i w).down = a.down ∧ (looked a new i w).casts = a.casts := by
  cases new <;> exact ⟨rfl, rfl, rfl, rfl, rfl, rfl⟩

/-- A consume pass changes the registers, the counts and the log. -/
theorem Rel.take (h : Rel job d s a) {i : Fin 4} {after : Registers} (e : Event job.n)
    (new : Bool)
    (hAnti : ∀ i : Fin 4, i.val < job.pipes → ∀ w, a.count i w ≤ a.count 0 w)
    (hAll : ∀ f ∈ s.recirc, ∀ j, f.onHarvest j = true → f.reply.1 = .all →
      ∀ w, f.tag.chunk < a.count 0 w)
    (hTy : e.ty = .consume i) (hCast : e.broadcast? = none)
    (hCount : (looked a new i e.tag.worker).count i e.tag.worker = e.tag.chunk + 1)
    (hRegs : Represents job (d.uses job) after ((looked a new i e.tag.worker).count i)
      (pipeSlices (s.log ++ [e]) i)) :
    Rel job d { s with regs := Function.update s.regs i after, log := s.log ++ [e] }
      (looked a new i e.tag.worker) := by
  have hZero : (0 : Fin 4).val < job.pipes := job.pipes_pos
  have hLooked := looked_count a new i e.tag.worker
  obtain ⟨hPos, hUp, hLane, hHarvest, hDown, hCasts⟩ := looked_same a new i e.tag.worker
  generalize looked a new i e.tag.worker = b at *
  refine ⟨hPos.trans h.pos, fun w => by rw [hUp]; exact h.up w,
    fun i w hi => by rw [hLane]; exact h.lane i w hi, hHarvest.trans h.harvest,
    fun w => by rw [hDown]; exact h.down w, ?_, fun i' hi' => ?_, fun i' hi' w k => ?_,
    fun f hf => ?_, ?_⟩
  · rw [hCasts, h.casts]
    simp [Event.castChunk, hCast]
  · by_cases hi : i' = i
    · subst hi
      simpa using hRegs
    · have hCounts : b.count i' = a.count i' := by
        funext w'
        rw [hLooked, if_neg]
        exact fun hEq => hi (Fin.ext hEq.2.1)
      simp only [Function.update_of_ne hi, hCounts]
      refine (h.regs i' hi').congr_data fun w k hk => pipeSlices_append ?_ _ _
      exact (h.consumed 0 hZero w k).mpr (Nat.lt_of_lt_of_le hk (hAnti i' hi' w))
  · rw [consumed_append, Bool.or_eq_true, h.consumed i' hi', consumed_singleton]
    simp only [Event.isConsume, hTy, Bool.and_eq_true, decide_eq_true_eq, PacketType.consume.injEq]
    by_cases hHere : i' = i ∧ w = e.tag.worker
    · obtain ⟨rfl, rfl⟩ := hHere
      have hOld : a.count i' e.tag.worker = e.tag.chunk ∨
          a.count i' e.tag.worker = e.tag.chunk + 1 := by
        rw [hLooked] at hCount
        split at hCount <;> omega
      rw [hCount]
      simp
      omega
    · rw [hLooked, if_neg (fun hEq => hHere ⟨Fin.ext hEq.2.1, hEq.2.2⟩)]
      constructor
      · rintro (hk | ⟨⟨rfl, rfl⟩, -⟩)
        · exact hk
        · exact absurd ⟨rfl, rfl⟩ hHere
      · exact Or.inl
  · exact (h.flags f hf).append
      (fun j hOn hReply w => (h.consumed 0 hZero w _).mpr (hAll f hf j hOn hReply w)) _
  · exact .snoc h.broadcasts fun pkt hPkt => by
      rw [hCast] at hPkt
      exact absurd hPkt (by simp)

-- ---------------------------------------------------------------------------
-- Packets that come to a port
-- ---------------------------------------------------------------------------

/-- A packet goes to the lane of the next pipe. -/
theorem Rel.pushLane (h : Rel job d s a) {f : Flight job.n} {i : Fin 4} (hi : i ≠ 0)
    (hType : f.pkt.md.packetType = .consume i) (hFlags : FlagsOk job s.log f) :
    Rel job d { s with recirc := s.recirc ++ [f] }
      (Staged.forward a i f.tag.worker f.item) := by
  refine { h with lane := fun i' w hi' => ?_, harvest := ?_, flags := fun g hg => ?_ }
  · by_cases hHere : i' = i ∧ w = f.tag.worker
    · obtain ⟨rfl, rfl⟩ := hHere
      rw [filter_snoc (onLane_type.mpr ⟨hType, rfl⟩), List.map_append, ← h.lane i' _ hi']
      simp [Staged.forward, Staged.setLane]
    · have hSkip : f.onLane i' w = false := by
        rw [Bool.eq_false_iff, Ne, onLane_type, hType]
        rintro ⟨hEq, rfl⟩
        exact hHere ⟨(PacketType.consume.inj hEq).symm, rfl⟩
      rw [filter_snoc_skip hSkip, ← h.lane i' w hi']
      simp only [Staged.forward, Staged.setLane]
      rw [if_neg]
      exact fun hEq => hHere ⟨Fin.ext hEq.1, hEq.2⟩
  · show a.harvest = (harvestQueue (s.recirc ++ [f])).map Flight.reply
    rw [harvestQueue_snoc_consume hType, h.harvest]
  · rcases List.mem_append.mp hg with hg | hg
    · exact h.flags g hg
    · rw [List.mem_singleton.mp hg]
      exact hFlags

/-- The queue of the harvest grows at its first pass. -/
theorem harvestQueue_snoc {l : List (Flight job.n)} {f : Flight job.n}
    (hl : ∀ g ∈ l, FlightOk job g) (hType : f.pkt.md.packetType = .harvest job.firstHarvest) :
    harvestQueue (l ++ [f]) = harvestQueue l ++ [f] := by
  -- nothing waits for an earlier pass than the first
  have hEarlier : ∀ j : Fin 8, j < job.firstHarvest → l.filter (Flight.onHarvest j) = [] := by
    intro j hj
    refine List.filter_eq_nil_iff.mpr fun g hg hOn => ?_
    rcases (hl g hg).route with ⟨i, -, -, hConsume, -⟩ | ⟨j', hLe, hHarvest, -⟩
    · rw [onHarvest_of_consume hConsume] at hOn
      exact absurd hOn (by simp)
    · rw [onHarvest_of_type hHarvest, decide_eq_true_eq] at hOn
      subst hOn
      exact absurd hj (not_lt.mpr hLe)
  have hOther : ∀ j : Fin 8, j ≠ job.firstHarvest →
      (l ++ [f]).filter (Flight.onHarvest j) = l.filter (Flight.onHarvest j) :=
    fun j hj => filter_snoc_skip (by simp [onHarvest_of_type hType, hj.symm])
  have hHere : (l ++ [f]).filter (Flight.onHarvest job.firstHarvest) =
      l.filter (Flight.onHarvest job.firstHarvest) ++ [f] :=
    filter_snoc (by simp [onHarvest_of_type hType])
  unfold harvestQueue harvestOrder
  unfold Job.firstHarvest at hHere hOther hEarlier
  cases hLarge : job.large with
  | true =>
    simp only [hLarge, if_true] at hHere hOther
    simp only [List.flatMap_cons, List.flatMap_nil, List.append_nil, List.append_assoc, hHere,
      hOther 7 (by decide), hOther 6 (by decide), hOther 5 (by decide), hOther 4 (by decide),
      hOther 3 (by decide), hOther 2 (by decide)]
  | false =>
    simp only [hLarge, Bool.false_eq_true, if_false] at hHere hOther hEarlier
    simp only [List.flatMap_cons, List.flatMap_nil, List.append_nil, hHere,
      hOther 6 (by decide), hOther 5 (by decide), hOther 4 (by decide), hOther 3 (by decide),
      hOther 2 (by decide), hOther 1 (by decide), hEarlier 6 (by decide), hEarlier 5 (by decide),
      hEarlier 4 (by decide), hEarlier 3 (by decide), hEarlier 2 (by decide),
      hEarlier 1 (by decide)]

/-- A packet starts to be harvested. -/
theorem Rel.pushHarvest (h : Rel job d s a) {f : Flight job.n}
    (hFlights : ∀ g ∈ s.recirc, FlightOk job g)
    (hType : f.pkt.md.packetType = .harvest job.firstHarvest) (hFlags : FlagsOk job s.log f) :
    Rel job d { s with recirc := s.recirc ++ [f] } (Staged.enqueue a f.reply.1 f.tag.chunk) := by
  refine { h with lane := fun i w hi => ?_, harvest := ?_, flags := fun g hg => ?_ }
  · rw [filter_snoc_skip (onLane_of_harvest hType i w)]
    exact h.lane i w hi
  · show a.harvest ++ [f.reply] = (harvestQueue (s.recirc ++ [f])).map Flight.reply
    rw [harvestQueue_snoc hFlights hType, List.map_append, h.harvest]
    rfl
  · rcases List.mem_append.mp hg with hg | hg
    · exact h.flags g hg
    · rw [List.mem_singleton.mp hg]
      exact hFlags

end Moves

end SwitchML
