import SwitchML.Protocol.Aggregation

/-!
# SwitchML protocol — retransmitted replies

A duplicate of a chunk that is complete is answered with a reply of its own. Its
packet is not aggregated again, but it goes through the same passes.

* `retransmissions_complete` — with 1024-byte packets, in runs without misreads, the
  slot is full in all four pipes whenever it is read for a retransmission;
  `retransmission_partial` is a run with a misread in which it is not.
-/

namespace SwitchML

open History (Along)

-- ---------------------------------------------------------------------------
-- Packets have numbers
-- ---------------------------------------------------------------------------

/-- The numbers of packets are new when they are given out. -/
structure IdsOk {n : ℕ} (s : SlotState n) : Prop where
  nodup : (s.recirc.map Flight.id).Nodup
  lt : ∀ f ∈ s.recirc, f.id < s.nextId
  logged : ∀ e ∈ s.log, e.id < s.nextId

section IdMoves

variable {job : Job} {d : Discipline} {s s' : SlotState job.n}

theorem IdsOk.emit {s : SlotState job.n} (h : IdsOk s) {id : ℕ} {tag : Tag job.n}
    {ty : PacketType} {out : Emission} (hLt : id < s.nextId)
    (hNew : ∀ f ∈ s.recirc, f.id ≠ id) : IdsOk (s.emit id tag ty out) := by
  refine ⟨?_, fun f hf => ?_, fun e he => ?_⟩
  · rw [SlotState.emit_recirc, List.map_append, List.nodup_append]
    refine ⟨h.nodup, out.flight_nodup id tag, fun x hx y hy => ?_⟩
    obtain ⟨f, hf, rfl⟩ := List.mem_map.mp hx
    obtain ⟨g, hg, rfl⟩ := List.mem_map.mp hy
    rw [(Emission.flight_id _ _ _ hg).1]
    exact hNew f hf
  · rw [SlotState.emit_nextId]
    rw [SlotState.emit_recirc] at hf
    rcases List.mem_append.mp hf with hf | hf
    · exact h.lt f hf
    · rw [(Emission.flight_id _ _ _ hf).1]
      exact hLt
  · rw [SlotState.emit_nextId]
    rw [SlotState.emit_log] at he
    rcases List.mem_append.mp he with he | he
    · exact h.logged e he
    · rw [List.mem_singleton.mp he]
      exact hLt

/-- A packet leaves its port. -/
theorem IdsOk.pop (h : IdsOk s) {pre post : List (Flight job.n)} {f : Flight job.n}
    (hRecirc : s.recirc = pre ++ f :: post) (regs : Fin 4 → Registers) :
    IdsOk { s with recirc := pre ++ post, regs } ∧ (∀ g ∈ pre ++ post, g.id ≠ f.id) ∧
      f.id < s.nextId := by
  have hNodup := h.nodup
  have hLt := h.lt
  rw [hRecirc] at hNodup hLt
  rw [List.map_append, List.map_cons, List.nodup_middle, List.nodup_cons, ← List.map_append]
    at hNodup
  refine ⟨⟨hNodup.2, fun g hg => hLt g ?_, h.logged⟩, fun g hg hEq => ?_, hLt f (by simp)⟩
  · rcases List.mem_append.mp hg with hg | hg <;> simp [hg]
  · exact hNodup.1 (hEq ▸ List.mem_map_of_mem hg)

theorem IdsOk.move (h : IdsOk s) (hMove : SlotMove job d s s') : IdsOk s' := by
  cases hMove with
  | stay | send | loseUp | loseDown | advance => exact ⟨h.nodup, h.lt, h.logged⟩
  | @arrive w k rp rest st regs after out hUp hPass hExp hFlags =>
    have hNext : IdsOk { s with
        uplink := Function.update s.uplink w rest
        regs := Function.update s.regs 0 after
        nextId := s.nextId + 1 } :=
      ⟨h.nodup, fun f hf => Nat.lt_succ_of_lt (h.lt f hf),
        fun e he => Nat.lt_succ_of_lt (h.logged e he)⟩
    exact hNext.emit (Nat.lt_succ_self _) fun f hf => Nat.ne_of_lt (h.lt f hf)
  | consume i hi hRecirc =>
    obtain ⟨hPop, hNe, hLt⟩ := h.pop hRecirc _
    exact hPop.emit hLt hNe
  | harvest j hj hRecirc =>
    obtain ⟨hPop, hNe, hLt⟩ := h.pop hRecirc _
    exact hPop.emit hLt hNe

end IdMoves

-- ---------------------------------------------------------------------------
-- Full when read
-- ---------------------------------------------------------------------------

/-- The passes that read the slot for a reply of 1024 bytes. -/
def PacketType.readsSlot : PacketType → Bool
  | .consume i => decide (i = 3)
  | .harvest _ => true
  | _ => false

/-- Whenever packet `id` read the slot for a reply, all workers' packets of chunk `k` had
been consumed in all four pipes. -/
def FullWhenRead {n : ℕ} (log : List (Event n)) (id k : ℕ) : Prop :=
  Along (fun pre e => e.id = id → e.ty.readsSlot = true → ∀ i w, consumed pre i w k = true) log

/-- All retransmissions of a run are read from a slot that is full. -/
def RetransmissionsComplete {n : ℕ} (log : List (Event n)) : Prop :=
  ∀ e ∈ log, e.retransmit?.isSome = true → FullWhenRead log e.id e.tag.chunk

/-- What the packets on the ports and the retransmissions so far have read. -/
structure Reads {n : ℕ} (s : SlotState n) : Prop where
  lane : ∀ f ∈ s.recirc, ∀ i, f.pkt.md.packetType = .consume i →
    ∀ e ∈ s.log, e.id = f.id → e.ty.readsSlot = false
  harvest : ∀ f ∈ s.recirc, ∀ j, f.onHarvest j = true → f.reply.1 = .one f.tag.worker →
    FullWhenRead s.log f.id f.tag.chunk
  replied : ∀ e ∈ s.log, e.retransmit?.isSome = true →
    FullWhenRead s.log e.id e.tag.chunk ∧ ∀ f ∈ s.recirc, f.id ≠ e.id

section Reads

variable {job : Job} {d : Discipline} {s s' : SlotState job.n} {a : Staged.State (Fin job.n)}
  {id k : ℕ} {e : Event job.n}

theorem FullWhenRead.other {log : List (Event job.n)} (h : FullWhenRead log id k)
    (he : e.id ≠ id) : FullWhenRead (log ++ [e]) id k :=
  .snoc h fun hEq => absurd hEq he

theorem FullWhenRead.of_not_read {log : List (Event job.n)}
    (h : ∀ e ∈ log, e.id = id → e.ty.readsSlot = false) : FullWhenRead log id k := by
  induction log using List.reverseRecOn with
  | nil => exact .nil
  | append_singleton log e ih =>
    refine .snoc (ih fun e he => h e (by simp [he])) fun hEq hRead => ?_
    rw [h e (by simp) hEq] at hRead
    exact absurd hRead (by simp)

/-- A pass, seen by what the packets have read. -/
theorem Reads.pass (h : Reads s) {s₁ : SlotState job.n} {tag : Tag job.n} {ty : PacketType}
    {out : Emission} (hLog : s₁.log = s.log)
    (hRest : ∀ g ∈ s₁.recirc, g ∈ s.recirc ∧ g.id ≠ id)
    (hNew : ∀ e ∈ s.log, e.retransmit?.isSome = true → e.id ≠ id)
    (hLane : ∀ f ∈ out.flight id tag, ∀ i, f.pkt.md.packetType = .consume i →
      ty.readsSlot = false ∧ ∀ e ∈ s.log, e.id = id → e.ty.readsSlot = false)
    (hHarvest : ∀ f ∈ out.flight id tag, ∀ j, f.onHarvest j = true →
      f.reply.1 = .one tag.worker → FullWhenRead (s.log ++ [⟨id, tag, ty, out⟩]) id tag.chunk)
    (hReply : ∀ port pkt, out = .unicast port pkt →
      FullWhenRead (s.log ++ [⟨id, tag, ty, out⟩]) id tag.chunk) :
    Reads (s₁.emit id tag ty out) := by
  have hFlight : ∀ f, f ∈ out.flight id tag → f.id = id ∧ f.tag = tag := fun f hf =>
    ⟨(Emission.flight_id _ _ _ hf).1, (Emission.flight_id _ _ _ hf).2.1⟩
  refine ⟨fun f hf i hType e he hEq => ?_, fun f hf j hOn hOne => ?_, fun e he hSome => ?_⟩
  all_goals rw [SlotState.emit_log, hLog] at *
  · rw [SlotState.emit_recirc] at hf
    rcases List.mem_append.mp hf with hf | hf
    · obtain ⟨hMem, hNe⟩ := hRest f hf
      rcases List.mem_append.mp he with he | he
      · exact h.lane f hMem i hType e he hEq
      · rw [List.mem_singleton.mp he] at hEq
        exact absurd hEq.symm hNe
    · obtain ⟨hTy, hOld⟩ := hLane f hf i hType
      rw [(hFlight f hf).1] at hEq
      rcases List.mem_append.mp he with he | he
      · exact hOld e he hEq
      · rw [List.mem_singleton.mp he]
        exact hTy
  · rw [SlotState.emit_recirc] at hf
    rcases List.mem_append.mp hf with hf | hf
    · obtain ⟨hMem, hNe⟩ := hRest f hf
      exact (h.harvest f hMem j hOn hOne).other hNe.symm
    · obtain ⟨hId, hTag⟩ := hFlight f hf
      rw [hTag] at hOne
      rw [hId, hTag]
      exact hHarvest f hf j hOn hOne
  · rw [SlotState.emit_recirc]
    rcases List.mem_append.mp he with he | he
    · obtain ⟨hFull, hGone⟩ := h.replied e he hSome
      have hNe := hNew e he hSome
      refine ⟨hFull.other hNe.symm, fun f hf => ?_⟩
      rcases List.mem_append.mp hf with hf | hf
      · exact hGone f (hRest f hf).1
      · rw [(hFlight f hf).1]
        exact hNe.symm
    · obtain rfl := List.mem_singleton.mp he
      cases out with
      | unicast port pkt =>
        refine ⟨hReply port pkt rfl, fun f hf => ?_⟩
        rcases List.mem_append.mp hf with hf | hf
        · exact (hRest f hf).2
        · exact absurd hf (by simp [Emission.flight])
      | _ => exact absurd hSome (by simp [Event.retransmit?])

/-- A chunk that is complete in the last pipe was consumed in all of them. -/
theorem Sim.consumed_of_complete (h : Sim job d s a) (hLarge : job.large = true)
    (hC : ∀ i < job.pipes, Staged.Complete a i k) (i : Fin 4) (w : Fin job.n) :
    consumed s.log i w k = true := by
  have hi : i.val < job.pipes := by
    rw [Job.pipes, if_pos hLarge]
    exact i.isLt
  exact (h.rel.consumed i hi w k).mpr (hC i hi w)

/-- A duplicate that starts to be harvested has found the slot full in all pipes. -/
theorem Sim.dup_starts (h : Sim job d s a) (hLarge : job.large = true) {f : Flight job.n}
    {st : PassState} {regs after : Registers} {out : Emission} {i : Fin 4} (hi : i ≠ 0)
    (hEnd : i.val + 1 = job.pipes)
    (hLook : Looking job d s a i f.tag st.md (!f.dup))
    (hPass : ConsumePass job (s.regs i) after i f.tag st regs out)
    {g : Flight job.n} (hg : g ∈ out.flight f.id f.tag) (hOne : g.reply.1 = .one f.tag.worker)
    (i' : Fin 4) (w : Fin job.n) : consumed s.log i' w f.tag.chunk = true := by
  obtain ⟨rdmaMd, hOut⟩ := hPass.finishes hEnd
  obtain ⟨hMap, -, hFull⟩ := hLook.finds h.rel hPass
  obtain ⟨-, -, hg⟩ := Emission.flight_id _ _ _ hg
  split at hOut
  · next hOn =>
    rw [hOut] at hg
    have hPkt := (Emission.recirculated.inj hg).2
    have hDup : f.dup = true := by
      have hFlag := (hLook.flags h.rel hPass (.harvest job.firstHarvest)).1
      have hgDup := (Flight.reply_one.mp hOne).1.1
      rw [Flight.dup, ← hPkt, hFlag, Bool.not_not] at hgDup
      exact hgDup
    have hZero : consumeFlag regs st = 0 := by
      rcases hOn with hFlag | hFlag
      · have hMapNe : consumeMap regs st ≠ 0 := by
          rw [Ne, hMap, hDup]
          simp
        have hCount := consumeFlag_dup_one hMapNe hFlag
        rw [hPass.ready.md.poolIndex, hPass.meets.workerCount _ (job.pool_slot _)] at hCount
        exact absurd hCount (hLook.clean hi hEnd (by simp [hDup]))
      · exact hFlag.2
    have hC := (hFull (by simp [hDup])).mp hZero
    rw [show looked a (!f.dup) i f.tag.worker = a by simp [looked, hDup]] at hC
    exact h.consumed_of_complete hLarge (h.inv.complete_of_last hEnd hC) i' w
  · rw [hOut] at hg
    exact absurd hg (by simp)

theorem ConsumePass.not_unicast {before after regs : Registers} {i : Fin 4} {tag : Tag job.n}
    {st : PassState} {out : Emission} (hPass : ConsumePass job before after i tag st regs out)
    (port : PortId) (pkt : Packet) : out ≠ .unicast port pkt := by
  rcases Nat.lt_or_eq_of_le (Nat.succ_le_of_lt hPass.lt) with hNext | hEnd
  · obtain ⟨rdmaMd, hOut⟩ := hPass.forwards hNext
    rw [hOut]
    split <;> simp
  · obtain ⟨rdmaMd, hOut⟩ := hPass.finishes hEnd
    rw [hOut]
    split <;> simp

theorem ConsumePass.flight_type {before after regs : Registers} {i : Fin 4} {tag : Tag job.n}
    {st : PassState} {out : Emission} (hPass : ConsumePass job before after i tag st regs out)
    {f : Flight job.n} (hf : f ∈ out.flight id tag) :
    (i.val + 1 < job.pipes ∧ f.pkt.md.packetType = .consume (i + 1)) ∨
      (i.val + 1 = job.pipes ∧ f.pkt.md.packetType = .harvest job.firstHarvest) := by
  obtain ⟨ty, hMd, -, ⟨hNext, rfl⟩ | ⟨hEnd, rfl, -⟩⟩ := hPass.flight hf
  · exact .inl ⟨hNext, by rw [hMd]; rfl⟩
  · exact .inr ⟨hEnd, by rw [hMd]; rfl⟩

theorem Reads.move (h : Reads s) (hIds : IdsOk s) (hSim : Sim job d s a)
    (hMode : d.fifo = true ∨ d.resends = false) (hLarge : job.large = true)
    (hMove : SlotMove job d s s') : Reads s' := by
  have hPipes : job.pipes = 4 := if_pos hLarge
  cases hMove with
  | stay | send | loseUp | loseDown | advance => exact ⟨h.lane, h.harvest, h.replied⟩
  | @arrive w k rp rest st regs after out hUp hPass hExp hFlags =>
    have hFresh : ∀ e ∈ s.log, e.id ≠ s.nextId := fun e he => Nat.ne_of_lt (hIds.logged e he)
    refine h.pass rfl (fun g hg => ⟨hg, Nat.ne_of_lt (hIds.lt g hg)⟩) (fun e he _ => hFresh e he)
      (fun f hf i hType => ⟨rfl, fun e he hEq => absurd hEq (hFresh e he)⟩)
      (fun f hf j hOn => ?_) (fun port pkt hOut => absurd hOut (hPass.not_unicast port pkt))
    rcases hPass.flight_type hf with ⟨-, hType⟩ | ⟨hEnd, -⟩
    · rw [onHarvest_of_consume hType] at hOn
      exact absurd hOn (by simp)
    · rw [hPipes] at hEnd
      exact absurd hEnd (by decide)
  | @consume i pre post f st regs after out hi hRecirc hFifo hPass hMd hExp hClean =>
    have hMem : f ∈ s.recirc := by rw [hRecirc]; simp
    have hType : f.pkt.md.packetType = .consume i := hMd ▸ hPass.type
    have hOld := h.lane f hMem i hType
    have hLook := hSim.look_lane hMode hi hPass.lt hRecirc hFifo hType hClean
    rw [← hMd] at hLook
    refine h.pass rfl (fun g hg => ⟨?_, (hIds.pop hRecirc s.regs).2.1 g hg⟩)
      (fun e he hSome => ((h.replied e he hSome).2 f hMem).symm) (fun g hg c hConsume => ?_)
      (fun g hg j hOn hOne => ?_) (fun port pkt hOut => absurd hOut (hPass.not_unicast port pkt))
    · rw [hRecirc]
      rcases List.mem_append.mp hg with hg | hg <;> simp [hg]
    · refine ⟨?_, hOld⟩
      rcases hPass.flight_type hg with ⟨hNext, -⟩ | ⟨-, hHarvest⟩
      · rw [hPipes] at hNext
        simp only [PacketType.readsSlot, decide_eq_false_iff_not]
        rintro rfl
        exact absurd hNext (by decide)
      · rw [hConsume] at hHarvest
        exact absurd hHarvest (by simp)
    · refine .snoc (FullWhenRead.of_not_read hOld) fun _ _ => ?_
      rcases hPass.flight_type hg with ⟨-, hConsume⟩ | ⟨hEnd, -⟩
      · rw [onHarvest_of_consume hConsume] at hOn
        exact absurd hOn (by simp)
      · exact hSim.dup_starts hLarge hi hEnd hLook hPass hg hOne
  | @harvest j pre post f after out hj hRecirc hFifo hPass =>
    have hMem : f ∈ s.recirc := by rw [hRecirc]; simp
    have hOn := onHarvest_type.mpr hPass.type
    -- a packet that is answered was read from a full slot, and is so again
    have hFull : f.reply.1 = .one f.tag.worker →
        FullWhenRead (s.log ++ [⟨f.id, f.tag, .harvest j, out⟩]) f.id f.tag.chunk := by
      intro hOne
      refine .snoc (h.harvest f hMem j hOn hOne) fun _ _ => ?_
      exact hSim.consumed_of_complete hLarge (hSim.complete hMem hOn (by simp [hOne])).1
    refine h.pass rfl (fun g hg => ⟨?_, (hIds.pop hRecirc s.regs).2.1 g hg⟩)
      (fun e he hSome => ((h.replied e he hSome).2 f hMem).symm) (fun g hg c hConsume => ?_)
      (fun g hg j' hOn' hOne => ?_) (fun port pkt hOut => ?_)
    · rw [hRecirc]
      rcases List.mem_append.mp hg with hg | hg <;> simp [hg]
    · obtain ⟨pkt, hPkt, hg⟩ := hPass.flight_harvested hg
      rw [hg, hPkt.type] at hConsume
      exact absurd hConsume (by simp)
    · obtain ⟨pkt, hPkt, hg⟩ := hPass.flight_harvested hg
      rw [hg, hPkt.reply] at hOne
      exact hFull hOne
    · refine hFull (Flight.reply_one.mpr ⟨?_, rfl⟩)
      obtain rfl : j = 7 := by
        by_contra hj'
        obtain ⟨pkt', -, hOut'⟩ := hPass.continues hj'
        rw [hOut'] at hOut
        exact absurd hOut (by simp)
      have hEnds := hPass.ends rfl
      split at hEnds
      · obtain ⟨pkt', -, hOut'⟩ := hEnds
        rw [hOut'] at hOut
        exact absurd hOut (by simp)
      · split at hEnds
        · next hOne => exact hOne.symm
        · rw [hEnds] at hOut
          exact absurd hOut (by simp)

end Reads

/-- **No partial retransmissions without misreads.** With 1024-byte packets, in every run
in which no duplicate makes its last consume pass while one worker is missing in pipe 3,
all four pipes have consumed the packets of all workers whenever the slot is read for a
retransmission. -/
theorem retransmissions_complete (job : Job) (hLarge : job.large = true)
    (labels : List (SlotLabel job.n)) (hClean : cleanRun job .unreliable .initial labels = true) :
    RetransmissionsComplete (slotRun job .unreliable .initial labels).log := by
  have hRun := (sim_initial job .unreliable).run_invariant (.inl rfl)
    (P := fun s => IdsOk s ∧ Reads s)
    (fun s a s' hSim hP hMove => ⟨hP.1.move hMove, hP.2.move hP.1 hSim (.inl rfl) hLarge hMove⟩)
    ⟨⟨by simp [SlotState.initial], by simp [SlotState.initial], by simp [SlotState.initial]⟩,
      by constructor <;> simp [SlotState.initial]⟩ hClean
  exact fun e he hSome => (hRun.1.2.replied e he hSome).1

/-- A run with a retransmission after the broadcast. -/
theorem retransmissions_complete_pair :
    let job := Job.plain 2 (by decide) (by decide) true
    let labels : List (SlotLabel 2) :=
      [.send 0 (plainPacket 0 8 100), .arrive 0] ++ List.replicate 3 (.recirculate 0) ++
        [.send 1 (plainPacket 1 8 200), .arrive 1] ++ List.replicate 10 (.recirculate 0) ++
        [.resend 0 (plainPacket 0 8 500), .arrive 0] ++ List.replicate 10 (.recirculate 0)
    let log := (slotRun job .unreliable .initial labels).log
    cleanRun job .unreliable .initial labels = true ∧
    (log.filterMap Event.retransmit?).length = 1 ∧ RetransmissionsComplete log := by
  intro job labels log
  exact ⟨by decide +kernel, by decide +kernel,
    retransmissions_complete job rfl labels (by decide +kernel)⟩

theorem FullWhenRead.at {n : ℕ} {log : List (Event n)} {id k : ℕ} (h : FullWhenRead log id k)
    {m : ℕ} {e : Event n} (hGet : log[m]? = some e) (hId : e.id = id)
    (hRead : e.ty.readsSlot = true) (i : Fin 4) (w : Fin n) :
    consumed (log.take m) i w k = true := by
  obtain ⟨hLt, hEq⟩ := List.getElem?_eq_some_iff.mp hGet
  have hSplit : log = log.take m ++ e :: log.drop (m + 1) := by
    rw [← hEq, ← List.drop_eq_getElem_cons hLt, List.take_append_drop]
  exact h.before hSplit hId hRead i w

/-- **A partial retransmission.** Worker 0's packet has been through all pipes and worker
1's only through pipe 0 when a duplicate of worker 0 overtakes it: it finds the slot full
in pipe 0 and one worker missing in the others, and is answered with sums of which only
the first two slices are complete. -/
theorem retransmission_partial :
    let job := Job.plain 2 (by decide) (by decide) true
    let labels : List (SlotLabel 2) :=
      [.send 0 (plainPacket 0 8 100), .arrive 0] ++ List.replicate 3 (.recirculate 0) ++
        [.send 1 (plainPacket 1 8 200), .arrive 1, .resend 0 (plainPacket 0 8 500), .arrive 0] ++
        List.replicate 10 (.recirculate 1)
    let log := (slotRun job .unreliable .initial labels).log
    ((log.filterMap Event.retransmit?).map fun pkt => pkt.payload.map (· 0)) =
      [[300, 302, 102, 103, 104, 105, 106, 507]] ∧ ¬ RetransmissionsComplete log := by
  intro job labels log
  refine ⟨by decide +kernel, fun h => ?_⟩
  -- event 8 is the duplicate's `CONSUME3`, event 15 the retransmission
  have hReply : (log[15]?.map fun e => (e.retransmit?.isSome, e.id, e.tag.chunk)) =
      some (true, 2, 0) := by decide +kernel
  have hRead : (log[8]?.map fun e => (e.id, e.ty.readsSlot)) = some (2, true) := by
    decide +kernel
  obtain ⟨e, he, hEq⟩ := Option.map_eq_some_iff.mp hReply
  obtain ⟨e', he', hEq'⟩ := Option.map_eq_some_iff.mp hRead
  simp only [Prod.mk.injEq] at hEq hEq'
  have hFull := (h e (List.mem_of_getElem? he) hEq.1).at he' (by rw [hEq'.1, hEq.2.1]) hEq'.2
    3 (1 : Fin 2)
  rw [hEq.2.2] at hFull
  have hMissing : consumed (log.take 8) 3 (1 : Fin 2) 0 = false := by decide +kernel
  rw [hMissing] at hFull
  exact absurd hFull (by simp)

end SwitchML
