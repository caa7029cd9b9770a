import SwitchML.Protocol.Aggregation

/-!
# SwitchML protocol — runs in which nothing is sent twice

If every chunk is sent once, every packet in the switch is new in every pipe. What is
left of the moves is `OnceMove`: a consume pass of a new packet, a harvest pass, or
nothing that the passes can tell.

* `pipeOrder` — the order in which a pipe consumes the workers' packets of a chunk;
* `NewPass.finds` — what a consume pass finds, in terms of that order;
* `Sim.once_invariant` — the induction over runs.
-/

namespace SwitchML

variable {job : Job} {d : Discipline} {s s' : SlotState job.n} {a : Staged.State (Fin job.n)}

-- ---------------------------------------------------------------------------
-- Moves
-- ---------------------------------------------------------------------------

/-- No packet in the switch was seen before in some pipe. -/
def AllNew {n : ℕ} (s : SlotState n) : Prop := ∀ f ∈ s.recirc, f.dup = false

/-- A consume pass of a new packet, which comes from its worker or from a recirculation
port. -/
structure NewPass (job : Job) (d : Discipline) (s : SlotState job.n)
    (a : Staged.State (Fin job.n)) (i : Fin 4) (tag : Tag job.n) (st : PassState)
    (regs after : Registers) (out : Emission) : Prop where
  look : Looking job d s a i tag st.md true
  pass : ConsumePass job (s.regs i) after i tag st regs out
  source : (i = 0 ∧ st.md.firstFlag = false ∧ st.exponents = tag.sent.exponents) ∨
    ∃ f ∈ s.recirc, f.tag = tag ∧ f.pkt.md.packetType = .consume i ∧ st.md = f.pkt.md ∧
      st.exponents = f.pkt.exponents

/-- The moves of a run in which nothing is sent twice. -/
inductive OnceMove (job : Job) (d : Discipline) (s : SlotState job.n)
    (a : Staged.State (Fin job.n)) (s' : SlotState job.n) : Prop where
  | quiet (hLog : s'.log = s.log) (hRecirc : s'.recirc = s.recirc)
      (hRegs : ∀ i, SameSlot job.slot (s.regs i) (s'.regs i))
  | consume (i : Fin 4) {tag : Tag job.n} {st : PassState} {regs after : Registers}
      {out : Emission} {id : ℕ} {rest : List (Flight job.n)}
      (hPass : NewPass job d s a i tag st regs after out)
      (hLog : s'.log = s.log ++ [⟨id, tag, .consume i, out⟩])
      (hRecirc : s'.recirc = rest ++ out.flight id tag)
      -- only the packet that makes the pass is gone
      (hRest : ∀ g ∈ rest, g ∈ s.recirc)
      (hKept : ∀ g ∈ s.recirc, ∀ j, g.pkt.md.packetType = .harvest j → g ∈ rest)
      (hRegs : s'.regs = Function.update s.regs i after)
  | harvest (j : Fin 8) {pre post : List (Flight job.n)} {f : Flight job.n} {after : Registers}
      {out : Emission} (hPass : HarvestPass job (s.regs (harvestPipe j)) after j f out)
      (hLog : s'.log = s.log ++ [⟨f.id, f.tag, .harvest j, out⟩])
      (hFrom : s.recirc = pre ++ f :: post)
      (hRecirc : s'.recirc = pre ++ post ++ out.flight f.id f.tag)
      (hRegs : ∀ i, SameSlot job.slot (s.regs i) (s'.regs i))

theorem SlotState.emit_regs {n : ℕ} (s : SlotState n) (id : ℕ) (tag : Tag n) (ty : PacketType)
    (out : Emission) : (s.emit id tag ty out).regs = s.regs := by
  cases out <;> rfl

theorem mem_of_mem_split {n : ℕ} {l pre post : List (Flight n)} {f g : Flight n}
    (hl : l = pre ++ f :: post) (hg : g ∈ pre ++ post) : g ∈ l := by
  rw [hl]
  rcases List.mem_append.mp hg with hg | hg <;> simp [hg]

/-- Every move is one of these. -/
theorem SlotMove.once (hMove : SlotMove job d s s') (h : Sim job d s a)
    (hOnce : d.resends = false) (hNew : AllNew s) : OnceMove job d s a s' := by
  cases hMove with
  | stay hRegs => exact .quiet rfl rfl hRegs
  | send w hSend hFree => exact .quiet rfl rfl fun _ => SameSlot.refl _ _
  | loseUp w hl hRegs => exact .quiet rfl rfl hRegs
  | loseDown w hl => exact .quiet rfl rfl fun _ => SameSlot.refl _ _
  | advance w hDown hAdv hPool => exact .quiet rfl rfl fun _ => SameSlot.refl _ _
  | @arrive w k rp rest st regs after out hUp hPass hExp hFlags =>
    obtain ⟨hLook, -⟩ := h.look_up hUp ⟨hFlags.1, hFlags.2.1⟩
    have hCount : a.count 0 w = k := by
      have hHead : a.up w = k :: rest.map Prod.fst := by
        rw [h.rel.up w, hUp]
        rfl
      rcases (h.single hOnce).up w with hNil | ⟨hPos, hCount⟩
      · rw [hNil] at hHead
        exact absurd hHead (by simp)
      · rw [hPos] at hHead
        rw [hCount]
        exact (List.cons.inj hHead).1
    simp only [hCount, decide_true] at hLook
    exact .consume 0 ⟨hLook, hPass, .inl ⟨rfl, hFlags.2.1, hExp⟩⟩
      (SlotState.emit_log ..) (SlotState.emit_recirc ..) (fun _ hg => hg) (fun _ hg _ _ => hg)
      (SlotState.emit_regs ..)
  | @consume i pre post f st regs after out hi hRecirc hFifo hPass hMd hExp hClean =>
    have hMem : f ∈ s.recirc := by rw [hRecirc]; simp
    have hType : f.pkt.md.packetType = .consume i := hMd ▸ hPass.type
    have hLook := h.look_lane (.inr hOnce) hi hPass.lt hRecirc hFifo hType hClean
    rw [hNew f hMem, ← hMd] at hLook
    refine .consume i ⟨hLook, hPass, .inr ⟨f, hMem, rfl, hType, hMd, hExp⟩⟩
      (SlotState.emit_log ..) (SlotState.emit_recirc ..) (fun _ hg => mem_of_mem_split hRecirc hg)
      (fun g hg j hHarvest => ?_) (SlotState.emit_regs ..)
    rw [hRecirc] at hg
    rcases List.mem_append.mp hg with hg | hg
    · exact List.mem_append_left _ hg
    · rcases List.mem_cons.mp hg with rfl | hg
      · rw [hType] at hHarvest
        exact absurd hHarvest (by simp)
      · exact List.mem_append_right _ hg
  | harvest j hj hRecirc hFifo hPass =>
    refine .harvest j hPass (SlotState.emit_log ..) hRecirc (SlotState.emit_recirc ..) ?_
    rw [SlotState.emit_regs]
    exact sameSlot_update job.slot hPass.leaves

-- ---------------------------------------------------------------------------
-- The order of a pipe
-- ---------------------------------------------------------------------------

section PipeOrder

variable {n : ℕ}

/-- The order in which pipe `i` has consumed the workers' packets of chunk `k`. -/
def pipeOrder (log : List (Event n)) (i : Fin 4) (k : ℕ) : List (Fin n) :=
  log.filterMap fun e =>
    if e.ty = .consume i ∧ e.tag.chunk = k then some e.tag.worker else none

theorem mem_pipeOrder {log : List (Event n)} {i : Fin 4} {w : Fin n} {k : ℕ} :
    w ∈ pipeOrder log i k ↔ consumed log i w k = true := by
  unfold pipeOrder consumed Event.isConsume
  simp only [List.mem_filterMap, List.any_eq_true, Option.ite_none_right_eq_some,
    Option.some.injEq, Bool.and_eq_true, decide_eq_true_eq]
  refine exists_congr fun e => and_congr_right fun _ => ?_
  tauto

theorem pipeOrder_snoc (log : List (Event n)) (e : Event n) (i : Fin 4) (k : ℕ) :
    pipeOrder (log ++ [e]) i k = pipeOrder log i k ++
      if e.ty = .consume i ∧ e.tag.chunk = k then [e.tag.worker] else [] := by
  unfold pipeOrder
  rw [List.filterMap_append]
  congr 1
  split <;> simp [*]

theorem pipeOrder_consume (log : List (Event n)) (id : ℕ) (tag : Tag n) (i : Fin 4)
    (out : Emission) :
    pipeOrder (log ++ [⟨id, tag, .consume i, out⟩]) i tag.chunk =
      pipeOrder log i tag.chunk ++ [tag.worker] := by
  rw [pipeOrder_snoc, if_pos ⟨rfl, rfl⟩]

theorem pipeOrder_other {log : List (Event n)} {e : Event n} {i : Fin 4} {k : ℕ}
    (he : ¬ (e.ty = .consume i ∧ e.tag.chunk = k)) :
    pipeOrder (log ++ [e]) i k = pipeOrder log i k := by
  rw [pipeOrder_snoc, if_neg he, List.append_nil]

theorem pipeOrder_isPrefix (log : List (Event n)) (e : Event n) (i : Fin 4) (k : ℕ) :
    pipeOrder log i k <+: pipeOrder (log ++ [e]) i k := by
  rw [pipeOrder_snoc]
  exact List.prefix_append _ _

end PipeOrder

/-- What a consume pass finds: a packet is the last of its chunk if the pipe has consumed
all workers' packets with it, and is taken for the first if the pipe has consumed none. -/
theorem NewPass.finds {i : Fin 4} {tag : Tag job.n} {st : PassState} {regs after : Registers}
    {out : Emission} (hPass : NewPass job d s a i tag st regs after out) (h : Sim job d s a) :
    consumeMap regs st = 0 ∧ tag.worker ∉ pipeOrder s.log i tag.chunk ∧
    (consumeFlag regs st = 1 ↔ ∀ w, w ∈ pipeOrder s.log i tag.chunk ++ [tag.worker]) ∧
    (consumeFlag regs st = 0 ↔ job.n ≠ 1 ∧ pipeOrder s.log i tag.chunk = []) := by
  obtain ⟨hCount, hFill⟩ := hPass.look.count_new rfl
  have hRep := (h.rel.regs i hPass.pass.lt).congr hPass.pass.meets
  have hReady := hPass.pass.ready.consumeReady
  have hMem : ∀ w, w ∈ pipeOrder s.log i tag.chunk ↔ tag.chunk < a.count i w := fun w =>
    mem_pipeOrder.trans (h.rel.consumed i hPass.pass.lt w tag.chunk)
  refine ⟨hRep.map_new hReady hPass.look.uses hFill hCount, ?_, ?_, ?_⟩
  · rw [hMem]
    omega
  · rw [hRep.flag_new_one hReady hPass.look.uses hFill hCount]
    refine forall_congr' fun w => ?_
    rw [List.mem_append, List.mem_singleton, hMem, Function.update_apply]
    by_cases hw : w = tag.worker <;> simp [hw]
  · rw [hRep.flag_new_zero hReady hPass.look.uses hFill hCount]
    refine and_congr_right fun _ => ?_
    rw [List.eq_nil_iff_forall_not_mem]
    exact forall_congr' fun w => by rw [hMem, Nat.not_lt]

-- ---------------------------------------------------------------------------
-- Runs
-- ---------------------------------------------------------------------------

/-- What a new packet is after a consume pass. -/
theorem NewPass.flight {i : Fin 4} {tag : Tag job.n} {st : PassState} {regs after : Registers}
    {out : Emission} (hPass : NewPass job d s a i tag st regs after out) (h : Sim job d s a)
    {id : ℕ} {g : Flight job.n} (hg : g ∈ out.flight id tag) :
    g.tag = tag ∧ g.dup = false ∧
    g.pkt.md.firstFlag = (st.md.firstFlag || decide (consumeFlag regs st = 0)) ∧
    g.pkt.exponents = (consumeState regs st i).exponents ∧
    ((i.val + 1 < job.pipes ∧ g.pkt.md.packetType = .consume (i + 1)) ∨
      (i.val + 1 = job.pipes ∧ g.pkt.md.packetType = .harvest job.firstHarvest ∧
        consumeFlag regs st = 1)) := by
  obtain ⟨-, hTag, -⟩ := Emission.flight_id _ _ _ hg
  obtain ⟨hMap, -⟩ := hPass.finds h
  obtain ⟨ty, hMd, hExp, hGoes⟩ := hPass.pass.flight hg
  have hFlags := hPass.look.flags h.rel hPass.pass ty
  refine ⟨hTag, ?_, ?_, hExp, ?_⟩
  · rw [Flight.dup, hMd]
    exact hFlags.1
  · rw [hMd]
    exact hFlags.2.1
  · rw [hMd]
    rcases hGoes with ⟨hNext, rfl⟩ | ⟨hEnd, rfl, hLast | ⟨hSeen, -⟩⟩
    · exact .inl ⟨hNext, rfl⟩
    · exact .inr ⟨hEnd, rfl, hLast⟩
    · exact absurd hMap hSeen

theorem OnceMove.allNew (hMove : OnceMove job d s a s') (h : Sim job d s a) (hNew : AllNew s) :
    AllNew s' := by
  cases hMove with
  | quiet hLog hRecirc hRegs =>
    unfold AllNew
    rw [hRecirc]
    exact hNew
  | consume i hPass hLog hRecirc hRest hKept hRegs =>
    intro g hg
    rw [hRecirc] at hg
    rcases List.mem_append.mp hg with hg | hg
    · exact hNew g (hRest g hg)
    · exact (hPass.flight h hg).2.1
  | harvest j hPass hLog hFrom hRecirc hRegs =>
    intro g hg
    rw [hRecirc] at hg
    rcases List.mem_append.mp hg with hg | hg
    · exact hNew g (mem_of_mem_split hFrom hg)
    · obtain ⟨pkt, hPkt, rfl⟩ := hPass.flight_harvested hg
      exact hPkt.dup.trans (hNew _ (by rw [hFrom]; simp))

/-- Nothing is retransmitted if nothing is sent twice. -/
theorem OnceMove.no_retransmission (hMove : OnceMove job d s a s') (hNew : AllNew s)
    (hOld : ∀ e ∈ s.log, e.retransmit? = none) : ∀ e ∈ s'.log, e.retransmit? = none := by
  cases hMove with
  | quiet hLog hRecirc hRegs =>
    rw [hLog]
    exact hOld
  | @consume i tag st regs after out id rest hPass hLog hRecirc hRest hKept hRegs =>
    intro e he
    rw [hLog] at he
    rcases List.mem_append.mp he with he | he
    · exact hOld e he
    rw [List.mem_singleton.mp he]
    rcases Nat.lt_or_eq_of_le (Nat.succ_le_of_lt hPass.pass.lt) with hNext | hEnd
    · obtain ⟨rdmaMd, rfl⟩ := hPass.pass.forwards hNext
      split <;> rfl
    · obtain ⟨rdmaMd, rfl⟩ := hPass.pass.finishes hEnd
      split <;> rfl
  | @harvest j pre post f after out hPass hLog hFrom hRecirc hRegs =>
    intro e he
    rw [hLog] at he
    rcases List.mem_append.mp he with he | he
    · exact hOld e he
    rw [List.mem_singleton.mp he]
    by_cases hj : j = 7
    · have hEnds := hPass.ends hj
      rw [hNew f (by rw [hFrom]; simp)] at hEnds
      split at hEnds
      · obtain ⟨pkt, -, rfl⟩ := hEnds
        rfl
      · rw [if_neg (by simp)] at hEnds
        rw [hEnds]
        rfl
    · obtain ⟨pkt, -, rfl⟩ := hPass.continues hj
      rfl

/-- **Run lemma.** What these moves keep holds after every run in which nothing is sent
twice. -/
theorem Sim.once_invariant {P : SlotState job.n → Prop} (hOnce : d.resends = false)
    (hP : ∀ s a s', Sim job d s a → AllNew s → P s → OnceMove job d s a s' → P s')
    (h : Sim job d s a) (hNew : AllNew s) (hInit : P s) (labels : List (SlotLabel job.n)) :
    P (slotRun job d s labels) ∧ AllNew (slotRun job d s labels) ∧
      ∃ a', Sim job d (slotRun job d s labels) a' := by
  have hRun := h.run_invariant (P := fun s => P s ∧ AllNew s) (.inr hOnce)
    (fun s a s' hSim hBoth hMove =>
      have hMove' := hMove.once hSim hOnce hBoth.2
      ⟨hP s a s' hSim hBoth.2 hBoth.1 hMove', hMove'.allNew hSim hBoth.2⟩)
    ⟨hInit, hNew⟩ (h.clean (.inr hOnce) (.inr hOnce) labels)
  exact ⟨hRun.1.1, hRun.1.2, hRun.2⟩

end SwitchML
