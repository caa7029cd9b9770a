import SwitchML.Protocol.Refinement

/-!
# SwitchML protocol — passes are steps of the protocol

The moves in which a packet makes a pass, as steps of `Staged`:

* `Rel.consumePass` — a consume pass is one look of a stage at an item;
* `Sim.harvestOn`, `Sim.harvestLast` — harvest passes move a reply through the queue, and
  the last one takes it out;
* `Sim.move`, `Sim.run` — every move, and every run without misreads, is one of the
  protocol.
-/

namespace SwitchML

open Staged (Dest)
open History (Along)

variable {job : Job} {d : Discipline} {s : SlotState job.n} {a : Staged.State (Fin job.n)}

-- ---------------------------------------------------------------------------
-- Consume passes
-- ---------------------------------------------------------------------------

/-- The packet that makes consume pass `i`, as the protocol sees it. -/
structure Looking (job : Job) (d : Discipline) (s : SlotState job.n)
    (a : Staged.State (Fin job.n)) (i : Fin 4) (tag : Tag job.n) (md : SwitchmlMd)
    (new : Bool) : Prop where
  uses : d.uses job (job.set tag.chunk)
  count_new : new = true → a.count i tag.worker = tag.chunk ∧
    ∀ w, tag.chunk ≤ a.count i w ∧ a.count i w ≤ tag.chunk + 1
  count_dup : new = false → a.count i tag.worker = tag.chunk + 1 ∧
    ∀ w, tag.chunk ≤ a.count i w + 1 ∧ a.count i w ≤ tag.chunk + 2
  -- the flags of the first pass are not set yet
  arriving : i = 0 → md.mapResultNonzero = false ∧ md.firstFlag = false
  coming : i ≠ 0 → md.mapResultNonzero = !new ∧ (new = false → md.firstFlag = true)
  sent : i ≠ 0 → new = true → firstProcessed s.log tag.worker tag.chunk = some tag.sent
  clean : i ≠ 0 → i.val + 1 = job.pipes → new = false →
    (s.regs i).workerCount (job.pool tag.chunk) ≠ 1

section Consume

variable {i : Fin 4} {tag : Tag job.n} {st : PassState} {regs after : Registers} {out : Emission}
  {new : Bool}

theorem firstSlice_of_drop {log : List (Event job.n)} {w : Fin job.n} {k m : ℕ} {rp : RocePacket}
    {x : Data} {rest : List Data} (hFirst : firstProcessed log w k = some rp)
    (hDrop : rp.payload.drop m = x :: rest) : firstSlice log w k m = x := by
  have hGet : rp.payload[m]? = some x := by
    rw [← List.head?_drop, hDrop, List.head?_cons]
  unfold firstSlice
  rw [hFirst]
  simp [List.getD_eq_getElem?_getD, hGet]

/-- The packet that pass `i` adds up is the first of its chunk. -/
theorem Looking.firstProcessed_snoc (hLook : Looking job d s a i tag st.md new)
    (hRel : Rel job d s a) (hNew : new = true) (id : ℕ) (out : Emission) :
    firstProcessed (s.log ++ [⟨id, tag, .consume i, out⟩]) tag.worker tag.chunk =
      some tag.sent := by
  by_cases hi : i = 0
  · subst hi
    refine SwitchML.firstProcessed_snoc ?_ (by simp [Event.isConsume])
    rw [Bool.eq_false_iff, Ne, hRel.consumed 0 job.pipes_pos, (hLook.count_new hNew).1]
    omega
  · exact firstProcessed_eq_some_append (hLook.sent hi hNew) _

theorem looked_count_new (hCount : a.count i tag.worker = tag.chunk) :
    (looked a true i tag.worker).count i =
      Function.update (a.count i) tag.worker (tag.chunk + 1) := by
  funext w
  rw [looked_count, Function.update_apply]
  by_cases hw : w = tag.worker <;> simp [hw, hCount]

/-- The registers after a consume pass. -/
theorem Looking.represents (hLook : Looking job d s a i tag st.md new) (hRel : Rel job d s a)
    (hAnti : ∀ i : Fin 4, i.val < job.pipes → ∀ w, a.count i w ≤ a.count 0 w)
    (hPass : ConsumePass job (s.regs i) after i tag st regs out) (id : ℕ) :
    Represents job (d.uses job) after ((looked a new i tag.worker).count i)
      (pipeSlices (s.log ++ [⟨id, tag, .consume i, out⟩]) i) := by
  have hRep := (hRel.regs i hPass.lt).congr hPass.meets
  have hRep' : Represents job (d.uses job) regs (a.count i)
      (pipeSlices (s.log ++ [⟨id, tag, .consume i, out⟩]) i) := by
    refine hRep.congr_data fun w k hk => pipeSlices_append ?_ _ _
    exact (hRel.consumed 0 job.pipes_pos w k).mpr (Nat.lt_of_lt_of_le hk (hAnti i hPass.lt w))
  refine Represents.congr ?_ hPass.leaves
  cases hNew : new with
  | true =>
    have hFirst := hLook.firstProcessed_snoc hRel hNew id out
    obtain ⟨hCount, hFill⟩ := hLook.count_new hNew
    rw [looked_count_new hCount]
    refine hRep'.consume_new hPass.ready.consumeReady hLook.uses hFill hCount ?_
    have hDrop : tag.sent.payload.drop (2 * i.val + 1) = st.d1 :: st.payload := by
      have := congrArg (List.drop 1) hPass.data
      rw [List.drop_drop] at this
      exact this.symm
    exact Prod.ext (firstSlice_of_drop hFirst hPass.data.symm) (firstSlice_of_drop hFirst hDrop)
  | false =>
    obtain ⟨hCount, hFill⟩ := hLook.count_dup hNew
    exact hRep'.consume_dup hPass.ready.consumeReady hLook.uses hCount

/-- What the pass finds: whether the packet is new, and whether the slot is full. -/
theorem Looking.finds (hLook : Looking job d s a i tag st.md new) (hRel : Rel job d s a)
    (hPass : ConsumePass job (s.regs i) after i tag st regs out) :
    (consumeMap regs st = 0 ↔ new = true) ∧
    (new = true → (consumeFlag regs st = 1 ↔
      Staged.Complete (looked a new i tag.worker) i tag.chunk)) ∧
    (new = false → (consumeFlag regs st = 0 ↔
      Staged.Complete (looked a new i tag.worker) i tag.chunk)) := by
  have hRep := (hRel.regs i hPass.lt).congr hPass.meets
  have hReady := hPass.ready.consumeReady
  cases hNew : new with
  | true =>
    obtain ⟨hCount, hFill⟩ := hLook.count_new hNew
    refine ⟨by simp [hRep.map_new hReady hLook.uses hFill hCount], fun _ => ?_, by simp⟩
    rw [hRep.flag_new_one hReady hLook.uses hFill hCount, Staged.Complete,
      looked_count_new hCount]
  | false =>
    obtain ⟨hCount, hFill⟩ := hLook.count_dup hNew
    have hMap := hRep.map_dup hReady hLook.uses hCount
    refine ⟨⟨fun hZero => absurd hZero hMap, by simp⟩, by simp, fun _ => ?_⟩
    rw [hRep.flag_dup_zero hReady hLook.uses hFill hCount]
    rfl

/-- The packet that leaves a consume pass. -/
theorem Looking.flags (hLook : Looking job d s a i tag st.md new) (hRel : Rel job d s a)
    (hPass : ConsumePass job (s.regs i) after i tag st regs out) (ty : PacketType) :
    (slotStatus (consumeState regs st i) ty).mapResultNonzero = !new ∧
    (slotStatus (consumeState regs st i) ty).firstFlag =
      (st.md.firstFlag || decide (consumeFlag regs st = 0)) ∧
    (slotStatus (consumeState regs st i) ty).lastFlag =
      (st.md.lastFlag || decide (consumeFlag regs st = 1)) := by
  refine ⟨?_, rfl, rfl⟩
  have hMap := (hLook.finds hRel hPass).1
  show (st.md.mapResultNonzero || decide (consumeMap regs st ≠ 0)) = !new
  by_cases hi : i = 0
  · rw [(hLook.arriving hi).1, Bool.false_or]
    cases new <;> simp_all
  · rw [(hLook.coming hi).1]
    cases new <;> simp_all

/-- A full slot holds the aggregate. -/
theorem Rel.significands (hRel : Rel job d s a) (hi : i.val < job.pipes) {k : ℕ}
    (hUses : d.uses job (job.set k)) (hC : Staged.Complete a i k)
    (hLe : ∀ w, a.count i w ≤ k + 2) (l : Fin 32) :
    (s.regs i).significands l (job.pool k) =
      ⟨aggregateSlice s.log k (2 * i.val) l, aggregateSlice s.log k (2 * i.val + 1) l⟩ := by
  have hUniv : taken (a.count i) k = Finset.univ :=
    Finset.eq_univ_iff_forall.mpr fun w => mem_taken.mpr (hC w)
  rw [(hRel.regs i hi).sums k hUses ⟨⟨0, job.n_pos⟩, hC _⟩ hLe l, hUniv]
  rfl

/-- What a packet takes from the pass in which it fills the slot up: the last slice of
the aggregate. -/
theorem ConsumePass.lastSlice {id : ℕ}
    (hPass : ConsumePass job (s.regs i) after i tag st regs out)
    (hLook : Looking job d s a i tag st.md new)
    (hTake : Rel job d
      { s with
        regs := Function.update s.regs i after
        log := s.log ++ [⟨id, tag, .consume i, out⟩] } (looked a new i tag.worker))
    (hEnd : i.val + 1 = job.pipes) (hMap : consumeMap regs st = 0) (hNew : new = true)
    (hC : Staged.Complete (looked a new i tag.worker) i tag.chunk) :
    (consumeState regs st i).d1 :: st.payload =
      (aggregate job (s.log ++ [⟨id, tag, .consume i, out⟩]) tag.chunk).drop
        (8 - job.firstHarvest.val) := by
  have hRest : st.payload = [] := by
    have hLength := congrArg List.length hPass.data
    rw [List.length_drop, Job.sendable_length hPass.sendable, Job.slices] at hLength
    simp only [List.length_cons] at hLength
    exact List.eq_nil_of_length_eq_zero (by omega)
  have hIndex : 8 - job.firstHarvest.val = 2 * i.val + 1 := by
    unfold Job.pipes at hEnd
    unfold Job.firstHarvest
    cases hLarge : job.large <;> simp only [hLarge] at hEnd ⊢ <;> simp at hEnd ⊢ <;> omega
  have hPool := hPass.ready.md.poolIndex
  have hLe : ∀ w, (looked a new i tag.worker).count i w ≤ tag.chunk + 2 := by
    intro w
    have := ((hLook.count_new hNew).2 w).2
    rw [looked_count]
    split <;> omega
  have hSlice : (consumeState regs st i).d1 =
      aggregateSlice (s.log ++ [⟨id, tag, .consume i, out⟩]) tag.chunk (2 * i.val + 1) := by
    funext l
    have hSig := hTake.significands hPass.lt hLook.uses hC hLe l
    simp only [Function.update_self] at hSig
    rw [hPass.leaves.significands l _ (job.pool_slot _), significands_consumeRegs hMap,
      if_pos hPool.symm] at hSig
    simp only [consumeState, hMap, if_true, hSig]
  rw [hSlice, hRest, hIndex, aggregate_drop _ _ (by rw [Job.slices]; omega),
    show 2 * i.val + 1 + 1 = job.slices by rw [Job.slices]; omega, aggregate_drop_length]

/-- A consume pass that leads to another pipe. -/
theorem Rel.forwardPass (hRel : Rel job d s a) {id : ℕ}
    (hTake : Rel job d
      { s with
        regs := Function.update s.regs i after
        log := s.log ++ [⟨id, tag, .consume i, out⟩] } (looked a new i tag.worker))
    (hPass : ConsumePass job (s.regs i) after i tag st regs out)
    (hLook : Looking job d s a i tag st.md new) (hNext : i.val + 1 < job.pipes) :
    ∃ a', Staged.Passed job.pipes i tag.worker tag.chunk new (looked a new i tag.worker) a' ∧
      Rel job d ({ s with regs := Function.update s.regs i after }.emit id tag (.consume i) out)
        a' := by
  obtain ⟨rdmaMd, hOut⟩ := hPass.forwards hNext
  obtain ⟨hMap, -, -⟩ := hLook.finds hRel hPass
  obtain ⟨hDup, hFirst, -⟩ := hLook.flags hRel hPass (.consume (i + 1))
  have hSucc : (i + 1).val = i.val + 1 := Fin.val_add_one_of_lt' (by have := job.pipes_le; omega)
  split at hOut
  · next hOn =>
    refine ⟨_, .forward hNext, ?_⟩
    have hSent := fun hNew => hLook.firstProcessed_snoc hRel hNew id out
    subst hOut
    have hPush := hTake.pushLane (i := i + 1)
      (f := ⟨id, tag, job.lanePort tag.worker (i + 1),
        ⟨slotStatus (consumeState regs st i) (.consume (i + 1)), rdmaMd,
          (consumeState regs st i).exponents, st.payload⟩⟩)
      (by intro hZero; rw [hZero] at hSucc; simp at hSucc) rfl ?_
    · rw [hSucc, show Flight.item _ = (tag.chunk, new) by simp [Flight.item, Flight.dup, hDup]]
        at hPush
      exact hPush
    · refine ⟨fun _ _ hIsDup => ?_, fun j hType => ?_, fun hIsNew => ?_, fun j hType => ?_⟩
      · have hNew : new = false := by simpa [Flight.dup, hDup] using hIsDup
        show (slotStatus (consumeState regs st i) (.consume (i + 1))).firstFlag = true
        rw [hFirst]
        rcases hOn with hi | hZero | hZero
        · rw [(hLook.coming hi).2 hNew, Bool.true_or]
        · rw [hMap.mp hZero] at hNew
          exact absurd hNew (by simp)
        · simp [hZero]
      · exact absurd hType (by simp [slotStatus])
      · exact hSent (by simpa [Flight.dup, hDup] using hIsNew)
      · exact absurd hType (by simp [slotStatus])
  · next hOff =>
    refine ⟨_, .drop (.inl ?_), ?_⟩
    · rw [Bool.eq_false_iff]
      exact fun hNew => hOff (.inr (.inl (hMap.mpr hNew)))
    · subst hOut
      exact hTake

/-- A consume pass in the last pipe. -/
theorem Rel.finishPass (hRel : Rel job d s a) {id : ℕ}
    (hFlights : ∀ g ∈ s.recirc, FlightOk job g)
    (hTake : Rel job d
      { s with
        regs := Function.update s.regs i after
        log := s.log ++ [⟨id, tag, .consume i, out⟩] } (looked a new i tag.worker))
    (hPass : ConsumePass job (s.regs i) after i tag st regs out)
    (hLook : Looking job d s a i tag st.md new) (hEnd : i.val + 1 = job.pipes) :
    ∃ a', Staged.Passed job.pipes i tag.worker tag.chunk new (looked a new i tag.worker) a' ∧
      Rel job d ({ s with regs := Function.update s.regs i after }.emit id tag (.consume i) out)
        a' := by
  obtain ⟨rdmaMd, hOut⟩ := hPass.finishes hEnd
  obtain ⟨hMap, hLast, hFull⟩ := hLook.finds hRel hPass
  obtain ⟨hDup, hFirst, hLastFlag⟩ := hLook.flags hRel hPass (.harvest job.firstHarvest)
  split at hOut
  · next hOn =>
    have hOne : new = true → consumeFlag regs st = 1 :=
      fun hNew => hOn.resolve_right fun h => h.1 (hMap.mpr hNew)
    have hSent := fun hNew => hLook.firstProcessed_snoc hRel hNew id out
    have hSlice := hPass.lastSlice hLook hTake
    subst hOut
    have hPush := hTake.pushHarvest
      (f := ⟨id, tag, job.harvestPort job.firstHarvest,
        ⟨slotStatus (consumeState regs st i) (.harvest job.firstHarvest), rdmaMd,
          (consumeState regs st i).exponents, (consumeState regs st i).d1 :: st.payload⟩⟩)
      hFlights rfl ?_
    · refine ⟨_, ?_, hPush⟩
      dsimp only [Flight.reply, Flight.dup]
      rw [hDup, hFirst]
      cases hNew : new with
      | true =>
        have hC : Staged.Complete (looked a true i tag.worker) i tag.chunk := by
          rw [← hNew]
          exact (hLast hNew).mp (hOne hNew)
        cases st.md.firstFlag || decide (consumeFlag regs st = 0) with
        | false => exact .answerAll hEnd rfl hC
        | true => exact .giveUp hEnd fun _ => hC
      | false =>
        by_cases hZero : consumeFlag regs st = 0
        · have hC : Staged.Complete (looked a false i tag.worker) i tag.chunk := by
            rw [← hNew]
            exact (hFull hNew).mp hZero
          simp only [hZero, decide_true, Bool.or_true, Bool.not_false]
          exact .answerOne hEnd rfl hC
        · -- the slot lacks one worker; over several pipes this does not happen
          have hFlag := hOn.resolve_right fun h => hZero h.2
          have hi : i = 0 := by
            by_contra hi
            refine hLook.clean hi hEnd hNew ?_
            have hMapNe : consumeMap regs st ≠ 0 := fun h => by simp [hMap.mp h] at hNew
            have := consumeFlag_dup_one hMapNe hFlag
            rwa [hPass.ready.md.poolIndex,
              hPass.meets.workerCount _ (job.pool_slot _)] at this
          simp only [(hLook.arriving hi).2, hZero, decide_false, Bool.or_false, Bool.not_false]
          exact .giveUp hEnd fun h => absurd h (by simp)
    · refine ⟨fun i hType => ?_, fun _ _ hIsNew => ?_, fun hIsNew => ?_, fun j hType hAll => ?_⟩
      · exact absurd hType (by simp [slotStatus])
      · have hNew : new = true := by simpa [Flight.dup, hDup] using hIsNew
        show (slotStatus (consumeState regs st i) (.harvest job.firstHarvest)).lastFlag = true
        rw [hLastFlag, hOne hNew]
        simp
      · exact hSent (by simpa [Flight.dup, hDup] using hIsNew)
      · have hNew : new = true := by simpa [Flight.dup, hDup] using (Flight.reply_all.mp hAll).1
        obtain rfl : job.firstHarvest = j := PacketType.harvest.inj hType
        exact hSlice hEnd (hMap.mpr hNew) hNew ((hLast hNew).mp (hOne hNew))
  · next hOff =>
    subst hOut
    exact ⟨_, .drop (.inr hEnd), hTake⟩

theorem ConsumePass.not_broadcast {before : Registers}
    (hPass : ConsumePass job before after i tag st regs out) (id : ℕ) :
    Event.broadcast? (n := job.n) ⟨id, tag, .consume i, out⟩ = none := by
  rcases Nat.lt_or_eq_of_le (Nat.succ_le_of_lt hPass.lt) with hNext | hEnd
  · obtain ⟨rdmaMd, hOut⟩ := hPass.forwards hNext
    rw [hOut]
    split <;> rfl
  · obtain ⟨rdmaMd, hOut⟩ := hPass.finishes hEnd
    rw [hOut]
    split <;> rfl

/-- **Consume passes** are looks of a stage at an item. -/
theorem Rel.consumePass (hRel : Rel job d s a) (hFlights : ∀ g ∈ s.recirc, FlightOk job g)
    (hAnti : ∀ i : Fin 4, i.val < job.pipes → ∀ w, a.count i w ≤ a.count 0 w)
    (hAll : ∀ f ∈ s.recirc, ∀ j, f.onHarvest j = true → f.reply.1 = .all →
      ∀ w, f.tag.chunk < a.count 0 w)
    (hPass : ConsumePass job (s.regs i) after i tag st regs out)
    (hLook : Looking job d s a i tag st.md new) (id : ℕ) :
    ∃ a', Staged.Passed job.pipes i tag.worker tag.chunk new (looked a new i tag.worker) a' ∧
      Rel job d ({ s with regs := Function.update s.regs i after }.emit id tag (.consume i) out)
        a' := by
  have hCount : (looked a new i tag.worker).count i tag.worker = tag.chunk + 1 := by
    rw [looked_count]
    cases hNew : new with
    | true => simp [(hLook.count_new hNew).1]
    | false => simp [(hLook.count_dup hNew).1]
  have hTake := hRel.take ⟨id, tag, .consume i, out⟩ new hAnti hAll rfl
    (hPass.not_broadcast id) hCount (hLook.represents hRel hAnti hPass id)
  rcases Nat.lt_or_eq_of_le (Nat.succ_le_of_lt hPass.lt) with hNext | hEnd
  · exact hRel.forwardPass hTake hPass hLook hNext
  · exact hRel.finishPass hFlights hTake hPass hLook hEnd

end Consume

-- ---------------------------------------------------------------------------
-- Which packet comes first
-- ---------------------------------------------------------------------------

section Ready

variable {pre post : List (Flight job.n)} {f : Flight job.n}

theorem FlightOk.port_lane (h : FlightOk job f) {i : Fin 4} {w : Fin job.n}
    (hOn : f.onLane i w = true) : f.port = job.lanePort w i := by
  obtain ⟨hType, rfl⟩ := onLane_type.mp hOn
  rcases h.route with ⟨i', -, -, hConsume, hPort, -⟩ | ⟨j, -, hHarvest, -⟩
  · rw [hType] at hConsume
    rw [hPort, PacketType.consume.inj hConsume]
  · rw [hType] at hHarvest
    exact absurd hHarvest (by simp)

theorem FlightOk.port_harvest (h : FlightOk job f) {j : Fin 8} (hOn : f.onHarvest j = true) :
    f.port = job.harvestPort j ∧ j ∈ harvestOrder := by
  have hType := onHarvest_type.mp hOn
  rcases h.route with ⟨i, -, -, hConsume, -⟩ | ⟨j', hLe, hHarvest, hPort⟩
  · rw [hType] at hConsume
    exact absurd hConsume (by simp)
  · rw [hType] at hHarvest
    obtain rfl : j = j' := PacketType.harvest.inj hHarvest
    refine ⟨hPort, ?_⟩
    have hPos : 0 < j := Fin.lt_of_lt_of_le (Fin.pos_iff_ne_zero.mpr job.firstHarvest_pos) hLe
    have hOrder : ∀ j : Fin 8, 0 < j → j ∈ harvestOrder := by decide
    exact hOrder j hPos

/-- A queue of at most one packet has nothing in front of it. -/
theorem not_before_of_length_le {p : Flight job.n → Bool} (post : List (Flight job.n))
    (hf : p f = true) (hLength : ((pre ++ f :: post).filter p).length ≤ 1) :
    ∀ g ∈ pre, p g = false := by
  intro g hg
  by_contra hOn
  rw [Bool.not_eq_false] at hOn
  have hPos : 0 < (pre.filter p).length :=
    List.length_pos_iff_exists_mem.mpr ⟨g, List.mem_filter.mpr ⟨hg, hOn⟩⟩
  rw [List.filter_append, List.length_append, List.filter_cons_of_pos hf, List.length_cons]
    at hLength
  omega

/-- The packet that makes a consume pass is the first on its lane: by the order of the
ports, or because there is no other. -/
theorem Sim.first_lane (h : Sim job d s a) (hMode : d.fifo = true ∨ d.resends = false)
    (hRecirc : s.recirc = pre ++ f :: post)
    (hFifo : d.fifo = true → ∀ g ∈ pre, g.port ≠ f.port) {i : Fin 4} {w : Fin job.n}
    (hi : i ≠ 0) (hOn : f.onLane i w = true) : ∀ g ∈ pre, g.onLane i w = false := by
  have hFlights := h.wellFormed.flights
  rw [hRecirc] at hFlights
  rcases hMode with hOrder | hOnce
  · intro g hg
    by_contra hg'
    rw [Bool.not_eq_false] at hg'
    refine hFifo hOrder g hg ?_
    rw [(hFlights g (by simp [hg])).port_lane hg', (hFlights f (by simp)).port_lane hOn]
  · refine not_before_of_length_le post hOn ?_
    rw [← hRecirc, ← List.length_map (f := Flight.item), ← h.rel.lane i w hi]
    have hLt : i.val < job.pipes := by
      rcases (hFlights f (by simp)).route with ⟨i', -, hLt, hType, -⟩ | ⟨j, -, hType, -⟩
      · rw [(onLane_type.mp hOn).1] at hType
        rwa [PacketType.consume.inj hType]
      · rw [(onLane_type.mp hOn).1] at hType
        exact absurd hType (by simp)
    obtain ⟨m, hm⟩ : ∃ m, i.val = m + 1 :=
      Nat.exists_eq_succ_of_ne_zero (Fin.val_ne_zero_iff.mpr hi)
    rw [hm] at hLt ⊢
    exact (h.single hOnce).lane_length h.inv hLt w

/-- Likewise for harvest passes. -/
theorem Sim.first_harvest (h : Sim job d s a) (hMode : d.fifo = true ∨ d.resends = false)
    (hRecirc : s.recirc = pre ++ f :: post)
    (hFifo : d.fifo = true → ∀ g ∈ pre, g.port ≠ f.port) {j : Fin 8}
    (hOn : f.onHarvest j = true) : ∀ g ∈ pre, g.onHarvest j = false := by
  have hFlights := h.wellFormed.flights
  rw [hRecirc] at hFlights
  rcases hMode with hOrder | hOnce
  · intro g hg
    by_contra hg'
    rw [Bool.not_eq_false] at hg'
    refine hFifo hOrder g hg ?_
    rw [((hFlights g (by simp [hg])).port_harvest hg').1,
      ((hFlights f (by simp)).port_harvest hOn).1]
  · refine not_before_of_length_le post hOn ?_
    have hLength := (h.single hOnce).harvest_length
    rw [h.rel.harvest, List.length_map, hRecirc, harvestQueue, List.flatMap_def] at hLength
    refine Nat.le_trans (List.Sublist.length_le ?_) hLength
    exact List.sublist_flatten_of_mem
      (List.mem_map_of_mem ((hFlights f (by simp)).port_harvest hOn).2)

end Ready

-- ---------------------------------------------------------------------------
-- Moves with a consume pass
-- ---------------------------------------------------------------------------

theorem Rel.popLane (h : Rel job d s a) {pre post : List (Flight job.n)} {f : Flight job.n}
    {i : Fin 4} (hRecirc : s.recirc = pre ++ f :: post)
    (hType : f.pkt.md.packetType = .consume i)
    (hFirst : ∀ g ∈ pre, g.onLane i f.tag.worker = false) (hi : i ≠ 0) :
    a.lane i f.tag.worker =
        f.item :: ((pre ++ post).filter (Flight.onLane i f.tag.worker)).map Flight.item ∧
      Rel job d { s with recirc := pre ++ post }
        (Staged.setLane a i f.tag.worker
          (((pre ++ post).filter (Flight.onLane i f.tag.worker)).map Flight.item)) := by
  have hOn : f.onLane i f.tag.worker = true := onLane_type.mpr ⟨hType, rfl⟩
  refine ⟨?_, { h with lane := fun i' w hi' => ?_, harvest := ?_, flags := fun g hg => ?_ }⟩
  · rw [h.lane i _ hi, hRecirc, filter_head hOn hFirst, List.map_cons]
  · simp only [Staged.setLane]
    by_cases hHere : i' = i ∧ w = f.tag.worker
    · obtain ⟨rfl, rfl⟩ := hHere
      rw [if_pos ⟨rfl, rfl⟩]
    · rw [if_neg fun hEq => hHere ⟨Fin.ext hEq.1, hEq.2⟩, h.lane i' w hi', hRecirc, filter_skip]
      rw [Bool.eq_false_iff, Ne, onLane_type, hType]
      rintro ⟨hEq, rfl⟩
      exact hHere ⟨(PacketType.consume.inj hEq).symm, rfl⟩
  · show a.harvest = (harvestQueue (pre ++ post)).map Flight.reply
    rw [h.harvest, hRecirc, harvestQueue_skip hType]
  · refine h.flags g ?_
    rw [hRecirc]
    rcases List.mem_append.mp hg with hg | hg <;> simp [hg]

/-- The chunks on the way use the sets the run uses. -/
theorem Sim.uses (h : Sim job d s a) {w : Fin job.n} {k : ℕ} (hk : k ≤ a.pos w) :
    d.uses job (job.set k) := by
  cases hAdv : d.advances with
  | true => exact .inl hAdv
  | false =>
    obtain rfl : k = 0 := by
      have := h.idle hAdv w
      omega
    exact .inr (by simp [Job.set])

theorem Sim.anti (h : Sim job d s a) (i : Fin 4) (hi : i.val < job.pipes) (w : Fin job.n) :
    a.count i w ≤ a.count 0 w := h.inv.count_anti (Nat.zero_le _) hi w

/-- A packet on its way to a broadcast belongs to a chunk that is complete. -/
theorem Sim.complete (h : Sim job d s a) {f : Flight job.n} (hf : f ∈ s.recirc)
    {j : Fin 8} (hOn : f.onHarvest j = true) (hReply : f.reply.1 ≠ .nobody) :
    (∀ i < job.pipes, Staged.Complete a i f.tag.chunk) ∧ ∀ w, a.pos w ≤ f.tag.chunk + 1 := by
  refine h.inv.harvest_mem f.reply ?_ hReply
  rw [h.rel.harvest]
  refine List.mem_map_of_mem (List.mem_flatMap.mpr ⟨j, ?_, List.mem_filter.mpr ⟨hf, hOn⟩⟩)
  exact ((h.wellFormed.flights f hf).port_harvest hOn).2

theorem Sim.complete_all (h : Sim job d s a) (f : Flight job.n) (hf : f ∈ s.recirc) (j : Fin 8)
    (hOn : f.onHarvest j = true) (hReply : f.reply.1 = .all) (w : Fin job.n) :
    f.tag.chunk < a.count 0 w :=
  (h.complete hf hOn (by simp [hReply])).1 0 job.pipes_pos w

/-- What a consume pass makes of the protocol's state keeps the invariants. -/
theorem Sim.of_passed {s' : SlotState job.n} {a₁ a' : Staged.State (Fin job.n)} {i : ℕ}
    {w : Fin job.n} {k : ℕ} {new : Bool} (h : Sim job d s a) (hRel : Rel job d s' a')
    (hWf : WellFormed job s') (hStep : Staged.Step job.pipes (!d.resends) a a')
    (hPassed : Staged.Passed job.pipes i w k new (looked a₁ new i w) a')
    (hPos : a₁.pos = a.pos) (hCount : a₁.count = a.count)
    (hTurn : d.resends = false → ∀ w', s'.sent w' = false →
      s.sent w' = false ∧ a₁.up w' = a.up w' ∧ (i = 0 → w' ≠ w)) : Sim job d s' a' := by
  obtain ⟨hPos', hUp', hCount'⟩ := hPassed.frame
  obtain ⟨hPosL, hUpL, -⟩ := looked_same a₁ new i w
  refine ⟨hRel, hWf, h.inv.step job.pipes_pos hStep, fun hOnce => ?_, fun hOnce w' hw' => ?_,
    fun hAdv w' => ?_⟩
  · rw [hOnce] at hStep
    exact (h.single hOnce).step h.inv job.pipes_pos hStep
  · obtain ⟨hSent, hUp, hNe⟩ := hTurn hOnce w' hw'
    obtain ⟨hNil, hEq⟩ := h.turn hOnce w' hSent
    rw [hUp', hUpL, hUp, hCount', hPos', hPosL, hPos, looked_count,
      if_neg (fun hHere => hNe hHere.2.1.symm hHere.2.2), hCount]
    exact ⟨hNil, hEq⟩
  · rw [hPos', hPosL, hPos]
    exact h.idle hAdv w'

/-- The next packet of a worker's uplink, in its first pass. -/
theorem Sim.look_up (h : Sim job d s a) {w : Fin job.n} {k : ℕ} {rp : RocePacket}
    {rest : List (ℕ × RocePacket)} {md : SwitchmlMd} (hUp : s.uplink w = (k, rp) :: rest)
    (hFlags : md.mapResultNonzero = false ∧ md.firstFlag = false) :
    Looking job d s a 0 ⟨w, k, rp⟩ md (decide (a.count 0 w = k)) ∧
      (a.count 0 w = k ∨ k + 1 = a.count 0 w) := by
  have hHead : a.up w = k :: rest.map Prod.fst := by
    rw [h.rel.up w, hUp]
    rfl
  obtain ⟨hLow, hHigh⟩ := h.inv.up_mem w k (by rw [hHead]; exact List.mem_cons_self)
  have hPosLe := h.inv.pos_le 0 job.pipes_pos w w
  refine ⟨⟨h.uses hHigh, fun hNew => ?_, fun hDup => ?_, fun _ => hFlags, fun hi => absurd rfl hi,
    fun hi => absurd rfl hi, fun hi => absurd rfl hi⟩, by omega⟩
  · have hEq : a.count 0 w = k := of_decide_eq_true hNew
    have hFill := h.inv.filling job.pipes_pos (w := w) (by omega)
    rw [hEq] at hFill
    exact ⟨hEq, hFill⟩
  · have hEq : a.count 0 w = k + 1 := by
      have := of_decide_eq_false hDup
      omega
    refine ⟨hEq, fun w' => ?_⟩
    have h1 := h.inv.counts_close job.pipes_pos job.pipes_pos w w'
    have h2 := h.inv.counts_close job.pipes_pos job.pipes_pos w' w
    exact ⟨show k ≤ a.count 0 w' + 1 by omega, show a.count 0 w' ≤ k + 2 by omega⟩

/-- The next packet of a worker's uplink makes its first pass. -/
theorem Sim.arrive (h : Sim job d s a) {w : Fin job.n} {k : ℕ} {rp : RocePacket}
    {rest : List (ℕ × RocePacket)} {st : PassState} {regs after : Registers} {out : Emission}
    (hUp : s.uplink w = (k, rp) :: rest)
    (hPass : ConsumePass job (s.regs 0) after 0 ⟨w, k, rp⟩ st regs out)
    (hFlags : st.md.mapResultNonzero = false ∧ st.md.firstFlag = false)
    {s' : SlotState job.n} (hs' : s' =
      { s with
        uplink := Function.update s.uplink w rest
        regs := Function.update s.regs 0 after
        nextId := s.nextId + 1 }.emit s.nextId ⟨w, k, rp⟩ (.consume 0) out)
    (hWf : WellFormed job s') : ∃ a', Sim job d s' a' := by
  have hHead : a.up w = k :: rest.map Prod.fst := by
    rw [h.rel.up w, hUp]
    rfl
  obtain ⟨hLook, hCases⟩ := h.look_up hUp hFlags
  obtain ⟨a', hPassed, hRel'⟩ := Rel.consumePass
    (s := { s with uplink := Function.update s.uplink w rest, nextId := s.nextId + 1 })
    { h.rel.setUp w rest with } h.wellFormed.flights h.anti h.complete_all hPass { hLook with }
    s.nextId
  refine ⟨a', h.of_passed (hs' ▸ hRel') hWf ?_ hPassed rfl rfl ?_⟩
  · by_cases hNew : a.count 0 w = k
    · subst hNew
      simp only [decide_true] at hPassed
      exact .arriveNew w hHead hPassed
    · simp only [hNew, decide_false] at hPassed
      exact .arriveDup w hHead (by omega) hPassed
  · intro hOnce w' hw'
    rw [hs', SlotState.emit_sent] at hw'
    have hNe : w' ≠ w := by
      rintro rfl
      rw [(h.turn hOnce w' hw').1] at hHead
      exact absurd hHead (by simp)
    exact ⟨hw', by simp [Staged.setUp, hNe], fun _ => hNe⟩

/-- What the protocol knows of the first packet on a lane: whether the stage has taken its
chunk, and that the chunk was sent. -/
theorem Sim.head_count (h : Sim job d s a) {pre post : List (Flight job.n)} {f : Flight job.n}
    {i : Fin 4} (hRecirc : s.recirc = pre ++ f :: post)
    (hType : f.pkt.md.packetType = .consume i)
    (hFirst : ∀ g ∈ pre, g.onLane i f.tag.worker = false) (hi : i ≠ 0) (hLt : i.val < job.pipes) :
    (f.dup = false → a.count i f.tag.worker = f.tag.chunk) ∧
    (f.dup = true → a.count i f.tag.worker = f.tag.chunk + 1) ∧
    f.tag.chunk ≤ a.pos f.tag.worker := by
  obtain ⟨hLane, -⟩ := h.rel.popLane hRecirc hType hFirst hi
  obtain ⟨m, hm⟩ : ∃ m, i.val = m + 1 :=
    Nat.exists_eq_succ_of_ne_zero (Fin.val_ne_zero_iff.mpr hi)
  rw [hm] at hLt
  have hHere := h.inv.lanes m hLt f.tag.worker
  rw [← hm, hLane] at hHere
  have hAnti := h.inv.count_anti (Nat.zero_le m) (by omega) f.tag.worker
  have hCount := h.inv.count_le f.tag.worker
  cases hDup : f.dup with
  | false =>
    rw [show f.item = (f.tag.chunk, true) by simp [Flight.item, hDup]] at hHere
    have hLe := hHere.2.le
    exact ⟨fun _ => hHere.1.symm, by simp, by have := hHere.1; omega⟩
  | true =>
    rw [show f.item = (f.tag.chunk, false) by simp [Flight.item, hDup]] at hHere
    have hLe := hHere.2.le
    exact ⟨by simp, fun _ => hHere.1.symm, by have := hHere.1; omega⟩

/-- The first packet on a lane, in its consume pass. -/
theorem Sim.look_lane (h : Sim job d s a) (hMode : d.fifo = true ∨ d.resends = false) {i : Fin 4}
    {pre post : List (Flight job.n)} {f : Flight job.n} (hi : i ≠ 0) (hLt : i.val < job.pipes)
    (hRecirc : s.recirc = pre ++ f :: post)
    (hFifo : d.fifo = true → ∀ g ∈ pre, g.port ≠ f.port)
    (hType : f.pkt.md.packetType = .consume i)
    (hClean : i.val + 1 = job.pipes → f.dup = true →
      (s.regs i).workerCount (job.pool f.tag.chunk) ≠ 1) :
    Looking job d s a i f.tag f.pkt.md (!f.dup) := by
  have hFlags := h.rel.flags f (by rw [hRecirc]; simp)
  have hFirst := h.first_lane hMode hRecirc hFifo hi (onLane_type.mpr ⟨hType, rfl⟩)
  obtain ⟨hNewCount, hDupCount, hSentLe⟩ := h.head_count hRecirc hType hFirst hi hLt
  refine ⟨h.uses hSentLe, fun hNew => ?_, fun hOld => ?_, fun hZero => absurd hZero hi,
    fun _ => ⟨?_, fun hOld => ?_⟩, fun _ hNew => ?_, fun _ hEnd hOld => ?_⟩
  · have hEq := hNewCount (by simpa using hNew)
    have hFill := h.inv.filling hLt (i := i) (w := f.tag.worker) (by omega)
    rw [hEq] at hFill
    exact ⟨hEq, hFill⟩
  · have hEq := hDupCount (by simpa using hOld)
    refine ⟨hEq, fun w' => ?_⟩
    have h1 := h.inv.counts_close hLt hLt (i := i) (j := i) f.tag.worker w'
    have h2 := h.inv.counts_close hLt hLt (i := i) (j := i) w' f.tag.worker
    exact ⟨by omega, by omega⟩
  · rw [Bool.not_not]
    rfl
  · exact hFlags.lane i hType (by simpa using hOld)
  · exact hFlags.new (by simpa using hNew)
  · exact hClean hEnd (by simpa using hOld)

/-- A packet on a lane makes its next consume pass. -/
theorem Sim.consume (h : Sim job d s a) (hMode : d.fifo = true ∨ d.resends = false) {i : Fin 4}
    {pre post : List (Flight job.n)} {f : Flight job.n} {st : PassState}
    {regs after : Registers} {out : Emission} (hi : i ≠ 0) (hRecirc : s.recirc = pre ++ f :: post)
    (hFifo : d.fifo = true → ∀ g ∈ pre, g.port ≠ f.port)
    (hPass : ConsumePass job (s.regs i) after i f.tag st regs out) (hMd : st.md = f.pkt.md)
    (hClean : i.val + 1 = job.pipes → f.dup = true →
      (s.regs i).workerCount (job.pool f.tag.chunk) ≠ 1)
    {s' : SlotState job.n} (hs' : s' =
      { s with recirc := pre ++ post, regs := Function.update s.regs i after }.emit
        f.id f.tag (.consume i) out)
    (hWf : WellFormed job s') : ∃ a', Sim job d s' a' := by
  have hType : f.pkt.md.packetType = .consume i := hMd ▸ hPass.type
  have hSub : ∀ g ∈ pre ++ post, g ∈ s.recirc := by
    intro g hg
    rw [hRecirc]
    rcases List.mem_append.mp hg with hg | hg <;> simp [hg]
  have hFirst := h.first_lane hMode hRecirc hFifo hi (onLane_type.mpr ⟨hType, rfl⟩)
  obtain ⟨hLane, hRel₁⟩ := h.rel.popLane hRecirc hType hFirst hi
  obtain ⟨m, hm⟩ : ∃ m, i.val = m + 1 :=
    Nat.exists_eq_succ_of_ne_zero (Fin.val_ne_zero_iff.mpr hi)
  have hLt := hPass.lt
  rw [hm] at hLt
  have hLook := h.look_lane hMode hi hPass.lt hRecirc hFifo hType hClean
  rw [← hMd] at hLook
  obtain ⟨a', hPassed, hRel'⟩ := Rel.consumePass hRel₁
    (fun g hg => h.wellFormed.flights g (hSub g hg)) h.anti
    (fun g hg => h.complete_all g (hSub g hg)) hPass { hLook with } f.id
  refine ⟨a', h.of_passed (hs' ▸ hRel') hWf ?_ hPassed rfl rfl ?_⟩
  · rw [hm] at hLane hPassed
    cases hDup : f.dup with
    | false =>
      simp only [Flight.item, hDup, Bool.not_false] at hLane hPassed
      exact .passNew m f.tag.worker hLt hLane hPassed
    | true =>
      simp only [Flight.item, hDup, Bool.not_true] at hLane hPassed
      exact .passDup m f.tag.worker hLt hLane hPassed
  · intro hOnce w' hw'
    rw [hs', SlotState.emit_sent] at hw'
    exact ⟨hw', rfl, fun hZero => absurd (Fin.ext hZero) hi⟩

-- ---------------------------------------------------------------------------
-- Harvest passes
-- ---------------------------------------------------------------------------

/-- A harvest pass leaves the slot as it is and is logged. -/
theorem Rel.logHarvest (h : Rel job d s a) {regs : Fin 4 → Registers} {e : Event job.n} {j : Fin 8}
    (hAnti : ∀ i : Fin 4, i.val < job.pipes → ∀ w, a.count i w ≤ a.count 0 w)
    (hAll : ∀ f ∈ s.recirc, ∀ j, f.onHarvest j = true → f.reply.1 = .all →
      ∀ w, f.tag.chunk < a.count 0 w)
    (hRegs : ∀ i, SameSlot job.slot (s.regs i) (regs i)) (hTy : e.ty = .harvest j)
    (hOk : BroadcastOk job s.log e) :
    Rel job d { s with regs, log := s.log ++ [e] }
      { a with casts := a.casts ++ e.castChunk.toList } := by
  refine { h with
    casts := ?_, regs := fun i hi => ?_, consumed := fun i hi w k => ?_
    flags := fun f hf => ?_, broadcasts := .snoc h.broadcasts hOk }
  · show a.casts ++ e.castChunk.toList = (s.log ++ [e]).filterMap Event.castChunk
    rw [h.casts, List.filterMap_append]
    cases hCast : e.castChunk <;> simp [hCast]
  · refine ((h.regs i hi).congr (hRegs i)).congr_data fun w k hk => pipeSlices_append ?_ _ _
    exact (h.consumed 0 job.pipes_pos w k).mpr (Nat.lt_of_lt_of_le hk (hAnti i hi w))
  · rw [consumed_append, consumed_singleton,
      show e.isConsume i w k = false by simp [Event.isConsume, hTy], Bool.or_false]
    exact h.consumed i hi w k
  · exact (h.flags f hf).append (fun j hOn hReply w =>
      (h.consumed 0 job.pipes_pos w _).mpr (hAll f hf j hOn hReply w)) _

section HarvestMoves

variable {pre post : List (Flight job.n)} {f f' : Flight job.n} {j : Fin 8}

/-- A packet goes from one harvest pass to the next. -/
theorem Rel.shift (h : Rel job d s a) (f' : Flight job.n)
    (hRecirc : s.recirc = pre ++ f :: post) (hj : j ≠ 0) (hj' : j ≠ 7)
    (hType : f.pkt.md.packetType = .harvest j)
    (hType' : f'.pkt.md.packetType = .harvest (j + 1))
    (hFirst : ∀ g ∈ pre, g.onHarvest j = false) (hReply : f'.reply = f.reply)
    (hFlags : FlagsOk job s.log f') : Rel job d { s with recirc := pre ++ post ++ [f'] } a := by
  refine { h with lane := fun i w hi => ?_, harvest := ?_, flags := fun g hg => ?_ }
  · rw [h.lane i w hi, hRecirc, filter_skip (onLane_of_harvest hType i w),
      filter_snoc_skip (onLane_of_harvest hType' i w)]
  · rw [h.harvest, hRecirc]
    exact (harvestQueue_shift hj hj' hType hType' hFirst hReply).symm
  · rcases List.mem_append.mp hg with hg | hg
    · refine h.flags g ?_
      rw [hRecirc]
      rcases List.mem_append.mp hg with hg | hg <;> simp [hg]
    · rw [List.mem_singleton.mp hg]
      exact hFlags

/-- A packet leaves the harvest. -/
theorem Rel.popHarvest (h : Rel job d s a) (hRecirc : s.recirc = pre ++ f :: post)
    (hType : f.pkt.md.packetType = .harvest 7) (hFirst : ∀ g ∈ pre, g.onHarvest 7 = false) :
    a.harvest = f.reply :: (harvestQueue (pre ++ post)).map Flight.reply ∧
      Rel job d { s with recirc := pre ++ post }
        { a with harvest := (harvestQueue (pre ++ post)).map Flight.reply } := by
  refine ⟨?_, { h with lane := fun i w hi => ?_, harvest := rfl, flags := fun g hg => ?_ }⟩
  · rw [h.harvest, hRecirc, harvestQueue_head hType hFirst, List.map_cons]
  · rw [h.lane i w hi, hRecirc, filter_skip (onLane_of_harvest hType i w)]
  · refine h.flags g ?_
    rw [hRecirc]
    rcases List.mem_append.mp hg with hg | hg <;> simp [hg]

/-- A slice that a harvest pass reads from a full slot. -/
theorem Rel.harvestSlice (h : Rel job d s a) {k : ℕ} (hj : job.firstHarvest ≤ j)
    (hUses : d.uses job (job.set k)) (hC : ∀ i < job.pipes, Staged.Complete a i k)
    (hLe : ∀ i : Fin 4, i.val < job.pipes → ∀ w, a.count i w ≤ k + 2) :
    harvestSlice (s.regs (harvestPipe j)) (job.pool k) j = aggregateSlice s.log k (7 - j.val) := by
  have hPipe : (harvestPipe j).val < job.pipes := by
    unfold Job.firstHarvest at hj
    unfold Job.pipes
    cases hLarge : job.large with
    | true => exact (harvestPipe j).isLt
    | false =>
      rw [hLarge] at hj
      obtain rfl : j = 7 := by
        have : (7 : Fin 8) ≤ j := hj
        omega
      decide
  funext l
  have hSig := h.significands hPipe hUses (hC _ hPipe) (hLe _ hPipe) l
  have hVal : (harvestPipe j).val = (7 - j.val) / 2 := rfl
  unfold SwitchML.harvestSlice
  rw [hSig]
  have hj8 := j.isLt
  split
  · rw [show 2 * (harvestPipe j).val + 1 = 7 - j.val by omega]
  · rw [show 2 * (harvestPipe j).val = 7 - j.val by omega]

theorem FlightOk.firstHarvest_le (h : FlightOk job f) (hType : f.pkt.md.packetType = .harvest j) :
    job.firstHarvest ≤ j := by
  rcases h.route with ⟨i, -, -, hConsume, -⟩ | ⟨j', hLe, hHarvest, -⟩
  · rw [hType] at hConsume
    exact absurd hConsume (by simp)
  · rw [hType] at hHarvest
    exact PacketType.harvest.inj hHarvest ▸ hLe

/-- A packet on its way to a broadcast takes the next slice of the aggregate. -/
theorem Sim.harvested_payload (h : Sim job d s a) (hMem : f ∈ s.recirc) {ty : PacketType}
    {pkt : Packet} (hType : f.pkt.md.packetType = .harvest j) (hReply : f.reply.1 = .all)
    (hPkt : Harvested job (s.regs (harvestPipe j)) j f ty pkt) :
    pkt.payload = (aggregate job s.log f.tag.chunk).drop (7 - j.val) := by
  have hOn := onHarvest_type.mpr hType
  have hFirst := (h.wellFormed.flights f hMem).firstHarvest_le hType
  obtain ⟨hC, hPos⟩ := h.complete hMem hOn (by simp [hReply])
  have hSent : f.tag.chunk ≤ a.pos ⟨0, job.n_pos⟩ := by
    have := hC 0 job.pipes_pos ⟨0, job.n_pos⟩
    have := h.inv.count_le ⟨0, job.n_pos⟩
    omega
  have hLe : ∀ i : Fin 4, i.val < job.pipes → ∀ w, a.count i w ≤ f.tag.chunk + 2 := by
    intro i hi w
    have := h.anti i hi w
    have := h.inv.count_le w
    have := hPos w
    omega
  have hSlices : 7 - j.val < job.slices := by
    unfold Job.firstHarvest at hFirst
    unfold Job.slices Job.pipes
    cases hLarge : job.large with
    | true => simp; omega
    | false =>
      have : (7 : Fin 8) ≤ j := by simpa [hLarge] using hFirst
      simp
      omega
  rw [hPkt.payload, h.rel.harvestSlice hFirst (h.uses hSent) hC hLe,
    (h.rel.flags f hMem).payload j hType hReply, aggregate_drop _ _ hSlices,
    show 7 - j.val + 1 = 8 - j.val by omega]

theorem Harvested.reply {regs : Registers} {ty : PacketType} {pkt : Packet}
    (hPkt : Harvested job regs j f ty pkt) (port : PortId) :
    Flight.reply ⟨f.id, f.tag, port, pkt⟩ = f.reply := by
  simp only [Flight.reply, Flight.dup, hPkt.dup, hPkt.first]

/-- A packet makes a harvest pass other than the last. -/
theorem Sim.harvestOn (h : Sim job d s a) (hMode : d.fifo = true ∨ d.resends = false)
    {after : Registers} {out : Emission} (hj : j ≠ 0) (hj' : j ≠ 7)
    (hRecirc : s.recirc = pre ++ f :: post) (hFifo : d.fifo = true → ∀ g ∈ pre, g.port ≠ f.port)
    (hPass : HarvestPass job (s.regs (harvestPipe j)) after j f out) {s' : SlotState job.n}
    (hs' : s' =
      { s with recirc := pre ++ post, regs := Function.update s.regs (harvestPipe j) after }.emit
        f.id f.tag (.harvest j) out)
    (hWf : WellFormed job s') : Sim job d s' a := by
  have hMem : f ∈ s.recirc := by rw [hRecirc]; simp
  have hFlags := h.rel.flags f hMem
  obtain ⟨pkt, hPkt, rfl⟩ := hPass.continues hj'
  have hFirst := h.first_harvest hMode hRecirc hFifo (onHarvest_type.mpr hPass.type)
  have hLog := h.rel.logHarvest (e := ⟨f.id, f.tag, .harvest j,
      .recirculated (job.harvestPort (j + 1)) pkt⟩) h.anti h.complete_all
    (sameSlot_update job.slot hPass.leaves) rfl (fun _ hCast => by simp [Event.broadcast?] at hCast)
  rw [show Event.castChunk _ = none from rfl, Option.toList_none, List.append_nil] at hLog
  have hSucc : (j + 1).val = j.val + 1 := Fin.val_add_one_of_lt' (by omega)
  have hShift := hLog.shift ⟨f.id, f.tag, job.harvestPort (j + 1), pkt⟩ hRecirc hj hj'
    hPass.type hPkt.type hFirst (hPkt.reply _) ?_
  · subst hs'
    exact ⟨hShift, hWf, h.inv, h.single, h.turn, h.idle⟩
  · refine ⟨fun i hType => ?_, fun _ _ hNew => ?_, fun hNew => ?_, fun j₂ hType hReply => ?_⟩
    · rw [hPkt.type] at hType
      exact absurd hType (by simp)
    · rw [hPkt.last]
      exact hFlags.harvest j hPass.type (by rw [← hNew]; exact hPkt.dup.symm)
    · exact firstProcessed_eq_some_append
        (hFlags.new (by rw [← hNew]; exact hPkt.dup.symm)) _
    · have hReply' : f.reply.1 = .all := by rw [← hReply, hPkt.reply]
      have hAll := fun w => (h.rel.consumed 0 job.pipes_pos w _).mpr
        (h.complete_all f hMem j (onHarvest_type.mpr hPass.type) hReply' w)
      rw [hPkt.type] at hType
      obtain rfl := PacketType.harvest.inj hType
      show pkt.payload = (aggregate job (s.log ++ _) f.tag.chunk).drop _
      rw [h.harvested_payload hMem hPass.type hReply' hPkt, aggregate_append hAll,
        show 8 - (j + 1).val = 7 - j.val by omega]

theorem Job.workerId_inj {w w' : Fin job.n} :
    BitVec.ofNat 16 w.val = BitVec.ofNat 16 w'.val ↔ w = w' := by
  have hw := Nat.lt_of_lt_of_le w.isLt job.n_le_32
  have hw' := Nat.lt_of_lt_of_le w'.isLt job.n_le_32
  rw [← BitVec.toNat_inj, BitVec.toNat_ofNat, BitVec.toNat_ofNat, Nat.mod_eq_of_lt (by omega),
    Nat.mod_eq_of_lt (by omega), Fin.ext_iff]

/-- What the last harvest pass emits, and for whom. -/
theorem HarvestPass.emits {before after : Registers} {out : Emission}
    (hPass : HarvestPass job before after 7 f out) (hFlags : FlagsOk job log f) :
    (f.reply.1 = .all → ∃ pkt, Harvested job before 7 f .broadcast pkt ∧
      out = .multicast job.mgid pkt) ∧
    (∀ w, f.reply.1 = .one w → ∃ pkt, Harvested job before 7 f .retransmit pkt ∧
      out = .unicast (job.port f.tag.worker) pkt) ∧
    (f.reply.1 = .nobody → out = .dropped) := by
  have hEnds := hPass.ends rfl
  have hLast := hFlags.harvest 7 hPass.type
  unfold Flight.reply
  cases hDup : f.dup with
  | false =>
    rw [hDup, hLast hDup] at hEnds
    cases hFirst : f.pkt.md.firstFlag <;> simp_all
  | true =>
    rw [hDup] at hEnds
    cases hFirst : f.pkt.md.firstFlag <;> simp_all

/-- A packet makes the last harvest pass: a reply leaves the queue. -/
theorem Sim.harvestLast (h : Sim job d s a) (hMode : d.fifo = true ∨ d.resends = false)
    {after : Registers} {out : Emission} (hRecirc : s.recirc = pre ++ f :: post)
    (hFifo : d.fifo = true → ∀ g ∈ pre, g.port ≠ f.port)
    (hPass : HarvestPass job (s.regs (harvestPipe 7)) after 7 f out) {s' : SlotState job.n}
    (hs' : s' =
      { s with recirc := pre ++ post, regs := Function.update s.regs (harvestPipe 7) after }.emit
        f.id f.tag (.harvest 7) out)
    (hWf : WellFormed job s') : ∃ a', Sim job d s' a' := by
  have hMem : f ∈ s.recirc := by rw [hRecirc]; simp
  have hFlags := h.rel.flags f hMem
  have hOn := onHarvest_type.mpr hPass.type
  have hFirst := h.first_harvest hMode hRecirc hFifo hOn
  obtain ⟨hEmitAll, hEmitOne, hEmitNone⟩ := hPass.emits hFlags
  obtain ⟨hHead, -⟩ := h.rel.popHarvest hRecirc hPass.type hFirst
  obtain ⟨dest, hDest⟩ : ∃ dest, f.reply = (dest, f.tag.chunk) := ⟨f.reply.1, rfl⟩
  have hReply : f.reply.1 = dest := by rw [hDest]
  rw [hDest] at hHead
  have hStep : Staged.Step job.pipes (!d.resends) a _ := .reply hHead
  refine ⟨_, ?_, hWf, h.inv.step job.pipes_pos hStep, fun hOnce => ?_, ?_, h.idle⟩
  · have hLog : BroadcastOk job s.log ⟨f.id, f.tag, .harvest 7, out⟩ → Rel job d
        { s with
          regs := Function.update s.regs (harvestPipe 7) after
          log := s.log ++ [⟨f.id, f.tag, .harvest 7, out⟩]
          recirc := pre ++ post }
        { a with
          casts := a.casts ++ (Event.castChunk (n := job.n) ⟨f.id, f.tag, .harvest 7, out⟩).toList
          harvest := (harvestQueue (pre ++ post)).map Flight.reply } := fun hOk =>
      ((h.rel.logHarvest h.anti h.complete_all (sameSlot_update job.slot hPass.leaves) rfl
        hOk).popHarvest hRecirc hPass.type hFirst).2
    cases dest with
    | all =>
      obtain ⟨pkt, hPkt, rfl⟩ := hEmitAll hReply
      have hRel := hLog fun pkt' hCast => ?_
      · subst hs'
        refine { hRel with down := fun w => ?_ }
        show a.down w ++ [f.tag.chunk] = (s.downlink w ++ [(f.tag.chunk, pkt)]).map Prod.fst
        rw [List.map_append, h.rel.down w]
        rfl
      · obtain rfl : pkt = pkt' := Option.some.inj hCast
        refine ⟨fun i hi w => ?_, ?_⟩
        · exact (h.rel.consumed i hi w _).mpr ((h.complete hMem hOn (by simp [hReply])).1 i hi w)
        · exact h.harvested_payload hMem hPass.type hReply hPkt
    | one w =>
      obtain ⟨pkt, hPkt, rfl⟩ := hEmitOne w hReply
      have hRel := hLog fun pkt' hCast => by simp [Event.broadcast?] at hCast
      obtain ⟨-, hWorker⟩ := Flight.reply_one.mp hReply
      subst hs'
      refine { hRel with down := fun w' => ?_, casts := ?_ }
      · show (if w' = w then a.down w' ++ [f.tag.chunk] else a.down w') =
          (if BitVec.ofNat 16 w' = pkt.md.workerId then s.downlink w' ++ [(f.tag.chunk, pkt)]
            else s.downlink w').map Prod.fst
        rw [hPkt.md.workerId, hWorker, h.rel.down w']
        simp only [Job.workerId_inj]
        split
        · rw [List.map_append]
          rfl
        · rfl
      · exact (List.append_nil a.casts).symm.trans hRel.casts
    | nobody =>
      obtain rfl := hEmitNone hReply
      have hRel := hLog fun pkt' hCast => by simp [Event.broadcast?] at hCast
      subst hs'
      exact { hRel with casts := (List.append_nil a.casts).symm.trans hRel.casts }
  · rw [hOnce] at hStep
    exact (h.single hOnce).step h.inv job.pipes_pos hStep
  · subst hs'
    rw [SlotState.emit_sent]
    exact h.turn

end HarvestMoves

-- ---------------------------------------------------------------------------
-- Moves and runs
-- ---------------------------------------------------------------------------

/-- **Step lemma.** A move of the slot machine is a step of the protocol, or changes
nothing that the protocol knows of. -/
theorem Sim.move (h : Sim job d s a) (hMode : d.fifo = true ∨ d.resends = false)
    {s' : SlotState job.n} (hMove : SlotMove job d s s') : ∃ a', Sim job d s' a' := by
  have hWf := hMove.wellFormed h.wellFormed
  cases hMove with
  | stay hRegs => exact ⟨a, h.rel.stay hRegs, hWf, h.inv, h.single, h.turn, h.idle⟩
  | send w hSend hFree => exact ⟨_, h.send hFree hWf⟩
  | loseUp w hl hRegs => exact ⟨_, h.loseUp hl hRegs hWf⟩
  | loseDown w hl => exact ⟨_, h.loseDown hl hWf⟩
  | advance w hDown hAdv hPool => exact h.advance hDown hAdv hPool hWf
  | arrive w hUp hPass hExp hFlags =>
    exact h.arrive hUp hPass ⟨hFlags.1, hFlags.2.1⟩ rfl hWf
  | consume i hi hRecirc hFifo hPass hMd hExp hClean =>
    exact h.consume hMode hi hRecirc hFifo hPass hMd hClean rfl hWf
  | harvest j hj hRecirc hFifo hPass =>
    by_cases hLast : j = 7
    · subst hLast
      exact h.harvestLast hMode hRecirc hFifo hPass rfl hWf
    · exact ⟨a, h.harvestOn hMode hj hLast hRecirc hFifo hPass rfl hWf⟩

/-- No step of a run is a misread. -/
def cleanRun (job : Job) (d : Discipline) : SlotState job.n → List (SlotLabel job.n) → Bool
  | _, [] => true
  | s, label :: labels => !misreads job d s label && cleanRun job d (slotStep job d s label) labels

theorem cleanRun_cons {label : SlotLabel job.n} {labels : List (SlotLabel job.n)} :
    cleanRun job d s (label :: labels) = true ↔
      misreads job d s label = false ∧ cleanRun job d (slotStep job d s label) labels = true := by
  simp [cleanRun]

/-- **Run lemma.** What moves keep holds after every run without misreads. -/
theorem Sim.run_invariant {P : SlotState job.n → Prop} (hMode : d.fifo = true ∨ d.resends = false)
    (hP : ∀ s a s', Sim job d s a → P s → SlotMove job d s s' → P s')
    (h : Sim job d s a) (hInit : P s) {labels : List (SlotLabel job.n)}
    (hClean : cleanRun job d s labels = true) :
    P (slotRun job d s labels) ∧ ∃ a', Sim job d (slotRun job d s labels) a' := by
  induction labels generalizing s a with
  | nil => exact ⟨hInit, a, h⟩
  | cons label labels ih =>
    obtain ⟨hHere, hRest⟩ := cleanRun_cons.mp hClean
    have hMove := slotStep_move h.wellFormed hHere
    obtain ⟨a', h'⟩ := h.move hMode hMove
    exact ih h' (hP s a _ h hInit hMove) hRest

theorem Sim.run (h : Sim job d s a) (hMode : d.fifo = true ∨ d.resends = false)
    {labels : List (SlotLabel job.n)} (hClean : cleanRun job d s labels = true) :
    ∃ a', Sim job d (slotRun job d s labels) a' :=
  (h.run_invariant (P := fun _ => True) hMode (fun _ _ _ _ _ _ => trivial) trivial hClean).2

end SwitchML
