import SwitchML.Protocol.Once

/-!
# SwitchML protocol — what the workers get back

Nothing is lost or sent again. Then a worker finds at most one reply on its downlink, and it
is the one to the chunk it waits for: the sums of what all workers have sent for the chunk,
with the address that one of them has put into its packet. What is known of the packets that
the workers send is a parameter, `P`.

* `switchmlPass_addr` — no pass changes the address of a packet;
* `Served` — what is known of a slot; `Served.stay` and `Served.step` are the step lemmas;
* `Served.reply` — what is known of a reply;
* `arriveStep_frame`, `recirculateStep_frame` — the packets of a slot leave the registers of
  all other slots as they are.
-/

namespace SwitchML

open MatchAction
open scoped BigOperators

-- ---------------------------------------------------------------------------
-- Addresses
-- ---------------------------------------------------------------------------

/-- The packet that leaves a pass. -/
def Emission.packet? : Emission → Option Packet
  | .recirculated _ pkt | .multicast _ pkt | .unicast _ pkt => some pkt
  | .dropped | .forwarded => none

theorem emission_packet {st : PassState} {pkt : Packet}
    (h : (emission st).packet? = some pkt) : pkt.rdmaMd = st.rdmaMd := by
  have hAll : ∀ out, emission st = out → out.packet? = some pkt → pkt = deparse st := by
    rintro out rfl hPkt
    unfold emission at hPkt
    repeat' split at hPkt
    all_goals first
      | exact (Option.some.inj hPkt).symm
      | cases hPkt
  rw [hAll _ rfl h]
  rfl

section Addresses

variable (regs : Registers) (st : PassState)

theorem checkSlot_rdmaMd : (checkSlot regs st).2.rdmaMd = st.rdmaMd := by
  have hBitmap : (updateAndCheckWorkerBitmap regs st).2.rdmaMd = st.rdmaMd := by
    unfold updateAndCheckWorkerBitmap
    dsimp only
    split <;> rfl
  have hCount : ∀ regs st, (countWorkers regs st).2.rdmaMd = st.rdmaMd := by
    intro regs st
    unfold countWorkers
    dsimp only
    split <;> rfl
  unfold checkSlot
  split
  · exact (hCount _ _).trans hBitmap
  · rfl

theorem exponentMax_rdmaMd : (exponentMax regs st).2.rdmaMd = st.rdmaMd := by
  unfold exponentMax
  dsimp only
  split <;> rfl

theorem nextStep_rdmaMd (alternate : Option PortId) :
    (nextStep alternate st).rdmaMd = st.rdmaMd := by
  unfold nextStep
  cases lookup .drop (nextStepKey alternate st) nextStepEntries <;> rfl

/-- A pass may give the packet a sequence number, but it does not change its address. -/
theorem switchmlPass_addr (cfg : SwitchConfig) :
    (switchmlPass cfg regs st).2.rdmaMd.addr = st.rdmaMd.addr := by
  have hProcess : ∀ regs st, (processSlot cfg regs st).2.rdmaMd.addr = st.rdmaMd.addr := by
    intro regs st
    have hExponents :
        (if st.md.lastPacketOfMessage then exponentMax regs st else (regs, st)).2.rdmaMd =
          st.rdmaMd := by
      split
      · exact exponentMax_rdmaMd regs st
      · rfl
    unfold processSlot
    generalize (if st.md.lastPacketOfMessage then exponentMax regs st else (regs, st)) = first
      at hExponents ⊢
    have hNext : (nextStep cfg.alternateRecircPort (significandSums first.1 first.2).2).rdmaMd =
        st.rdmaMd := (nextStep_rdmaMd _ _).trans hExponents
    dsimp only
    split
    · show (nextStep _ _).rdmaMd.addr = _
      rw [hNext]
    · rw [hNext]
  unfold switchmlPass
  dsimp only
  split
  · rw [checkSlot_rdmaMd]
  · split
    · rw [hProcess, checkSlot_rdmaMd]
    · rw [checkSlot_rdmaMd]

end Addresses

theorem recirculate_addr {cfg : SwitchConfig} {port : PortId} {pkt out : Packet}
    {regs : Registers} (h : (recirculate cfg port pkt regs).2.packet? = some out) :
    out.rdmaMd.addr = pkt.rdmaMd.addr := by
  unfold recirculate at h
  cases hParse : parseRecirculate cfg port pkt with
  | none => simp [hParse, Emission.packet?] at h
  | some st =>
    have hAddr : st.rdmaMd = pkt.rdmaMd := by
      unfold parseRecirculate at hParse
      dsimp only at hParse
      split at hParse
      · split at hParse
        all_goals first
          | rw [← Option.some.inj hParse]
          | cases hParse
      · cases hParse
    have hBitmap : (reconstructWorkerBitmap st).rdmaMd = st.rdmaMd := by
      rw [reconstructWorkerBitmap_fields]
    rw [hParse] at h
    dsimp only at h
    split at h
    · simp [Emission.packet?] at h
    · rw [emission_packet h, switchmlPass_addr]
      split
      · rw [hBitmap, hAddr]
      · rw [hAddr]

theorem receiveRoce_addr {job : Job} {w : Fin job.n} {k : ℕ} {rp : RocePacket} {out : Packet}
    {regs : Registers} (hSend : job.sendable w k rp = true)
    (h : (receiveRoce job.config {} (job.port w) rp regs).2.packet? = some out) :
    out.rdmaMd.addr = rp.reth.addr := by
  simp only [Job.sendable, Bool.and_eq_true, decide_eq_true_eq] at hSend
  obtain ⟨⟨⟨hMatch, hOp⟩, -⟩, -⟩ := hSend
  unfold receiveRoce at h
  cases hParse : parseRoce job.config (job.port w) rp with
  | none => simp [hParse, Emission.packet?] at h
  | some st =>
    obtain ⟨hIn, hEg⟩ : st.ingressDropProbability = 0 ∧ st.egressDropProbability = 0 := by
      unfold parseRoce at hParse
      repeat' split at hParse
      all_goals first
        | rw [← Option.some.inj hParse]; exact ⟨rfl, rfl⟩
        | cases hParse
    rw [hParse] at h
    dsimp only at h
    rw [emission_packet h, switchmlPass_addr, firstPass_state regs st hMatch hOp hIn hEg]

-- ---------------------------------------------------------------------------
-- What is known of a slot
-- ---------------------------------------------------------------------------

/-- The chunks that were broadcast, in order. -/
def castChunks {n : ℕ} (log : List (Event n)) : List ℕ := log.filterMap Event.castChunk

/-- What is known of the packets of a slot: `P w k rp` of every packet `rp` that worker `w` has
sent for chunk `k`. A worker takes the broadcasts one after the other. -/
structure Accounts (job : Job) (P : Fin job.n → ℕ → RocePacket → Prop) (s : SlotState job.n) :
    Prop where
  uplink : ∀ w, ∀ x ∈ s.uplink w, P w x.1 x.2
  flights : ∀ f ∈ s.recirc, P f.tag.worker f.tag.chunk f.tag.sent ∧
    f.pkt.rdmaMd.addr = f.tag.sent.reth.addr
  log : ∀ e ∈ s.log, P e.tag.worker e.tag.chunk e.tag.sent ∧
    ∀ pkt, e.broadcast? = some pkt → pkt.rdmaMd.addr = e.tag.sent.reth.addr
  downlink : ∀ w, ∀ x ∈ s.downlink w, ∃ e ∈ s.log, e.broadcast? = some x.2 ∧ e.tag.chunk = x.1
  taken_le : ∀ w, s.pos w ≤ (castChunks s.log).length
  taken : ∀ w, (s.downlink w).map Prod.fst = (castChunks s.log).drop (s.pos w)

/-- A slot of a run in which nothing is lost or sent again. -/
structure Served (job : Job) (P : Fin job.n → ℕ → RocePacket → Prop) (s : SlotState job.n) :
    Prop extends Accounts job P s where
  sim : ∃ a, Sim job .reliable s a
  new : AllNew s
  no_retransmission : ∀ e ∈ s.log, e.retransmit? = none

theorem served_initial (job : Job) (P : Fin job.n → ℕ → RocePacket → Prop) :
    Served job P .initial where
  sim := ⟨_, sim_initial job .reliable⟩
  new f hf := by cases hf
  no_retransmission e he := by cases he
  uplink w x hx := by cases hx
  flights f hf := by cases hf
  log e he := by cases he
  downlink w x hx := by cases hx
  taken_le _ := Nat.le_refl 0
  taken _ := rfl

section Known

variable {job : Job} {P : Fin job.n → ℕ → RocePacket → Prop} {s : SlotState job.n}

/-- Numbers that grow are not below their places. -/
theorem le_getElem_of_pairwise {l : List ℕ} (h : l.Pairwise (· < ·)) {i : ℕ} (hi : i < l.length) :
    i ≤ l[i] := by
  induction i with
  | zero => exact Nat.zero_le _
  | succ i ih =>
    have hLt := List.pairwise_iff_getElem.mp h i (i + 1) (by omega) hi (Nat.lt_succ_self i)
    exact Nat.lt_of_le_of_lt (ih (by omega)) hLt

/-- **A reply.** It is to the chunk that the worker waits for, and has the sums of what the
workers have sent for it. -/
theorem Served.reply (h : Served job P s) {w : Fin job.n} {k : ℕ} {pkt : Packet}
    (hMem : (k, pkt) ∈ s.downlink w) :
    k = s.pos w ∧ s.sent w = true ∧ pkt.md.poolIndex = job.pool k ∧
      (∃ v rp, P v k rp ∧ pkt.rdmaMd.addr = rp.reth.addr) ∧
      ∃ rps : Fin job.n → RocePacket, (∀ v, P v k (rps v)) ∧
        pkt.payload = (List.range job.slices).map fun j x =>
          ∑ v, (rps v).payload.getD j (fun _ => 0) x := by
  obtain ⟨a, hSim⟩ := h.sim
  obtain ⟨e, he, hCast, rfl⟩ := h.downlink w (k, pkt) hMem
  obtain ⟨pre, post, hLog⟩ := List.append_of_mem he
  obtain ⟨hAll, hPayload⟩ := hSim.broadcast_correct hLog hCast
  have hTaken : s.pos w ≤ e.tag.chunk ∧ e.tag.chunk < a.count 0 w := by
    have hDown : e.tag.chunk ∈ (s.downlink w).map Prod.fst := List.mem_map_of_mem hMem
    refine ⟨?_, (hSim.inv.down_mem w _ (hSim.rel.down w ▸ hDown)).1 0 job.pipes_pos w⟩
    rw [h.taken w, List.mem_iff_getElem] at hDown
    obtain ⟨i, hi, hEq⟩ := hDown
    rw [List.getElem_drop] at hEq
    have hSorted := hSim.inv.casts_sorted
    rw [hSim.rel.casts, ← castChunks] at hSorted
    have hLe := le_getElem_of_pairwise hSorted (i := s.pos w + i) (by
      rw [List.length_drop] at hi
      omega)
    rw [hEq] at hLe
    omega
  have hCount := hSim.inv.count_le w
  rw [hSim.rel.pos] at hCount
  refine ⟨by omega, ?_, hSim.wellFormed.downlink w _ hMem,
    ⟨_, _, (h.log e he).1, (h.log e he).2 pkt hCast⟩, ?_⟩
  · by_contra hNot
    have hTurn := (hSim.turn rfl w (Bool.not_eq_true _ ▸ hNot)).2
    rw [hSim.rel.pos] at hTurn
    omega
  · have hFirst : ∀ v, ∃ rp, firstProcessed pre v e.tag.chunk = some rp ∧ P v e.tag.chunk rp := by
      intro v
      obtain ⟨rp, hFirst⟩ := exists_firstProcessed (hAll 0 job.pipes_pos v)
      refine ⟨rp, hFirst, ?_⟩
      obtain ⟨e', hFind, rfl⟩ := Option.map_eq_some_iff.mp hFirst
      have hEvent := List.find?_some hFind
      simp only [Event.isConsume, Bool.and_eq_true, decide_eq_true_eq] at hEvent
      rw [← hEvent.1.2, ← hEvent.2]
      exact (h.log e' (by rw [hLog]; simp [List.mem_of_find?_eq_some hFind])).1
    choose rps hFirst hP using hFirst
    refine ⟨rps, hP, ?_⟩
    rw [hPayload]
    refine List.map_congr_left fun j _ => funext fun x => ?_
    simp only [aggregateSlice, firstSlice, hFirst]

-- ---------------------------------------------------------------------------
-- Steps
-- ---------------------------------------------------------------------------

/-- A pass ends with a packet that has the address it came with, and nothing is
retransmitted. -/
theorem Accounts.emit (h : Accounts job P s) {id : ℕ} {tag : Tag job.n} {ty : PacketType}
    {out : Emission} (hTag : P tag.worker tag.chunk tag.sent)
    (hAddr : ∀ pkt, out.packet? = some pkt → pkt.rdmaMd.addr = tag.sent.reth.addr)
    (hNone : Event.retransmit? ⟨id, tag, ty, out⟩ = none) :
    Accounts job P (s.emit id tag ty out) := by
  have hLog : ∀ e ∈ s.log ++ [⟨id, tag, ty, out⟩], P e.tag.worker e.tag.chunk e.tag.sent ∧
      ∀ pkt, e.broadcast? = some pkt → pkt.rdmaMd.addr = e.tag.sent.reth.addr := by
    intro e he
    rcases List.mem_append.mp he with he | he
    · exact h.log e he
    · rw [List.mem_singleton.mp he]
      refine ⟨hTag, fun pkt hCast => hAddr pkt ?_⟩
      cases out <;> simp_all [Event.broadcast?, Emission.packet?]
  have hOld : ∀ w, ∀ x ∈ s.downlink w, ∃ e ∈ s.log ++ [⟨id, tag, ty, out⟩],
      e.broadcast? = some x.2 ∧ e.tag.chunk = x.1 := by
    intro w x hx
    obtain ⟨e, he, hCast⟩ := h.downlink w x hx
    exact ⟨e, List.mem_append_left _ he, hCast⟩
  have hCasts : castChunks (s.log ++ [⟨id, tag, ty, out⟩]) =
      castChunks s.log ++ (Event.castChunk ⟨id, tag, ty, out⟩).toList := by
    cases hCast : Event.castChunk (⟨id, tag, ty, out⟩ : Event job.n) <;>
      simp [castChunks, List.filterMap_append, hCast]
  cases out with
  | unicast port pkt => cases hNone
  | dropped | forwarded =>
    rw [show Event.castChunk _ = none from rfl, Option.toList_none, List.append_nil] at hCasts
    refine ⟨h.uplink, h.flights, hLog, hOld, fun w => ?_, fun w => ?_⟩
    · exact hCasts ▸ h.taken_le w
    · exact hCasts ▸ h.taken w
  | recirculated port pkt =>
    rw [show Event.castChunk _ = none from rfl, Option.toList_none, List.append_nil] at hCasts
    refine ⟨h.uplink, fun f hf => ?_, hLog, hOld, fun w => ?_, fun w => ?_⟩
    · rcases List.mem_append.mp hf with hf | hf
      · exact h.flights f hf
      · rw [List.mem_singleton.mp hf]
        exact ⟨hTag, hAddr pkt rfl⟩
    · exact hCasts ▸ h.taken_le w
    · exact hCasts ▸ h.taken w
  | multicast group pkt =>
    rw [show Event.castChunk _ = some tag.chunk from rfl, Option.toList_some] at hCasts
    refine ⟨h.uplink, h.flights, hLog, fun w x hx => ?_, fun w => ?_, fun w => ?_⟩
    · rcases List.mem_append.mp hx with hx | hx
      · exact hOld w x hx
      · rw [List.mem_singleton.mp hx]
        exact ⟨_, List.mem_append_right _ (List.mem_singleton_self _), rfl, rfl⟩
    · show s.pos w ≤ (castChunks (s.log ++ [_])).length
      rw [hCasts, List.length_append]
      exact Nat.le_add_right_of_le (h.taken_le w)
    · show (s.downlink w ++ [(tag.chunk, pkt)]).map Prod.fst =
        (castChunks (s.log ++ [_])).drop (s.pos w)
      rw [hCasts, List.map_append, h.taken w, List.drop_append_of_le_length (h.taken_le w)]
      rfl

theorem Accounts.arriveStep (h : Accounts job P s) (hWf : WellFormed job s) (w : Fin job.n)
    (hNone : ∀ e ∈ (arriveStep job s w).log, e.retransmit? = none) :
    Accounts job P (arriveStep job s w) := by
  unfold SwitchML.arriveStep at hNone ⊢
  cases hUp : s.uplink w with
  | nil => exact h
  | cons x rest =>
    obtain ⟨k, rp⟩ := x
    have hHead : (k, rp) ∈ s.uplink w := by rw [hUp]; exact List.mem_cons_self
    have hRest : ∀ w', ∀ x ∈ Function.update s.uplink w rest w', P w' x.1 x.2 := by
      intro w' x hx
      by_cases hw : w' = w
      · subst hw
        rw [Function.update_self] at hx
        exact h.uplink w' x (by rw [hUp]; exact List.mem_cons_of_mem _ hx)
      · rw [Function.update_of_ne hw] at hx
        exact h.uplink w' x hx
    have hAddr : ∀ pkt, (receiveRoce job.config {} (job.port w) rp (s.regs 0)).2.packet? =
        some pkt → pkt.rdmaMd.addr = rp.reth.addr :=
      fun pkt => receiveRoce_addr (hWf.uplink w _ hHead)
    rw [hUp] at hNone
    dsimp only at hNone ⊢
    generalize receiveRoce job.config {} (job.port w) rp (s.regs 0) = pass at hNone hAddr ⊢
    cases hPool : receivedPoolIndex job.config.workers rp (s.regs 0) with
    | none => exact { h with uplink := hRest }
    | some p =>
      rw [hPool] at hNone
      dsimp only at hNone ⊢
      by_cases hEq : p = job.pool k
      · rw [if_pos hEq] at hNone ⊢
        have hPopped : Accounts job P
            { s with
              uplink := Function.update s.uplink w rest
              regs := Function.update s.regs 0 pass.1
              nextId := s.nextId + 1 } := { h with uplink := hRest }
        refine hPopped.emit (h.uplink w _ hHead) hAddr (hNone _ ?_)
        rw [SlotState.emit_log]
        exact List.mem_append_right _ (List.mem_singleton_self _)
      · rw [if_neg hEq]
        exact h

theorem Accounts.recirculateStep (h : Accounts job P s) (i : ℕ)
    (hNone : ∀ e ∈ (recirculateStep job .reliable s i).log, e.retransmit? = none) :
    Accounts job P (recirculateStep job .reliable s i) := by
  unfold SwitchML.recirculateStep at hNone ⊢
  cases hGet : s.recirc[i]? with
  | none => exact h
  | some f =>
    obtain ⟨hTag, hSame⟩ := h.flights f (List.mem_of_getElem? hGet)
    have hAddr : ∀ pkt, (recirculate job.config f.port f.pkt (s.regs (pipeOf f.port))).2.packet? =
        some pkt → pkt.rdmaMd.addr = f.tag.sent.reth.addr :=
      fun pkt hPkt => (recirculate_addr hPkt).trans hSame
    rw [hGet] at hNone
    dsimp only at hNone ⊢
    generalize recirculate job.config f.port f.pkt (s.regs (pipeOf f.port)) = pass
      at hNone hAddr ⊢
    rw [if_neg (by simp [Discipline.reliable])] at hNone ⊢
    have hPopped : Accounts job P
        { s with
          recirc := s.recirc.eraseIdx i
          regs := Function.update s.regs (pipeOf f.port) pass.1 } :=
      { h with flights := fun g hg => h.flights g (List.mem_of_mem_eraseIdx hg) }
    refine hPopped.emit hTag hAddr (hNone _ ?_)
    rw [SlotState.emit_log]
    exact List.mem_append_right _ (List.mem_singleton_self _)

/-- **Step lemma.** -/
theorem Served.step (h : Served job P s) (label : SlotLabel job.n)
    (hSend : ∀ w rp, label = .send w rp → s.sent w = false → P w (s.pos w) rp) :
    Served job P (slotStep job .reliable s label) := by
  obtain ⟨a, hSim⟩ := h.sim
  have hMove := slotStep_move hSim.wellFormed (hSim.not_misreads (.inr rfl) label)
  have hOnce := hMove.once hSim rfl h.new
  have hNone := hOnce.no_retransmission h.new h.no_retransmission
  refine ⟨?_, hSim.move (.inr rfl) hMove, hOnce.allNew hSim h.new, hNone⟩
  have hStay : Accounts job P s := h.toAccounts
  cases label with
  | send w rp =>
    simp only [slotStep]
    split
    · next hFree =>
      rw [Bool.and_eq_true, Bool.not_eq_true'] at hFree
      refine { hStay with uplink := fun w' x hx => ?_ }
      by_cases hw : w' = w
      · subst hw
        simp only [Function.update_self] at hx
        rcases List.mem_append.mp hx with hx | hx
        · exact h.uplink w' x hx
        · rw [List.mem_singleton.mp hx]
          exact hSend w' rp rfl hFree.1
      · simp only [Function.update_of_ne hw] at hx
        exact h.uplink w' x hx
    · exact hStay
  | resend w rp => exact hStay
  | loseUp w i => exact hStay
  | loseDown w i => exact hStay
  | arrive w => exact hStay.arriveStep hSim.wellFormed w hNone
  | recirculate i => exact hStay.recirculateStep i hNone
  | deliver w =>
    simp only [slotStep]
    unfold deliverStep
    split
    · exact hStay
    next k pkt rest hDown =>
    have hHead : (k, pkt) ∈ s.downlink w := by rw [hDown]; exact List.mem_cons_self
    obtain ⟨hPos, -, hPool, -⟩ := h.reply hHead
    have hCasts := h.taken w
    rw [hDown, List.map_cons] at hCasts
    dsimp only
    rw [if_pos (by simp [hPool, hPos, Discipline.reliable])]
    refine { hStay with downlink := fun w' x hx => ?_, taken_le := fun w' => ?_,
                        taken := fun w' => ?_ }
    all_goals
      by_cases hw : w' = w
      swap
    · simp only [Function.update_of_ne hw] at hx
      exact h.downlink w' x hx
    · subst hw
      simp only [Function.update_self] at hx
      exact h.downlink w' x (by rw [hDown]; exact List.mem_cons_of_mem _ hx)
    · simp only [Function.update_of_ne hw]
      exact h.taken_le w'
    · subst hw
      simp only [Function.update_self]
      have hLength := congrArg List.length hCasts
      rw [List.length_cons, List.length_drop] at hLength
      omega
    · simp only [Function.update_of_ne hw]
      exact h.taken w'
    · subst hw
      simp only [Function.update_self]
      rw [← List.tail_drop, ← hCasts, List.tail_cons]
  | otherArrival port rp =>
    simp only [slotStep]
    repeat' split
    all_goals exact { hStay with }
  | otherRecirculation port pkt =>
    simp only [slotStep]
    repeat' split
    all_goals exact { hStay with }

theorem Served.arrive (h : Served job P s) (w : Fin job.n) : Served job P (arriveStep job s w) :=
  h.step (.arrive w) (by rintro w' rp' ⟨⟩)

theorem Served.recirculate (h : Served job P s) (i : ℕ) :
    Served job P (recirculateStep job .reliable s i) :=
  h.step (.recirculate i) (by rintro w' rp' ⟨⟩)

theorem Served.deliver (h : Served job P s) (w : Fin job.n) :
    Served job P (deliverStep job .reliable s w) :=
  h.step (.deliver w) (by rintro w' rp' ⟨⟩)

/-- Which chunk each worker is at, and whether it has sent it. -/
def SlotState.progress {n : ℕ} (s : SlotState n) : (Fin n → ℕ) × (Fin n → Bool) := (s.pos, s.sent)

/-- A worker that looks at a reply goes on to the next chunk. -/
theorem Served.deliver_progress (h : Served job P s) {w : Fin job.n} {x : ℕ × Packet}
    {rest : List (ℕ × Packet)} (hDown : s.downlink w = x :: rest) :
    (deliverStep job .reliable s w).progress =
      (Function.update s.pos w (s.pos w + 1), Function.update s.sent w false) := by
  obtain ⟨k, pkt⟩ := x
  obtain ⟨rfl, -, hPool, -⟩ := h.reply (by rw [hDown]; exact List.mem_cons_self)
  unfold deliverStep
  rw [hDown]
  dsimp only
  rw [if_pos (by simp [hPool, Discipline.reliable])]
  rfl

theorem deliverStep_regs (d : Discipline) (s : SlotState job.n) (w : Fin job.n) :
    (deliverStep job d s w).regs = s.regs := by
  unfold deliverStep
  split
  · rfl
  · dsimp only
    split <;> rfl

/-- Passes of packets of other slots. -/
theorem Served.stay (h : Served job P s) {regs : Fin 4 → Registers}
    (hRegs : ∀ i, SameSlot job.slot (s.regs i) (regs i)) : Served job P { s with regs } := by
  obtain ⟨a, hSim⟩ := h.sim
  exact ⟨{ h.toAccounts with }, hSim.move (.inr rfl) (.stay hRegs), h.new, h.no_retransmission⟩

/-- What the slot's own packets do to the registers of another slot. -/
theorem arriveStep_frame {slot : SlotIndex} (hSlot : job.slot ≠ slot) (w : Fin job.n)
    (i : Fin 4) : SameSlot slot (s.regs i) ((arriveStep job s w).regs i) := by
  unfold arriveStep
  split
  · exact SameSlot.refl _ _
  next k rp rest hUp =>
  dsimp only
  have hFrame : (∀ p, receivedPoolIndex job.config.workers rp (s.regs 0) = some p →
      p.slot ≠ slot) → SameSlot slot (s.regs i) (Function.update s.regs 0
        (receiveRoce job.config {} (job.port w) rp (s.regs 0)).1 i) :=
    fun hPool => sameSlot_update slot (receiveRoce_frame _ _ _ _ _ hPool) i
  split
  · next hNone => exact hFrame fun p hp => absurd (hNone.symm.trans hp) (by simp)
  next p hSome =>
  split
  · next hPool =>
    rw [SlotState.emit_regs]
    refine hFrame fun q hq => ?_
    rw [← Option.some.inj (hSome.symm.trans hq), hPool, job.pool_slot]
    exact hSlot
  · exact SameSlot.refl _ _

theorem recirculateStep_frame {slot : SlotIndex} (hSlot : job.slot ≠ slot) {d : Discipline}
    (hWf : WellFormed job s) (position : ℕ) (i : Fin 4) :
    SameSlot slot (s.regs i) ((recirculateStep job d s position).regs i) := by
  unfold recirculateStep
  split
  · exact SameSlot.refl _ _
  next f hGet =>
  split
  · exact SameSlot.refl _ _
  dsimp only
  rw [SlotState.emit_regs]
  refine sameSlot_update slot (recirculate_frame _ _ _ _ ?_) i
  rw [(hWf.flights f (List.mem_of_getElem? hGet)).md.poolIndex, job.pool_slot]
  exact hSlot

end Known

end SwitchML
