import SwitchML.Protocol.StreamReceiving

/-!
# SwitchML protocol — aggregation with messages of varying sizes

Over whole runs of a stream all slots do what the protocol does, and the receive stage is
where the packets that arrived have brought it.

* `StreamInv.step`, `StreamInv.run` — the invariant of a stream;
* `varying_sizes_aggregate` — every reply to packet `j` of a message carries the sums of the
  workers' packets `j` of that message; `earlier_message_returned` is a run of a stream whose
  second message is shorter, in which a worker gets data of the first message instead of the
  third.
-/

namespace SwitchML

open scoped BigOperators

-- ---------------------------------------------------------------------------
-- Workers
-- ---------------------------------------------------------------------------

namespace Stream

variable {x : Stream} {lossy : Bool} {w : Fin x.job.n} {k sent : ℕ} {answered : ℕ → Bool}
  {line : List (ℕ × ℕ × RocePacket)} {data : ReceiverData} {taken : ℕ → Prop}

/-- A worker at message `k`: what it has sent, what was answered, what is on its uplink, and
where the receive stage is. -/
structure WorkerOk (x : Stream) (lossy : Bool) (w : Fin x.job.n) (k sent : ℕ)
    (answered : ℕ → Bool) (line : List (ℕ × ℕ × RocePacket)) (data : ReceiverData)
    (taken : ℕ → Prop) : Prop where
  sent_le : sent ≤ x.sizes k
  answered_lt : ∀ j, answered j = true → j < sent
  packets : ∀ u ∈ line, u.2.1 = k ∧ u.1 < sent ∧ x.Sent w k u.1 u.2.2
  sorted : (line.map Prod.fst).Pairwise (· < ·)
  position : x.Position lossy w k data taken (line.map Prod.fst) sent

namespace WorkerOk

theorem send (h : x.WorkerOk lossy w k sent answered line data taken) {rp : RocePacket}
    (hSent : x.Sent w k sent rp) :
    x.WorkerOk lossy w k (sent + 1) answered (line ++ [(sent, k, rp)]) data taken where
  sent_le := hSent.lt
  answered_lt j hj := (h.answered_lt j hj).trans (Nat.lt_succ_self _)
  packets u hu := by
    rcases List.mem_append.mp hu with hu | hu
    · obtain ⟨hk, hLt, hOk⟩ := h.packets u hu
      exact ⟨hk, hLt.trans (Nat.lt_succ_self _), hOk⟩
    · rw [List.mem_singleton.mp hu]
      exact ⟨rfl, Nat.lt_succ_self _, hSent⟩
  sorted := by
    rw [List.map_append, List.pairwise_append]
    refine ⟨h.sorted, List.pairwise_singleton _ _, fun i hi i' hi' => ?_⟩
    obtain ⟨u, hu, rfl⟩ := List.mem_map.mp hi
    rw [show i' = sent by simpa using hi']
    exact (h.packets u hu).2.1
  position := by
    rw [List.map_append]
    exact h.position.send

/-- The next message, when the last packet of the message was let in and nothing is on the
way. -/
theorem next (h : x.WorkerOk lossy w k sent answered line data taken)
    (hLast : taken (x.sizes k - 1)) {taken' : ℕ → Prop}
    (hTaken : ∀ j < x.sizes (k + 1), ¬ taken' j) :
    x.WorkerOk lossy w (k + 1) 0 (fun _ => false) [] data taken' where
  sent_le := Nat.zero_le _
  answered_lt j hj := absurd hj (by simp)
  packets u hu := absurd hu (by simp)
  sorted := List.Pairwise.nil
  position := h.position.next hLast hTaken

theorem lose (h : x.WorkerOk lossy w k sent answered line data taken) (hLossy : lossy = true)
    {line' : List (ℕ × ℕ × RocePacket)} (hSub : line'.Sublist line) :
    x.WorkerOk lossy w k sent answered line' data taken :=
  { h with
    packets := fun u hu => h.packets u (hSub.subset hu)
    sorted := h.sorted.sublist (hSub.map _)
    position := h.position.lose hLossy (hSub.map _) }

theorem answer (h : x.WorkerOk lossy w k sent answered line data taken) {j : ℕ} (hj : j < sent) :
    x.WorkerOk lossy w k sent (Function.update answered j true) line data taken :=
  { h with
    answered_lt := fun i hi => by
      by_cases hEq : i = j
      · exact hEq ▸ hj
      · rw [Function.update_of_ne hEq] at hi
        exact h.answered_lt i hi }

theorem congr (h : x.WorkerOk lossy w k sent answered line data taken) {taken' : ℕ → Prop}
    (hTaken : ∀ j < x.sizes k, taken' j → taken j) :
    x.WorkerOk lossy w k sent answered line data taken' :=
  { h with position := h.position.congr hTaken }

/-- The next packet of the uplink is rejected, or let into its own slot. -/
theorem arrive {j k' : ℕ} {rp : RocePacket} {regs : Registers}
    (h : x.WorkerOk lossy w k sent answered ((j, k', rp) :: line)
      (regs.receiverData (x.qp w)) taken) :
    (receivedPoolIndex x.job.config.workers rp regs = none ∧
      x.WorkerOk lossy w k sent answered line
        (receiverAction rp (regs.receiverData (x.qp w))).1 taken) ∨
    (receivedPoolIndex x.job.config.workers rp regs = some (x.pool k j) ∧
      x.WorkerOk lossy w k sent answered line
        (receiverAction rp (regs.receiverData (x.qp w))).1 (fun i => i = j ∨ taken i)) := by
  obtain ⟨-, hLt, hSent⟩ := h.packets _ List.mem_cons_self
  have hSorted := h.sorted
  rw [List.map_cons, List.pairwise_cons] at hSorted
  have hPosition := h.position
  rw [List.map_cons] at hPosition
  have hPackets := fun u hu => h.packets u (List.mem_cons_of_mem _ hu)
  rcases hPosition.arrive hSent hLt hSorted.1 with ⟨hNone, hRest⟩ | ⟨hSome, hRest⟩
  · exact .inl ⟨hNone, h.sent_le, h.answered_lt, hPackets, hSorted.2, hRest⟩
  · exact .inr ⟨hSome, h.sent_le, h.answered_lt, hPackets, hSorted.2, hRest⟩

end WorkerOk

-- ---------------------------------------------------------------------------
-- The invariant
-- ---------------------------------------------------------------------------

variable {s s' : StreamState x.job.n}

/-- A slot of the stream does what the protocol does. -/
structure SlotOk (x : Stream) (s : StreamState x.job.n) (j : Fin x.ratio) : Prop where
  sim : ∃ a, Sim (x.slotJob j) .streaming (x.project j s) a
  new : AllNew (x.project j s)
  replies : ∀ e ∈ (x.project j s).log, e.retransmit? = none

theorem SlotOk.move {j : Fin x.ratio} (h : x.SlotOk s j)
    (hMove : SlotMove (x.slotJob j) .streaming (x.project j s) (x.project j s')) :
    x.SlotOk s' j := by
  obtain ⟨a, hSim⟩ := h.sim
  have hOnce := hMove.once hSim rfl h.new
  exact ⟨hSim.move (.inr rfl) hMove, hOnce.allNew hSim h.new,
    hOnce.no_retransmission h.new h.replies⟩

/-- Packet `j` of message `k` of worker `w` was let into its slot. -/
def Taken (x : Stream) (log : List (ℕ × Event x.job.n)) (w : Fin x.job.n) (k j : ℕ) : Prop :=
  consumed (pick (Event.inSlot (x.chunk j)) j log) 0 w (x.chunk j k) = true

/-- What is on the way is what it says. -/
structure TrafficOk (x : Stream) (s : StreamState x.job.n) : Prop where
  recirc : ∀ f ∈ s.recirc, x.Sent f.2.tag.worker f.2.tag.chunk f.1 f.2.tag.sent
  downlink : ∀ w, ∀ u ∈ s.downlink w, u.1 < x.ratio
  log : ∀ e ∈ s.log, x.Sent e.2.tag.worker e.2.tag.chunk e.1 e.2.tag.sent

/-- The invariant of a stream. -/
structure StreamInv (x : Stream) (lossy : Bool) (s : StreamState x.job.n) : Prop where
  slots : ∀ j, x.SlotOk s j
  traffic : x.TrafficOk s
  workers : ∀ w, x.WorkerOk lossy w (s.pos w) (s.sent w) (s.answered w) (s.uplink w)
    ((s.regs 0).receiverData (x.qp w)) (x.Taken s.log w (s.pos w))

theorem StreamInv.wellFormed (h : x.StreamInv lossy s) (j : Fin x.ratio) :
    WellFormed (x.slotJob j) (x.project j s) := by
  obtain ⟨a, hSim⟩ := (h.slots j).sim
  exact hSim.wellFormed

theorem StreamInv.send (h : x.StreamInv lossy s) {rp : RocePacket}
    (hSends : x.sends w (s.pos w) (s.sent w) rp = true) :
    x.StreamInv lossy
      { s with
        uplink := Function.update s.uplink w (s.uplink w ++ [(s.sent w, s.pos w, rp)])
        sent := Function.update s.sent w (s.sent w + 1) } := by
  have hSent := of_sends hSends
  have hFresh : s.answered w (s.sent w) = false := by
    by_contra hNot
    exact Nat.lt_irrefl _ ((h.workers w).answered_lt _ (Bool.not_eq_false _ ▸ hNot))
  refine ⟨fun j => (h.slots j).move (send_move j hSent hFresh), ⟨h.traffic.recirc,
    h.traffic.downlink, h.traffic.log⟩, fun w' => ?_⟩
  have hWorker := h.workers w'
  by_cases hw : w' = w
  · subst hw
    simpa only [Function.update_self] using hWorker.send hSent
  · simpa only [Function.update_of_ne hw] using hWorker

/-- A worker that has nothing more to send for a slot has had all its packets taken there. -/
theorem StreamInv.taken_iff (h : x.StreamInv lossy s) {j : ℕ} (hj : j < x.ratio)
    (hDone : (x.project j s).sent w = false) :
    (x.project j s).uplink w = [] ∧
      ∀ k, x.Taken s.log w k j ↔ x.chunk j k < (x.project j s).pos w := by
  obtain ⟨a, hSim⟩ := (h.slots ⟨j, hj⟩).sim
  obtain ⟨hUp, hCount⟩ := hSim.turn rfl w hDone
  refine ⟨List.map_eq_nil_iff.mp ((hSim.rel.up w).symm.trans hUp), fun k => ?_⟩
  have hIff := hSim.rel.consumed 0 (Job.pipes_pos _) w (x.chunk j k)
  rw [show a.count ((0 : Fin 4) : ℕ) w = a.pos w from hCount, hSim.rel.pos] at hIff
  exact hIff

theorem StreamInv.next (h : x.StreamInv lossy s)
    (hAll : ∀ j < x.sizes (s.pos w), s.answered w j = true) :
    x.StreamInv lossy
      { s with
        pos := Function.update s.pos w (s.pos w + 1)
        sent := Function.update s.sent w 0
        answered := Function.update s.answered w fun _ => false } := by
  have hWorker := h.workers w
  have hProject := next_project hAll
    (fun j hj => (hWorker.answered_lt j hj).trans_le hWorker.sent_le) hWorker.sent_le
  refine ⟨fun j => (h.slots j).move (by rw [hProject]; exact .refl), ⟨h.traffic.recirc,
    h.traffic.downlink, h.traffic.log⟩, fun w' => ?_⟩
  by_cases hw : w' = w
  swap
  · simpa only [Function.update_of_ne hw] using h.workers w'
  subst hw
  -- a slot is done with the message, whether it has a packet for it or not
  have hDone : ∀ j, (x.project j s).sent w' = false ∧
      (x.project j s).pos w' = x.chunk j (s.pos w' + 1) := by
    intro j
    rw [← hProject j]
    simp [project]
  have hNil : s.uplink w' = [] := by
    refine List.eq_nil_iff_forall_not_mem.mpr fun u hu => ?_
    have hLt := lt_ratio (hWorker.packets u hu).2.2.lt
    have hEmpty := (h.taken_iff hLt (hDone u.1).1).1
    have hMem : _ ∈ (x.project u.1 s).uplink w' := mem_pick.mpr ⟨u.2, hu, rfl⟩
    rw [hEmpty] at hMem
    exact absurd hMem (by simp)
  have hLast : x.Taken s.log w' (s.pos w') (x.sizes (s.pos w') - 1) := by
    have hLt : x.sizes (s.pos w') - 1 < x.sizes (s.pos w') :=
      Nat.sub_one_lt_of_lt (x.sizes_pos _)
    rw [(h.taken_iff (lt_ratio hLt) (hDone _).1).2, (hDone _).2, chunk_succ, decide_eq_true hLt]
    exact Nat.lt_succ_self _
  have hNone : ∀ j < x.sizes (s.pos w' + 1), ¬ x.Taken s.log w' (s.pos w' + 1) j := by
    intro j hj
    rw [(h.taken_iff (lt_ratio hj) (hDone _).1).2, (hDone _).2]
    exact Nat.lt_irrefl _
  simpa only [Function.update_self, hNil] using hWorker.next hLast hNone

theorem StreamInv.loseUp (h : x.StreamInv lossy s) (hLossy : lossy = true)
    {l : List (ℕ × ℕ × RocePacket)} (hl : l.Sublist (s.uplink w)) :
    x.StreamInv lossy { s with uplink := Function.update s.uplink w l } := by
  refine ⟨fun j => (h.slots j).move (loseUp_move j hl), ⟨h.traffic.recirc, h.traffic.downlink,
    h.traffic.log⟩, fun w' => ?_⟩
  have hWorker := h.workers w'
  by_cases hw : w' = w
  · subst hw
    simpa only [Function.update_self] using hWorker.lose hLossy hl
  · simpa only [Function.update_of_ne hw] using hWorker

/-- Fewer packets on a downlink. -/
theorem TrafficOk.setDown (h : x.TrafficOk s) {l : List (ℕ × ℕ × Packet)}
    (hl : l.Sublist (s.downlink w)) :
    x.TrafficOk { s with downlink := Function.update s.downlink w l } := by
  refine { h with downlink := fun w' u hu => ?_ }
  by_cases hw : w' = w
  · subst hw
    exact h.downlink w' u (hl.subset (by simpa using hu))
  · exact h.downlink w' u (by simpa [hw] using hu)

theorem StreamInv.loseDown (h : x.StreamInv lossy s) {l : List (ℕ × ℕ × Packet)}
    (hl : l.Sublist (s.downlink w)) :
    x.StreamInv lossy { s with downlink := Function.update s.downlink w l } :=
  ⟨fun j => (h.slots j).move (loseDown_move j hl), h.traffic.setDown hl, h.workers⟩

/-- A reply that a worker takes answers a packet it has sent. -/
theorem StreamInv.sent_of_reply (h : x.StreamInv lossy s) (hSets : x.SetsAlternate) {j k : ℕ}
    {pkt : Packet} {rest : List (ℕ × ℕ × Packet)} (hDown : s.downlink w = (j, k, pkt) :: rest)
    (hPacket : x.packetOf (s.pos w) pkt.md.poolIndex = some j) : j < s.sent w := by
  obtain ⟨hUses, hPool⟩ := packetOf_eq_some hPacket
  cases hFresh : s.answered w j with
  | true => exact (h.workers w).answered_lt j hFresh
  | false =>
    have hj := lt_ratio hUses
    obtain ⟨a, hSim⟩ := (h.slots ⟨j, hj⟩).sim
    have hSlotDown : (x.project j s).downlink w =
        (x.chunk j k, pkt) :: pick (Prod.map (x.chunk j) id) j rest := by
      show pick _ _ (s.downlink w) = _
      rw [hDown, pick_cons_self]
      rfl
    have hPos : (x.project j s).pos w = x.chunk j (s.pos w) := by simp [project, hFresh]
    have hReply : (x.project j s).sent w = true := by
      refine hSim.sent_of_reply rfl hSlotDown ?_
      rw [hPos, chunk_pool hSets ⟨j, hj⟩ hUses]
      exact hPool
    simpa [project, hFresh] using hReply

/-- A worker takes a reply. -/
theorem StreamInv.deliver (h : x.StreamInv lossy s) (hSets : x.SetsAlternate) :
    x.StreamInv lossy (x.deliverStep s w) := by
  have hSlots := fun j => (h.slots j).move (deliver_move (w := w) j hSets h.wellFormed
    h.traffic.downlink)
  unfold deliverStep at hSlots ⊢
  split at hSlots
  · exact h
  next i k pkt rest hDown =>
  have hTraffic : x.TrafficOk { s with downlink := Function.update s.downlink w rest } :=
    h.traffic.setDown (by rw [hDown]; exact List.sublist_cons_self _ _)
  dsimp only at hSlots ⊢
  split at hSlots
  · exact ⟨hSlots, hTraffic, h.workers⟩
  next j hPacket =>
  obtain rfl := packetOf_downlink h.wellFormed h.traffic.downlink
    (by rw [hDown]; exact List.mem_cons_self) hPacket
  refine ⟨hSlots, ⟨hTraffic.recirc, hTraffic.downlink, hTraffic.log⟩, fun w' => ?_⟩
  have hWorker := h.workers w'
  by_cases hw : w' = w
  · subst hw
    simpa only [Function.update_self] using hWorker.answer (h.sent_of_reply hSets hDown hPacket)
  · simpa only [Function.update_of_ne hw] using hWorker

-- ---------------------------------------------------------------------------
-- Passes
-- ---------------------------------------------------------------------------

theorem TrafficOk.emit (h : x.TrafficOk s) {j id : ℕ} {tag : Tag x.job.n} {ty : PacketType}
    {out : Emission} (hSent : x.Sent tag.worker tag.chunk j tag.sent) :
    x.TrafficOk (s.emit j id tag ty out) := by
  have hLog : ∀ e ∈ s.log ++ [(j, ⟨id, tag, ty, out⟩)],
      x.Sent e.2.tag.worker e.2.tag.chunk e.1 e.2.tag.sent := by
    intro e he
    rcases List.mem_append.mp he with he | he
    · exact h.log e he
    · rw [List.mem_singleton.mp he]
      exact hSent
  have hDown : ∀ w, ∀ (p : Prop) [Decidable p] (pkt : Packet),
      ∀ u ∈ (if p then s.downlink w ++ [(j, tag.chunk, pkt)] else s.downlink w),
        u.1 < x.ratio := by
    intro w p _ pkt u hu
    split at hu
    · rcases List.mem_append.mp hu with hu | hu
      · exact h.downlink w u hu
      · rw [List.mem_singleton.mp hu]
        exact lt_ratio hSent.lt
    · exact h.downlink w u hu
  cases out with
  | dropped => exact ⟨h.recirc, h.downlink, hLog⟩
  | forwarded => exact ⟨h.recirc, h.downlink, hLog⟩
  | recirculated port pkt =>
    refine ⟨fun f hf => ?_, h.downlink, hLog⟩
    rcases List.mem_append.mp hf with hf | hf
    · exact h.recirc f hf
    · rw [List.mem_singleton.mp hf]
      exact hSent
  | multicast group pkt =>
    exact ⟨h.recirc, fun w u hu => hDown w True pkt u (by rw [if_pos trivial]; exact hu), hLog⟩
  | unicast port pkt => exact ⟨h.recirc, fun w u hu => hDown w _ pkt u hu, hLog⟩

/-- What an event says about the packets that were let in. -/
theorem taken_snoc {log : List (ℕ × Event x.job.n)} {i j : ℕ} {e : Event x.job.n}
    (h : x.Taken (log ++ [(i, e)]) w k j) :
    x.Taken log w k j ∨ j = i ∧ e.ty = .consume 0 ∧ e.tag.worker = w := by
  unfold Taken at h ⊢
  rw [pick_append] at h
  by_cases hj : i = j
  · subst hj
    rw [pick_cons_self, pick_nil, consumed_append, Bool.or_eq_true] at h
    refine h.imp_right fun hNew => ⟨rfl, ?_⟩
    simp only [consumed, List.any_cons, List.any_nil, Bool.or_false, Event.isConsume,
      Bool.and_eq_true, decide_eq_true_eq] at hNew
    exact hNew.1
  · rw [pick_cons_of_ne _ hj, pick_nil, List.append_nil] at h
    exact .inl h

theorem receiverData_update {i : Fin 4} {after : Registers} {q : QueuePairIndex}
    {regs : Fin 4 → Registers} (h : after.receiverData q = (regs i).receiverData q) :
    (Function.update regs i after 0).receiverData q = (regs 0).receiverData q := by
  by_cases hi : (0 : Fin 4) = i
  · subst hi
    rw [Function.update_self, h]
  · rw [Function.update_of_ne hi]

/-- The next packet of an uplink makes its first pass. -/
theorem StreamInv.arrive (h : x.StreamInv lossy s) (hSets : x.SetsAlternate) :
    x.StreamInv lossy (x.arriveStep s w) := by
  cases hUp : s.uplink w with
  | nil =>
    unfold arriveStep
    rw [hUp]
    exact h
  | cons u rest =>
    obtain ⟨j, k, rp⟩ := u
    have hWorker := h.workers w
    rw [hUp] at hWorker
    obtain ⟨rfl, -, hSent⟩ := hWorker.packets _ List.mem_cons_self
    have hArrive := hWorker.arrive
    have hVerdict : ∀ p, receivedPoolIndex x.job.config.workers rp (s.regs 0) = some p →
        p = x.pool (s.pos w) j := by
      intro p hp
      rcases hArrive with ⟨hNone, -⟩ | ⟨hSome, -⟩
      · rw [hNone] at hp
        exact absurd hp (by simp)
      · rw [hSome] at hp
        exact (Option.some.inj hp).symm
    have hSlots := fun i => (h.slots i).move (arrive_move i (h.wellFormed i) hUp hSent.lt hSets
      hVerdict)
    have hOther : ∀ w', w' ≠ w →
        (receiveRoce x.job.config {} (x.job.port w) rp (s.regs 0)).1.receiverData (x.qp w') =
          (s.regs 0).receiverData (x.qp w') := by
      intro w' hw
      refine receiveRoce_other _ _ _ _ ?_
      rw [hSent.qp]
      exact fun hEq => hw (qp_injective hEq).symm
    unfold arriveStep at hSlots ⊢
    rw [hUp] at hSlots ⊢
    dsimp only at hSlots ⊢
    rcases hArrive with ⟨hPool, hAfter⟩ | ⟨hPool, hAfter⟩
    · rw [hPool] at hSlots ⊢
      refine ⟨hSlots, ⟨h.traffic.recirc, h.traffic.downlink, h.traffic.log⟩, fun w' => ?_⟩
      by_cases hw : w' = w
      · subst hw
        simpa only [Function.update_self, hSent.receiverData] using hAfter
      · simpa only [Function.update_self, Function.update_of_ne hw, hOther w' hw] using
          h.workers w'
    · rw [hPool] at hSlots ⊢
      dsimp only at hSlots ⊢
      refine ⟨hSlots, ?_, fun w' => ?_⟩
      · refine TrafficOk.emit ?_ hSent
        exact ⟨h.traffic.recirc, h.traffic.downlink, h.traffic.log⟩
      simp only [StreamState.emit_workers, StreamState.emit_log, StreamState.emit_regs]
      by_cases hw : w' = w
      · subst hw
        simp only [Function.update_self, hSent.receiverData]
        exact hAfter.congr fun i _ hNew => (taken_snoc hNew).symm.imp_left And.left
      · simp only [Function.update_self, Function.update_of_ne hw, hOther w' hw]
        refine (h.workers w').congr fun i _ hNew => (taken_snoc hNew).resolve_right ?_
        rintro ⟨-, -, rfl⟩
        exact hw rfl

/-- A packet on a recirculation port makes its next pass. -/
theorem StreamInv.recirculate (h : x.StreamInv lossy s) (i : ℕ) :
    x.StreamInv lossy (x.recirculateStep s i) := by
  cases hGet : s.recirc[i]? with
  | none =>
    unfold recirculateStep
    rw [hGet]
    exact h
  | some jf =>
    obtain ⟨j, f⟩ := jf
    obtain ⟨hLt, hf⟩ := List.getElem?_eq_some_iff.mp hGet
    have hRecirc : s.recirc = s.recirc.take i ++ (j, f) :: s.recirc.drop (i + 1) := by
      rw [← hf, ← List.drop_eq_getElem_cons hLt, List.take_append_drop]
    have hSent := h.traffic.recirc (j, f) (List.mem_of_getElem? hGet)
    have hSlots := fun j' => (h.slots j').move
      (recirculate_move j' (fun j => (h.slots j).sim) (lt_ratio hSent.lt) hRecirc)
    rw [List.length_take_of_le hLt.le] at hSlots
    unfold recirculateStep at hSlots ⊢
    rw [hGet] at hSlots ⊢
    dsimp only at hSlots ⊢
    refine ⟨hSlots, ?_, fun w => ?_⟩
    · refine TrafficOk.emit ?_ hSent
      exact ⟨fun g hg => h.traffic.recirc g (List.mem_of_mem_eraseIdx hg), h.traffic.downlink,
        h.traffic.log⟩
    · simp only [StreamState.emit_workers, StreamState.emit_log, StreamState.emit_regs]
      rw [receiverData_update (congrFun (recirculate_receiverData _ _ _ _) _)]
      refine (h.workers w).congr fun i _ hNew => (taken_snoc hNew).resolve_right ?_
      rintro ⟨-, hType, -⟩
      -- a packet on a recirculation port has made its first pass
      have hMem : f.inSlot (x.chunk j) ∈ (x.project j s).recirc :=
        mem_pick.mpr ⟨f, List.mem_of_getElem? hGet, rfl⟩
      exact (h.wellFormed ⟨j, lt_ratio hSent.lt⟩).flights _ hMem |>.not_first hType

theorem StreamInv.other (h : x.StreamInv lossy s) {i : Fin 4} {after : Registers}
    (hSame : ∀ j < x.ratio, SameSlot (x.slot j) (s.regs i) after)
    (hData : ∀ w, after.receiverData (x.qp w) = (s.regs i).receiverData (x.qp w)) :
    x.StreamInv lossy { s with regs := Function.update s.regs i after } := by
  refine ⟨fun j => (h.slots j).move (stay_move i after rfl (hSame j j.isLt)), ⟨h.traffic.recirc,
    h.traffic.downlink, h.traffic.log⟩, fun w => ?_⟩
  dsimp only
  rw [receiverData_update (hData w)]
  exact h.workers w

/-- **Step lemma.** -/
theorem StreamInv.step (h : x.StreamInv lossy s) (hSets : x.SetsAlternate)
    (label : StreamLabel x.job.n) : x.StreamInv lossy (x.streamStep lossy s label) := by
  cases label with
  | send w rp =>
    simp only [streamStep]
    split
    · next hSends => exact h.send hSends
    · exact h
  | next w =>
    simp only [streamStep]
    split
    · next hAll => exact h.next (by simpa using hAll)
    · exact h
  | loseUp w i =>
    simp only [streamStep]
    split
    · next hLossy => exact h.loseUp hLossy (List.eraseIdx_sublist _ _)
    · exact h
  | loseDown w i =>
    simp only [streamStep]
    split
    · exact h.loseDown (List.eraseIdx_sublist _ _)
    · exact h
  | arrive w => exact h.arrive hSets
  | recirculate i => exact h.recirculate i
  | deliver w => exact h.deliver hSets
  | otherArrival port rp =>
    simp only [streamStep]
    split
    · exact h
    · next hOther =>
      rw [Bool.not_eq_true, Bool.or_eq_false_iff] at hOther
      refine h.other (fun j hj => receiveRoce_frame _ _ _ _ _ fun p hp => ?_) fun w =>
        receiveRoce_other _ _ _ _ (ne_of_usesQp (by simp [hOther.1]) w)
      have hSlot := hOther.2
      rw [hp, Option.any_some] at hSlot
      exact ne_of_usesSlot (by simp [hSlot]) hj
  | otherRecirculation port pkt =>
    simp only [streamStep]
    split
    · exact h
    · next hOther =>
      exact h.other (fun j hj => recirculate_frame _ _ _ _ (ne_of_usesSlot hOther hj)) fun w =>
        congrFun (recirculate_receiverData _ _ _ _) _

/-- **Run lemma.** -/
theorem StreamInv.run (h : x.StreamInv lossy s) (hSets : x.SetsAlternate)
    (labels : List (StreamLabel x.job.n)) : x.StreamInv lossy (x.streamRun lossy s labels) := by
  induction labels generalizing s with
  | nil => exact h
  | cons label labels ih => exact ih (h.step hSets label)

theorem workerOk_initial (hStart : lossy = true → x.Quiet w 0 data) :
    x.WorkerOk lossy w 0 0 (fun _ => false) [] data (x.Taken [] w 0) where
  sent_le := Nat.zero_le _
  answered_lt j hj := absurd hj (by simp)
  packets u hu := absurd hu (by simp)
  sorted := .nil
  position := by
    refine .before (fun j _ => by simp [Taken, consumed]) ?_
    cases lossy with
    | false => exact .inr ⟨rfl, rfl⟩
    | true => exact .inl (hStart rfl)

theorem streamInv_initial {regs : Fin 4 → Registers} (hFresh : x.Fresh regs)
    (hStart : lossy = true → x.SafeStart regs) : x.StreamInv lossy (.initial regs) := by
  have hEmpty : ∀ j, x.project j (.initial regs) = { regs } := by
    intro j
    simp [project, StreamState.initial, chunk]
  refine ⟨fun j => ?_, ⟨fun f hf => ?_, fun w u hu => ?_, fun e he => ?_⟩, fun w =>
    workerOk_initial fun hLossy => hStart hLossy w⟩
  · have hSim : Sim (x.slotJob j) .streaming { regs } Staged.init := sim_empty fun i hi σ _ =>
      ⟨hFresh.bitmap i hi j j.isLt σ, hFresh.workerCount i hi j j.isLt σ⟩
    refine ⟨⟨_, hEmpty j ▸ hSim⟩, ?_, ?_⟩ <;> rw [hEmpty]
    · exact fun f hf => absurd hf (by simp)
    · exact fun e he => absurd he (by simp)
  · exact absurd hf (by simp [StreamState.initial])
  · exact absurd hu (by simp [StreamState.initial])
  · exact absurd he (by simp [StreamState.initial])

-- ---------------------------------------------------------------------------
-- Sums
-- ---------------------------------------------------------------------------

/-- The packet of a worker that was processed first for a chunk is the one of its message. -/
theorem StreamInv.firstSlice_eq (h : x.StreamInv lossy s) {j : ℕ} (hUses : j < x.sizes k)
    {pre post : List (Event x.job.n)} (hLog : (x.project j s).log = pre ++ post)
    (hConsumed : consumed pre 0 w (x.chunk j k) = true) (i : ℕ) :
    firstSlice pre w (x.chunk j k) i = (x.data w k j).getD i fun _ => 0 := by
  obtain ⟨rp, hFirst⟩ := exists_firstProcessed hConsumed
  have hSlice : firstSlice pre w (x.chunk j k) i = rp.payload.getD i fun _ => 0 := by
    simp only [firstSlice, hFirst]
  obtain ⟨e, hFind, rfl⟩ := Option.map_eq_some_iff.mp hFirst
  have hMem : e ∈ (x.project j s).log := by
    rw [hLog]
    exact List.mem_append_left _ (List.mem_of_find?_eq_some hFind)
  obtain ⟨e', hMem', rfl⟩ := mem_pick.mp hMem
  have hSent := h.traffic.log (j, e') hMem'
  have hEvent := List.find?_some hFind
  simp only [Event.isConsume, Bool.and_eq_true, decide_eq_true_eq] at hEvent
  obtain ⟨⟨-, hWorker⟩, hChunk⟩ := hEvent
  have hMessage : e'.tag.chunk = k := chunk_inj hSent.lt hUses hChunk
  have hWorker' : e'.tag.worker = w := hWorker
  rw [hSlice]
  show (e'.tag.sent.payload).getD i _ = _
  rw [hSent.payload]
  simp only [hMessage, hWorker']

theorem StreamInv.reply (h : x.StreamInv lossy s) {j : ℕ} {e : Event x.job.n} {pkt : Packet}
    (hMem : (j, e) ∈ s.log) (hReply : e.broadcast? = some pkt ∨ e.retransmit? = some pkt) :
    pkt.payload = x.sum e.tag.chunk j := by
  have hUses := (h.traffic.log (j, e) hMem).lt
  have hSlot := h.slots ⟨j, lt_ratio hUses⟩
  have hSlotMem : e.inSlot (x.chunk j) ∈ (x.project j s).log := mem_pick.mpr ⟨e, hMem, rfl⟩
  have hCast : e.broadcast? = some pkt := by
    refine hReply.resolve_right fun hRetransmit => ?_
    have hNone : e.retransmit? = none := hSlot.replies (e.inSlot (x.chunk j)) hSlotMem
    rw [hNone] at hRetransmit
    exact absurd hRetransmit (by simp)
  obtain ⟨a, hSim⟩ := hSlot.sim
  obtain ⟨pre, post, hLog⟩ := List.append_of_mem hSlotMem
  obtain ⟨hAll, hPayload⟩ := hSim.broadcast_correct hLog hCast
  rw [hPayload]
  refine List.map_congr_left fun i _ => funext fun l => ?_
  refine Finset.sum_congr rfl fun w _ => ?_
  rw [← h.firstSlice_eq hUses hLog (hAll 0 (Job.pipes_pos _) w) i]
  rfl

end Stream

/-- **Aggregation with varying message sizes.** The stream starts with fresh slots, whatever
else the registers hold. If two messages in a row that use a slot always use different sets
of it, every reply to packet `j` of a message carries the sums of the words of the workers'
packets `j` of that message. If packets can be lost on the way to the switch, the registers of
the queue pairs, which no job clears, must not let in a packet of the first message whose
first packet was lost. -/
theorem varying_sizes_aggregate (x : Stream) (lossy : Bool) (hSets : x.SetsAlternate)
    {regs : Fin 4 → Registers} (hFresh : x.Fresh regs)
    (hStart : lossy = true → x.SafeStart regs) (labels : List (StreamLabel x.job.n)) {j : ℕ}
    {e : Event x.job.n} {pkt : Packet}
    (hMem : (j, e) ∈ (x.streamRun lossy (.initial regs) labels).log)
    (hReply : e.broadcast? = some pkt ∨ e.retransmit? = some pkt) :
    pkt.payload = x.sum e.tag.chunk j :=
  ((Stream.streamInv_initial hFresh hStart).run hSets labels).reply hMem hReply

theorem Stream.fresh_clearRegisters (x : Stream) (regs : Fin 4 → Registers) :
    x.Fresh fun i => clearRegisters (regs i) where
  bitmap i _ j _ σ := by simp [Registers.bitmap, clearRegisters]
  workerCount _ _ _ _ _ := rfl

-- ---------------------------------------------------------------------------
-- Two streams
-- ---------------------------------------------------------------------------

/-- A stream of one worker whose messages have one packet, or two where `long` says so. The
words of slice `i` of packet `j` of message `k` are all `100 * k + 10 * j + i`. -/
def Stream.plain (long : ℕ → Bool) : Stream where
  job := Job.plain 1 (by decide) (by decide) false
  ratio := 2
  fits := by decide
  sizes k := if long k then 2 else 1
  sizes_pos k := by split <;> decide
  sizes_le k := by split <;> decide
  queue := 1
  queue_lt := by decide
  firstPsn _ := 0
  data _ k j := (plainPacket 0 2 (100 * k + 10 * j)).payload
  data_length _ _ _ := rfl

/-- Packet `j` of message `k`, with the sequence number `psn`. -/
def streamPacket (k j psn : ℕ) (opcode : IbOpcode) : RocePacket :=
  { plainPacket 0 2 (100 * k + 10 * j) with
    opcode := opcode
    dstQp := 0x800001
    psn := BitVec.ofNat 24 psn
    reth := { rKey := BitVec.ofNat 32 (k % 2), addr := 0, len := 0 } }

/-- The worker sends a message with one packet and gets the reply. -/
def shortExchange (k psn : ℕ) : List (StreamLabel 1) :=
  [.send 0 (streamPacket k 0 psn .rdmaWriteOnlyImmediate), .arrive 0, .recirculate 0, .deliver 0,
    .next 0]

/-- The worker sends a message with two packets and gets the reply. -/
def longExchange (k psn : ℕ) : List (StreamLabel 1) :=
  [.send 0 (streamPacket k 0 psn .rdmaWriteFirst),
    .send 0 (streamPacket k 1 (psn + 1) .rdmaWriteLastImmediate), .arrive 0, .arrive 0,
    .recirculate 0, .recirculate 0, .deliver 0, .deliver 0, .next 0]

/-- Every third message is long: between two of them the second slot is left out twice. -/
theorem setsAlternate_third : (Stream.plain fun k => k % 3 = 0).SetsAlternate := by
  have hSizes : ∀ k, (Stream.plain fun k => k % 3 = 0).sizes k = if k % 3 = 0 then 2 else 1 := by
    intro k
    simp [Stream.plain]
  intro j k k' hLt hk hk' hSkip
  rcases Nat.eq_zero_or_pos j with rfl | hPos
  · -- every message has a first packet
    have hNext : ¬ k + 1 < k' := fun h =>
      absurd (hSkip (k + 1) (Nat.lt_succ_self k) h) (Nat.not_le.mpr (Stream.sizes_pos _ _))
    omega
  · have hLong : ∀ i, j < (Stream.plain fun k => k % 3 = 0).sizes i → i % 3 = 0 := by
      intro i hi
      by_contra hShort
      rw [hSizes, if_neg hShort] at hi
      omega
    have hMod := hLong k hk
    have hMod' := hLong k' hk'
    rw [hSizes, if_pos hMod] at hk
    have hThird : ¬ k + 3 < k' := fun h => by
      have hShort := hSkip (k + 3) (by omega) h
      rw [hSizes, if_pos (by omega)] at hShort
      omega
    omega

/-- What an earlier job with data `[9, 9]` has left: its queue pair waits for packet 7. -/
def leftRegisters : Registers :=
  clearRegisters {
    significands := fun _ _ => ⟨9, 9⟩, workerCount := fun _ => 1
    receiverData := fun _ => ⟨7, 4⟩ }

/-- The fourth message is long again, and its second packet is answered with its own sums. -/
theorem varying_sizes_aggregate_third :
    let x := Stream.plain fun k => k % 3 = 0
    let s := x.streamRun true (.initial fun _ => leftRegisters)
      (longExchange 0 0 ++ shortExchange 1 2 ++ shortExchange 2 3 ++ longExchange 3 4)
    ∃ e pkt, (1, e) ∈ s.log ∧ e.broadcast? = some pkt ∧ e.tag.chunk = 3 ∧
      pkt.payload = x.sum e.tag.chunk 1 := by
  intro x s
  have hLast : (s.log[11]?.map fun je => (je.1, je.2.tag.chunk, je.2.broadcast?.isSome)) =
      some (1, 3, true) := by decide +kernel
  obtain ⟨⟨j, e⟩, hGet, hEvent⟩ := Option.map_eq_some_iff.mp hLast
  obtain ⟨rfl, hEvent⟩ := Prod.mk.inj hEvent
  obtain ⟨hChunk, hSome⟩ := Prod.mk.inj hEvent
  obtain ⟨pkt, hCast⟩ := Option.isSome_iff_exists.mp hSome
  have hMem := List.mem_of_getElem? hGet
  have hStart : x.SafeStart fun _ => leftRegisters := by
    refine fun w => .inr fun j h0 hj => ?_
    have hj : j < 2 := hj
    obtain rfl : j = 1 := by omega
    revert w
    decide
  exact ⟨e, pkt, hMem, hCast, hChunk, varying_sizes_aggregate x true setsAlternate_third
    (x.fresh_clearRegisters _) (fun _ => hStart) _ hMem (.inl hCast)⟩

/-- The second of three messages is short. The last packet of the third goes to the same set
of its slot as that of the first: the switch takes it for a duplicate, and sends back the sums
of the first message. -/
theorem earlier_message_returned :
    let x := Stream.plain fun k => k ≠ 1
    let s := x.streamRun false (.initial fun _ => {})
      (longExchange 0 0 ++ shortExchange 1 2 ++ longExchange 2 3)
    ∃ e pkt, (1, e) ∈ s.log ∧ e.retransmit? = some pkt ∧ e.tag.chunk = 2 ∧
      pkt.payload.map (· 0) = [10, 211] ∧ (x.sum 0 1).map (· 0) = [10, 11] ∧
      (x.sum 2 1).map (· 0) = [210, 211] := by
  intro x s
  have hLast : (s.log[9]?.map fun je =>
      (je.1, je.2.tag.chunk, je.2.retransmit?.map fun pkt => pkt.payload.map (· 0))) =
      some (1, 2, some [10, 211]) := by decide +kernel
  obtain ⟨⟨j, e⟩, hGet, hEvent⟩ := Option.map_eq_some_iff.mp hLast
  obtain ⟨rfl, hEvent⟩ := Prod.mk.inj hEvent
  obtain ⟨hChunk, hReply⟩ := Prod.mk.inj hEvent
  obtain ⟨pkt, hRetransmit, hWords⟩ := Option.map_eq_some_iff.mp hReply
  exact ⟨e, pkt, List.mem_of_getElem? hGet, hRetransmit, hChunk, hWords, by decide +kernel,
    by decide +kernel⟩

end SwitchML
