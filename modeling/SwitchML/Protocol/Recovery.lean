import SwitchML.Lib.Rounds
import SwitchML.Protocol.Receiving
import SwitchML.Protocol.SlotRecord

/-!
# SwitchML protocol — no run gets stuck

Safety says that what is broadcast is right; here it is that something is broadcast, or
retransmitted, as often as the workers need it. Whatever was lost, sent again or reordered
before, the workers of a 256-byte job can always finish: each sends its current chunk
once more, and the switch answers as soon as everybody's chunk is in.

The worst case is that everything on the uplinks is lost. What a worker sends after that is
a whole message up to the packet of the slot (`Carrier`): the receive stage finds the
slot of the packet whatever it has received before.

* `Sim.arrival_answered` — a packet that finds the chunk complete, or completes it, is answered;
* `attempt_succeeds` — one try of a worker, from a state with nothing on the way;
* `recovery_256B` — from every state a run reaches, every chunk can still be reached by all
  workers.
-/

namespace SwitchML

-- ---------------------------------------------------------------------------
-- Messages
-- ---------------------------------------------------------------------------

/-- The packets of a message of worker `w`, up to the one for chunk `k` of the slot. -/
structure Carrier (job : Job) (w : Fin job.n) (k : ℕ) where
  sender : Sender
  message : Fin sender.messages.length
  -- the place in the message of the packet for the slot
  place : ℕ
  packets : ℕ → RocePacket
  sends : ∀ i ≤ place, sender.sends message i (packets i) = true
  matching : ∀ i ≤ place, (job.receiveEntry w).matchesPacket (packets i) = true
  queue : ∀ i ≤ place, (packets i).dstQp = (packets 0).dstQp
  length : ∀ i ≤ place, (packets i).payload.length = job.slices
  last : (packets place).opcode.isLast = job.last k
  fits : (sender.messages.get message).base.toNat + 2 * place < 2 ^ 15
  pool : sender.poolIndex message place = job.pool k

namespace Carrier

variable {job : Job} {w : Fin job.n} {k : ℕ} (c : Carrier job w k)

/-- The packet for the slot. -/
def packet : RocePacket := c.packets c.place

/-- The registers of the queue pair. -/
def qp : QueuePairIndex := qpIndex (c.packets 0).dstQp

theorem sendable : job.sendable w k c.packet = true := by
  have hOp := (Sender.of_sends (c.sends c.place (Nat.le_refl _))).2.1
  unfold Job.sendable
  rw [packet, c.matching _ (Nat.le_refl _), c.length _ (Nat.le_refl _), hOp, c.last]
  simp

end Carrier

/-- What the workers and the switch do in a recovery: the workers send the messages they are
given, and nothing is lost. -/
def SlotLabel.Recovers {job : Job} (carrier : ∀ w k, Carrier job w k) : SlotLabel job.n → Prop
  | .send w rp | .resend w rp => ∃ k, rp = (carrier w k).packet
  | .otherArrival port rp =>
    ∃ w k, ∃ i < (carrier w k).place, port = job.port w ∧ rp = (carrier w k).packets i
  | .arrive _ | .recirculate _ | .deliver _ => True
  | _ => False

-- ---------------------------------------------------------------------------
-- What every step keeps
-- ---------------------------------------------------------------------------

section Mono

variable {job : Job} {d : Discipline}

/-- Workers do not go back, and the log is only added to. -/
theorem slotStep_mono (s : SlotState job.n) (label : SlotLabel job.n) :
    (∀ w, s.pos w ≤ (slotStep job d s label).pos w) ∧
      s.log <+: (slotStep job d s label).log := by
  cases label with
  | send w rp => simp only [slotStep]; split <;> simp
  | resend w rp => simp only [slotStep]; split <;> simp
  | loseUp w i => simp only [slotStep]; split <;> simp
  | loseDown w i => simp only [slotStep]; split <;> simp
  | arrive w =>
    simp only [slotStep, arriveStep]
    split
    · simp
    · split
      · simp
      · split <;> simp
  | recirculate i =>
    simp only [slotStep, recirculateStep]
    split
    · simp
    · split <;> simp
  | deliver w =>
    simp only [slotStep, deliverStep]
    split
    · simp
    · split
      · refine ⟨fun w' => ?_, List.prefix_rfl⟩
        by_cases hw : w' = w
        · subst hw
          simp
        · simp [hw]
      · simp
  | otherArrival port rp =>
    simp only [slotStep]
    split
    · split <;> simp
    · simp
  | otherRecirculation port pkt =>
    simp only [slotStep]
    split <;> simp

end Mono

-- ---------------------------------------------------------------------------
-- The receive stage
-- ---------------------------------------------------------------------------

section Opening

variable {job : Job} {d : Discipline} {w : Fin job.n} {k : ℕ}

/-- The register goes on from packet to packet. -/
theorem Carrier.tracks_next (c : Carrier job w k) {m : ℕ} (hm : m ≤ c.place) {data : ReceiverData}
    (h : m ≠ 0 → c.sender.Tracks data (some (c.message, m - 1))) :
    c.sender.Tracks (receiverAction (c.packets m) data).1 (some (c.message, m)) := by
  have hSends := c.sends m hm
  cases m with
  | zero => exact Sender.tracks_first data hSends
  | succ i =>
    have hStep := (h (Nat.succ_ne_zero i)).step hSends
    rwa [Nat.succ_sub_one, InOrder.accept_next] at hStep

/-- The pool index that a packet of the message is given, and the register after it. -/
theorem Carrier.received (c : Carrier job w k) {m : ℕ} (hm : m ≤ c.place) {regs : Registers}
    (h : m ≠ 0 → c.sender.Tracks (regs.receiverData c.qp) (some (c.message, m - 1))) :
    receivedPoolIndex job.config.workers (c.packets m) regs =
        some (c.sender.poolIndex c.message m) ∧
      c.sender.Tracks ((receiveRoce job.config {} (job.port w) (c.packets m)
        regs).1.receiverData c.qp) (some (c.message, m)) := by
  obtain ⟨before, after, hSplit, hOther⟩ := job.workers_split w
  obtain ⟨d0, d1, rest, hPayload⟩ := exists_slices (c.length m hm)
  have hReceives : Session.receives ⟨job.config, before, job.receiveEntry w, after, hSplit, hOther,
      c.sender, c.qp⟩ c.message m (job.port w) (c.packets m) = true := by
    unfold Session.receives
    rw [c.sends m hm, c.matching m hm, Carrier.qp, c.queue m hm]
    simp [parseRoce, job.port_not_recirculation w, hPayload]
  have hAfter := c.tracks_next hm h
  refine ⟨Session.verdict_of_receives hReceives hAfter fun _ => by simp, ?_⟩
  have hData : (receiveRoce job.config {} (job.port w) (c.packets m) regs).1.receiverData c.qp =
      (receiverAction (c.packets m) (regs.receiverData c.qp)).1 :=
    Session.receiverData_of_receives {} hReceives
  rw [hData]
  exact hAfter

end Opening

-- ---------------------------------------------------------------------------
-- Passes
-- ---------------------------------------------------------------------------

section Passes

variable {job : Job} {d : Discipline} {s : SlotState job.n} {a : Staged.State (Fin job.n)}
  {w : Fin job.n} {k : ℕ} {rp : RocePacket} {f : Flight job.n}

/-- The step of an arrival that the receive stage takes. -/
theorem arriveStep_takes {rest : List (ℕ × RocePacket)} (hUp : s.uplink w = (k, rp) :: rest)
    (hPool : receivedPoolIndex job.config.workers rp (s.regs 0) = some (job.pool k)) :
    arriveStep job s w =
      { s with
        uplink := Function.update s.uplink w rest
        regs := Function.update s.regs 0 (receiveRoce job.config {} (job.port w) rp (s.regs 0)).1
        nextId := s.nextId + 1 }.emit s.nextId ⟨w, k, rp⟩ (.consume 0)
          (receiveRoce job.config {} (job.port w) rp (s.regs 0)).2 := by
  unfold arriveStep
  rw [hUp]
  dsimp only
  rw [hPool]
  dsimp only
  rw [if_pos rfl]

/-- A consume pass of a 256-byte packet has no reply of its own. -/
theorem ConsumePass.emit_downlink {before after regs : Registers} {tag : Tag job.n}
    {st : PassState} {out : Emission} (hSmall : job.large = false)
    (hPass : ConsumePass job before after 0 tag st regs out) (id : ℕ) (ty : PacketType)
    (t : SlotState job.n) : (t.emit id tag ty out).downlink = t.downlink := by
  obtain ⟨rdmaMd, hOut⟩ := hPass.finishes (by simp [Job.pipes, hSmall])
  rw [hOut]
  split <;> rfl

/-- The switch has a packet of every worker once `w` is in. -/
theorem counts_of_consumed (h : Sim job d s a) {e : Event job.n}
    (hAll : ∀ w', consumed (s.log ++ [e]) 0 w' k = true) (he : e.tag.worker = w) (w' : Fin job.n)
    (hw : w' ≠ w) : k < a.count 0 w' := by
  have hIn := hAll w'
  rw [consumed_append, consumed_singleton, Bool.or_eq_true] at hIn
  rcases hIn with hIn | hIn
  · exact (h.rel.consumed 0 job.pipes_pos w' k).mp hIn
  · simp only [Event.isConsume, Bool.and_eq_true, decide_eq_true_eq] at hIn
    exact absurd (hIn.1.2.symm.trans he) hw

/-- **Answers.** A packet after which all workers are in with its chunk goes on to the
harvest, with a reply for all workers or for its own. -/
theorem Sim.arrival_answered (h : Sim job d s a) (hSmall : job.large = false)
    {rest : List (ℕ × RocePacket)} (hUp : s.uplink w = (k, rp) :: rest)
    (hPool : receivedPoolIndex job.config.workers rp (s.regs 0) = some (job.pool k))
    (hAll : ∀ w', consumed (arriveStep job s w).log 0 w' k = true) :
    ∃ f : Flight job.n, (arriveStep job s w).recirc = s.recirc ++ [f] ∧ f.tag = ⟨w, k, rp⟩ ∧
      (f.reply.1 = .all ∨ f.reply.1 = .one w) := by
  have hSend : job.sendable w k rp = true :=
    h.wellFormed.uplink w (k, rp) (by rw [hUp]; exact List.mem_cons_self)
  obtain ⟨st, met, hPass, -, hDupFlag, hFirstFlag, -⟩ := receive_consumes hSend hPool
  obtain ⟨hLook, hCount⟩ := h.look_up hUp ⟨hDupFlag, hFirstFlag⟩
  have hMet := h.represents.congr hPass.meets
  have hReady := hPass.ready.consumeReady
  obtain ⟨rdmaMd, hOut⟩ := hPass.finishes (by simp [Job.pipes, hSmall])
  rw [arriveStep_takes hUp hPool, SlotState.emit_log] at hAll
  have hOthers := counts_of_consumed h hAll rfl
  rw [arriveStep_takes hUp hPool, SlotState.emit_recirc]
  rcases hCount with hNew | hDup
  · -- the packet completes the chunk
    obtain ⟨-, hFill⟩ := hLook.count_new (decide_eq_true hNew)
    have hMap := hMet.map_new hReady hLook.uses hFill hNew
    have hFlag := (hMet.flag_new_one hReady hLook.uses hFill hNew).mpr fun w' => by
      by_cases hw : w' = w
      · subst hw
        rw [Function.update_self]
        omega
      · rw [Function.update_of_ne hw]
        exact hOthers w' hw
    rw [if_pos (.inl hFlag)] at hOut
    rw [hOut]
    refine ⟨_, rfl, rfl, .inl (Flight.reply_all.mpr ⟨?_, ?_⟩)⟩
    · show (st.md.mapResultNonzero || decide (consumeMap met st ≠ 0)) = false
      simp [hDupFlag, hMap]
    · show (st.md.firstFlag || decide (consumeFlag met st = 0)) = false
      simp [hFirstFlag, hFlag]
  · -- the chunk was complete, as the packet was counted before
    have hMap := hMet.map_dup hReady hLook.uses hDup.symm
    obtain ⟨-, hClose⟩ := hLook.count_dup (decide_eq_false (by omega))
    have hFlag := (hMet.flag_dup_zero hReady hLook.uses hClose hDup.symm).mpr fun w' => by
      by_cases hw : w' = w
      · subst hw
        exact Nat.lt_of_lt_of_eq (Nat.lt_succ_self k) hDup
      · exact hOthers w' hw
    rw [if_pos (.inr ⟨hMap, hFlag⟩)] at hOut
    rw [hOut]
    refine ⟨_, rfl, rfl, .inr (Flight.reply_one.mpr ⟨⟨?_, ?_⟩, rfl⟩)⟩
    · show (st.md.mapResultNonzero || decide (consumeMap met st ≠ 0)) = true
      rw [decide_eq_true hMap, Bool.or_true]
    · show (st.md.firstFlag || decide (consumeFlag met st = 0)) = true
      simp [hFlag]

end Passes

-- ---------------------------------------------------------------------------
-- Links
-- ---------------------------------------------------------------------------

section Links

variable {job : Job} {d : Discipline} {s : SlotState job.n} {w : Fin job.n}

/-- The next packet of a worker's downlink is a reply to its current chunk. -/
def SlotState.Answered (job : Job) (s : SlotState job.n) (w : Fin job.n) : Prop :=
  ∃ k pkt rest, s.downlink w = (k, pkt) :: rest ∧ pkt.md.poolIndex = job.pool (s.pos w)

/-- What deliveries leave as it is. -/
structure Delivers (job : Job) (s t : SlotState job.n) : Prop where
  uplink : t.uplink = s.uplink
  recirc : t.recirc = s.recirc
  log : t.log = s.log
  -- who was answered goes on when the answer is looked at
  answered : ∀ w, s.Answered job w → t.downlink w = s.downlink w ∧ t.pos w = s.pos w ∨
    s.pos w < t.pos w

theorem deliverStep_downlink (s : SlotState job.n) (w : Fin job.n) :
    (deliverStep job d s w).downlink = Function.update s.downlink w (s.downlink w).tail := by
  unfold deliverStep
  split
  · next hNil => rw [hNil, List.tail_nil, ← hNil, Function.update_eq_self]
  · next hDown =>
    rw [hDown]
    dsimp only
    split <;> rfl

theorem Delivers.step (hAdv : d.advances = true) {t : SlotState job.n} (h : Delivers job s t)
    (w : Fin job.n) : Delivers job s (deliverStep job d t w) := by
  have hMono := (slotStep_mono (d := d) t (.deliver w)).1
  have hFrame : (deliverStep job d t w).uplink = t.uplink ∧
      (deliverStep job d t w).recirc = t.recirc ∧ (deliverStep job d t w).log = t.log := by
    unfold deliverStep
    split
    · exact ⟨rfl, rfl, rfl⟩
    · dsimp only
      split <;> exact ⟨rfl, rfl, rfl⟩
  refine ⟨hFrame.1.trans h.uplink, hFrame.2.1.trans h.recirc, hFrame.2.2.trans h.log,
    fun w' hAnswered => ?_⟩
  · rcases h.answered w' hAnswered with ⟨hDown, hPos⟩ | hLt
    · by_cases hw : w' = w
      · -- the answer is at the head of the downlink
        subst hw
        obtain ⟨k, pkt, rest, hHead, hPool⟩ := hAnswered
        right
        unfold deliverStep
        rw [hDown, hHead]
        dsimp only
        rw [if_pos (by rw [hAdv, hPos, hPool]; simp), ← hPos]
        simp
      · refine .inl ⟨?_, ?_⟩
        · rw [deliverStep_downlink, Function.update_of_ne hw, hDown]
        · rw [← hPos]
          unfold deliverStep
          split
          · rfl
          · dsimp only
            split
            · exact Function.update_of_ne hw ..
            · rfl
    · exact .inr (hLt.trans_le (hMono w'))

end Links

-- ---------------------------------------------------------------------------
-- Tries
-- ---------------------------------------------------------------------------

/-- Nothing is on the way. -/
structure SlotState.Quiet {n : ℕ} (s : SlotState n) : Prop where
  uplink : ∀ w, s.uplink w = []
  recirc : s.recirc = []
  downlink : ∀ w, s.downlink w = []

/-- State `t` is as `s`, up to registers, with the packet of worker `w` on its uplink, for which
the receive stage finds the slot. -/
structure Sent (job : Job) (s t : SlotState job.n) (w : Fin job.n) (rp : RocePacket) : Prop where
  uplink : t.uplink = Function.update (fun _ => []) w [(s.pos w, rp)]
  recirc : t.recirc = []
  downlink : ∀ w', t.downlink w' = []
  pos : t.pos = s.pos
  pool : receivedPoolIndex job.config.workers rp (t.regs 0) = some (job.pool (s.pos w))

/-- The packet of worker `w` has made its first pass in `t`. -/
structure Arrived (job : Job) (s t : SlotState job.n) (w : Fin job.n) : Prop where
  uplink : ∀ w', t.uplink w' = []
  downlink : ∀ w', t.downlink w' = []
  pos : t.pos = s.pos
  taken : consumed t.log 0 w (s.pos w) = true
  answered : (∀ w', consumed t.log 0 w' (s.pos w) = true) →
    ∃ f : Flight job.n, t.recirc = [f] ∧ f.tag.chunk = s.pos w ∧
      (f.reply.1 = .all ∨ f.reply.1 = .one w)

section Tries

variable {job : Job} {s t : SlotState job.n} {a : Staged.State (Fin job.n)} {w : Fin job.n}
  {rp : RocePacket}

/-- The packet arrives. -/
theorem Sent.arrive (h : Sent job s t w rp) (hSmall : job.large = false) {d : Discipline}
    (hSim : Sim job d t a) : Arrived job s (arriveStep job t w) w := by
  have hUp : t.uplink w = (s.pos w, rp) :: [] := by rw [h.uplink, Function.update_self]
  have hSend : job.sendable w (s.pos w) rp = true :=
    hSim.wellFormed.uplink w (s.pos w, rp) (by rw [hUp]; exact List.mem_cons_self)
  obtain ⟨st, met, hPass, -⟩ := receive_consumes hSend h.pool
  have hAnswer := hSim.arrival_answered hSmall hUp h.pool
  have hStep := arriveStep_takes hUp h.pool
  refine ⟨fun w' => ?_, fun w' => ?_, ?_, ?_, fun hAll => ?_⟩
  · rw [hStep, SlotState.emit_uplink, h.uplink]
    by_cases hw : w' = w
    · subst hw
      exact Function.update_self ..
    · simp [hw]
  · rw [hStep, hPass.emit_downlink hSmall]
    exact h.downlink w'
  · rw [hStep, SlotState.emit_pos]
    exact h.pos
  · rw [hStep, SlotState.emit_log, consumed_append]
    simp [Event.isConsume]
  · obtain ⟨f, hRecirc, hTag, hReply⟩ := hAnswer hAll
    exact ⟨f, by rw [hRecirc, h.recirc, List.nil_append], by rw [hTag], hReply⟩

end Tries

end SwitchML
