import SwitchML.Protocol.Exchange

/-!
# SwitchML protocol — the sequence numbers of a reply

The packets of a reply are numbered when they start to be harvested. The number is drawn
from the register of the queue pair of the packet that filled the slot up, and each worker
has a queue pair of its own: a reply whose slots were filled up by different workers is
numbered from different registers.

* `ReplyInv.step` — what has been drawn so far, in a message that is sent once and arrives;
* `reply_psns_consecutive` — the packets of the reply come in slot order, one for each
  slot, and are numbered consecutively exactly if the registers of the workers that filled
  the slots up happen to be that far apart; `reply_psns_clash` is a reply in which two
  workers filled one slot up each.
-/

namespace SwitchML

open MatchAction

-- ---------------------------------------------------------------------------
-- The reply
-- ---------------------------------------------------------------------------

/-- The worker whose `j`-th packet came last, from the packets in the order they came: the
sender and the number of each. -/
def completer {n : ℕ} (came : List (Fin n × ℕ)) (j : ℕ) : Option (Fin n) :=
  (came.reverse.find? fun a => decide (a.2 = j)).map Prod.fst

/-- The slots that were broadcast, with the sequence numbers of the packets. -/
def replyPsns {n m : ℕ} (log : List (Fin m × Event n)) : List (ℕ × BitVec 24) :=
  log.filterMap fun e => e.2.broadcast?.map fun pkt => (e.1.val, pkt.rdmaMd.psn)

namespace Exchange

variable (x : Exchange)

/-- A label after the packets of a message that have come. Each packet is sent once and
arrives, so a packet comes if those of its worker that have come are the ones before it. -/
def arrival (came : List (Fin x.job.n × ℕ)) : ExchangeLabel x.job.n → List (Fin x.job.n × ℕ)
  | .arrive w i rp =>
    if x.sends w i rp && (decide (i = came.countP fun a => decide (a.1 = w)) &&
      decide (i < x.packets)) then came ++ [(w, i)] else came
  | .harvest => came
  | .otherArrival _ _ => came
  | .otherRecirculation _ _ => came

/-- The packets of the message, in the order in which the labels let them come. -/
def arrivals (labels : List (ExchangeLabel x.job.n)) : List (Fin x.job.n × ℕ) :=
  labels.foldl x.arrival []

/-- The number the reply packet of slot `j` draws: from the register that the queue pair of
the slot's last worker had before the message, after the slots before it that this worker
came to last. -/
def drawnPsn (regs : Registers) (came : List (Fin x.job.n × ℕ)) (j : ℕ) : BitVec 24 :=
  match completer came j with
  | none => 0
  | some w => (regs.psn (x.qp w)).setWidth 24 +
      BitVec.ofNat 24 ((List.range j).countP fun i => decide (completer came i = some w))

/-- All packets have arrived, and no packet is in the switch. -/
structure Finished (s : ExchangeState x) : Prop where
  next : ∀ w, s.next w = x.packets
  recirc : s.recirc = []

end Exchange

-- ---------------------------------------------------------------------------
-- Who draws a number
-- ---------------------------------------------------------------------------

section Passes

variable (cfg : SwitchConfig) (regs : Registers) (st : PassState)

theorem nextStep_recircPortSelector (alternate : Option PortId) :
    (nextStep alternate st).md.recircPortSelector = st.md.recircPortSelector ∧
      (nextStep alternate st).rdmaMd = st.rdmaMd := by
  unfold nextStep
  cases lookup .drop (nextStepKey alternate st) nextStepEntries <;> exact ⟨rfl, rfl⟩

/-- A pass that starts the harvest draws a number. -/
theorem finishPass_draws (h : startsHarvest (nextStep cfg.alternateRecircPort st) = true) :
    (finishPass cfg regs st).1.psn = Function.update regs.psn st.md.recircPortSelector
        (regs.psn st.md.recircPortSelector + 1) ∧
      (finishRdmaMd cfg regs st).psn =
        (regs.psn st.md.recircPortSelector &&& 0x00ffffff).setWidth 24 := by
  have hFinish : finishPass cfg regs st =
      sequenceNumberAssignment regs (nextStep cfg.alternateRecircPort st) := if_pos h
  rw [finishRdmaMd, hFinish, sequenceNumberAssignment, (nextStep_recircPortSelector st _).1]
  exact ⟨rfl, rfl⟩

/-- Any other pass leaves the registers and the number of the packet alone. -/
theorem finishPass_keeps (h : startsHarvest (nextStep cfg.alternateRecircPort st) = false) :
    (finishPass cfg regs st).1.psn = regs.psn ∧ finishRdmaMd cfg regs st = st.rdmaMd := by
  have hFinish : finishPass cfg regs st = (regs, nextStep cfg.alternateRecircPort st) :=
    if_neg (by simp [h])
  rw [finishRdmaMd, hFinish]
  exact ⟨rfl, (nextStep_recircPortSelector st _).2⟩

/-- The first pass of a 256-byte packet starts the harvest where `next_step` sends it on. -/
theorem startsHarvest_consume0_256B (st : PassState) (alternate : Option PortId)
    (hSize : st.md.packetSize = .mtu256) (hType : st.md.packetType = .consume 0) :
    startsHarvest (nextStep alternate st) =
      decide (st.firstLastFlag = 1 ∨ st.mapResult ≠ 0 ∧ st.firstLastFlag = 0) := by
  have hAct : lookup .drop (nextStepKey alternate st) nextStepEntries =
      if st.firstLastFlag = 1 then .recirculateForHarvest7_256B 68
      else if st.mapResult = 0 then .finishConsume
      else if st.firstLastFlag = 0 then .recirculateForHarvest7_256B 68
      else .drop := lookup_consume0_256B hSize hType
  have hOn : startsHarvest (setSlotStatus
      ((NextStepAction.recirculateForHarvest7_256B 68).run alternate st)) = true := by
    simp [startsHarvest, setSlotStatus, NextStepAction.run, recirculateForHarvest, hSize]
  unfold nextStep
  rw [hAct]
  by_cases hOne : st.firstLastFlag = 1
  · rw [if_pos hOne, hOn, decide_eq_true (.inl hOne)]
  rw [if_neg hOne]
  by_cases hMap : st.mapResult = 0
  · rw [if_pos hMap, decide_eq_false fun h => h.elim hOne fun h => h.1 hMap]
    simp [startsHarvest, setSlotStatus, NextStepAction.run, hType]
  rw [if_neg hMap]
  by_cases hZero : st.firstLastFlag = 0
  · rw [if_pos hZero, hOn, decide_eq_true (.inr ⟨hMap, hZero⟩)]
  · rw [if_neg hZero, decide_eq_false fun h => h.elim hOne fun h => hZero h.2]
    simp [startsHarvest, setSlotStatus, NextStepAction.run]

/-- The last harvest pass does not. -/
theorem startsHarvest_harvest7 {st : PassState} (alternate : Option PortId)
    (hSize : st.md.packetSize = .mtu256) (hType : st.md.packetType = .harvest 7)
    (hRoce : st.md.workerType = .roceV2) : startsHarvest (nextStep alternate st) = false := by
  have hAct : lookup .drop (nextStepKey alternate st) nextStepEntries =
      if st.firstLastFlag = 1 ∧ st.mapResult = 0 then .broadcastRoce
      else if st.firstLastFlag = 0 ∧ st.mapResult ≠ 0 then .retransmitRoce
      else .drop := lookup_harvest7_roce (.inl hSize) hType hRoce
  unfold nextStep
  rw [hAct]
  split
  · simp [startsHarvest, setSlotStatus, NextStepAction.run, broadcastEth]
  · split
    · simp [startsHarvest, setSlotStatus, NextStepAction.run, retransmitEth]
    · simp [startsHarvest, setSlotStatus, NextStepAction.run]

/-- A control that comes before `next_step`. -/
def KeepsPsn (result : Registers × PassState) : Prop :=
  result.1.psn = regs.psn ∧ result.2.md.recircPortSelector = st.md.recircPortSelector

theorem checkSlot_keepsPsn : KeepsPsn regs st (checkSlot regs st) := by
  have hBits : KeepsPsn regs st (updateAndCheckWorkerBitmap regs st) := by
    unfold updateAndCheckWorkerBitmap
    dsimp only
    split <;> exact ⟨rfl, rfl⟩
  have hCount : ∀ regs st, KeepsPsn regs st (countWorkers regs st) := by
    intro regs st
    unfold countWorkers
    dsimp only
    split <;> exact ⟨rfl, rfl⟩
  unfold checkSlot
  split
  · exact ⟨(hCount _ _).1.trans hBits.1, (hCount _ _).2.trans hBits.2⟩
  · exact ⟨rfl, rfl⟩

theorem processSlot_psn_other {q : QueuePairIndex} (h : st.md.recircPortSelector ≠ q) :
    (processSlot cfg regs st).1.psn q = regs.psn q := by
  have hExp : KeepsPsn regs st (if st.md.lastPacketOfMessage then exponentMax regs st
      else (regs, st)) := by
    unfold exponentMax
    dsimp only
    split
    · split <;> exact ⟨rfl, rfl⟩
    · exact ⟨rfl, rfl⟩
  unfold processSlot
  generalize (if st.md.lastPacketOfMessage then exponentMax regs st else (regs, st)) = result
    at hExp
  have hSums : KeepsPsn result.1 result.2 (significandSums result.1 result.2) := ⟨rfl, rfl⟩
  rw [← hExp.1, ← hSums.1]
  dsimp only
  split
  · unfold sequenceNumberAssignment
    dsimp only
    rw [(nextStep_recircPortSelector _ _).1, hSums.2, hExp.2, Function.update_of_ne h.symm]
  · rfl

/-- A pass draws from the register of the packet's queue pair only. -/
theorem switchmlPass_psn_other {q : QueuePairIndex} (h : st.md.recircPortSelector ≠ q) :
    (switchmlPass cfg regs st).1.psn q = regs.psn q := by
  have hCheck := checkSlot_keepsPsn regs st
  unfold switchmlPass
  generalize checkSlot regs st = result at hCheck
  rw [← hCheck.1]
  dsimp only
  split
  · rfl
  · split
    · exact processSlot_psn_other cfg _ _ (by rw [hCheck.2]; exact h)
    · rfl

theorem firstPass_psn (rng : Rng) (rp : RocePacket) :
    (firstPass cfg rng rp regs st).1.psn = regs.psn ∧
      ((firstPass cfg rng rp regs st).2.md.packetType = .ignore ∨
        (firstPass cfg rng rp regs st).2.md.recircPortSelector = qpIndex rp.dstQp) := by
  have hSim : ∀ st' : PassState,
      (egressDropSimulator rng.egress (ingressDropSimulator rng.ingress st')).md.packetType =
        st'.md.packetType ∧
      (egressDropSimulator rng.egress
        (ingressDropSimulator rng.ingress st')).md.recircPortSelector =
        st'.md.recircPortSelector := by
    intro st'
    unfold egressDropSimulator ingressDropSimulator
    dsimp only
    split <;> split <;> exact ⟨rfl, rfl⟩
  unfold firstPass rdmaReceiver
  dsimp only
  rw [(hSim _).1, (hSim _).2]
  cases lookup .forward (receiveKey rp) (receiveRoceEntries cfg.workers) with
  | forward => exact ⟨rfl, .inl rfl⟩
  | onlyPacket args => exact ⟨rfl, .inr rfl⟩
  | onlyPacketImmediate args => exact ⟨rfl, .inr rfl⟩
  | firstPacket args => exact ⟨rfl, .inr rfl⟩
  | middlePacket args => exact ⟨rfl, .inr rfl⟩
  | lastPacket args => exact ⟨rfl, .inr rfl⟩
  | lastPacketImmediate args => exact ⟨rfl, .inr rfl⟩

theorem receiveRoce_psn_other (rng : Rng) (port : PortId) {rp : RocePacket} {q : QueuePairIndex}
    (h : qpIndex rp.dstQp ≠ q) : (receiveRoce cfg rng port rp regs).1.psn q = regs.psn q := by
  unfold receiveRoce
  cases hParse : parseRoce cfg port rp with
  | none => rfl
  | some st =>
    obtain ⟨hPsn, hOut⟩ := firstPass_psn cfg regs st rng rp
    dsimp only
    rw [← hPsn]
    rcases hOut with hIgnored | hQp
    · rw [switchmlPass_ignored cfg (.inr hIgnored)]
    · exact switchmlPass_psn_other cfg _ _ (by rw [hQp]; exact h)

theorem recirculate_psn_other (port : PortId) {pkt : Packet} {q : QueuePairIndex}
    (h : pkt.md.recircPortSelector ≠ q) : (recirculate cfg port pkt regs).1.psn q = regs.psn q := by
  unfold recirculate
  cases hParse : parseRecirculate cfg port pkt with
  | none => rfl
  | some st =>
    have hMd := parseRecirculate_md hParse
    dsimp only
    split
    · rfl
    · refine switchmlPass_psn_other cfg _ _ ?_
      split
      · rw [reconstructWorkerBitmap_md, hMd]
        exact h
      · rw [hMd]
        exact h

end Passes

-- ---------------------------------------------------------------------------
-- The passes of a message
-- ---------------------------------------------------------------------------

namespace Exchange

variable {x : Exchange} {w : Fin x.job.n} {i : ℕ} {rp : RocePacket} {j : Fin x.packets}
  {regs : Registers} {S : Finset (Fin x.job.n)}

/-- The register of a worker's queue pair after the first `i` packets of a message. -/
def Tracks (x : Exchange) (w : Fin x.job.n) (i : ℕ) (data : ReceiverData) : Prop :=
  0 < i → data.nextSequenceNumber = (x.firstPsn w + BitVec.ofNat 24 i).setWidth 32 ∧
    data.poolIndex.toNat + 2 = x.base.toNat + 2 * i

/-- The next packet of a message is let into the next slot. -/
theorem Sent.tracks (h : x.Sent w i rp) (hi : i < x.packets)
    (hReg : x.Tracks w i (regs.receiverData (x.qp w))) :
    x.Tracks w (i + 1) (x.received w rp regs) ∧
      receivedPoolIndex x.job.config.workers rp regs = some (x.poolIndex ⟨i, hi⟩) := by
  have hSmall : x.base.toNat + 2 * i < 2 ^ 31 := by
    have hFits := x.fits
    have hSlots : numSlots = 8192 := rfl
    have := x.base.isLt
    omega
  have hMod : i % x.packets = i := Nat.mod_eq_of_lt hi
  have hPsn : x.firstPsn w + BitVec.ofNat 24 (i + 1) = rp.psn + 1 := by
    rw [h.psn]
    bv_omega
  have hReceived : (x.received w rp regs).nextSequenceNumber = (rp.psn + 1).setWidth 32 ∧
      (x.received w rp regs).poolIndex.toNat = x.base.toNat + 2 * i := by
    unfold received receiverAction
    rw [h.first, hMod]
    by_cases h0 : i = 0
    · rw [decide_eq_true h0, if_pos rfl]
      refine ⟨succ_wraps rp.psn, ?_⟩
      simp only [receiverResetAction]
      rw [h.rKey (by rw [hMod, h0]), h0]
      bv_omega
    · obtain ⟨hNext, hPool⟩ := hReg (Nat.pos_of_ne_zero h0)
      rw [decide_eq_false h0, if_neg Bool.false_ne_true]
      simp only [receiverIncrementAction]
      rw [← h.psn] at hNext
      rw [if_pos hNext.symm]
      refine ⟨?_, ?_⟩
      · rw [hNext]
        exact succ_wraps rp.psn
      · rw [satAdd_toNat (by omega), hPool]
  refine ⟨fun _ => ⟨?_, ?_⟩, ?_⟩
  · rw [hReceived.1, hPsn]
  · rw [hReceived.2]
    omega
  · have hGood : (x.received w rp regs).poolIndex.getLsbD 31 = false := by
      rw [getLsbD_31, hReceived.2, decide_eq_false_iff_not]
      omega
    rw [h.receivedPoolIndex_eq, hGood, Bool.and_false, if_neg Bool.false_ne_true,
      extractLsb'_ofNat hReceived.2, ofNat_base_of_lt hi]

/-- **A packet that is let into a slot** draws a number exactly if it fills the slot up. -/
theorem Fills.take_psn (h : x.Fills regs j S) (hSent : x.Sent w i rp)
    (hPool : receivedPoolIndex x.job.config.workers rp regs = some (x.poolIndex j))
    (hNew : w ∉ S) :
    let pass := receiveRoce x.job.config {} (x.job.port w) rp regs
    if insert w S = Finset.univ then
      pass.1.psn = Function.update regs.psn (x.qp w) (regs.psn (x.qp w) + 1) ∧
        ∃ port pkt, pass.2 = .recirculated port pkt ∧
          pkt.rdmaMd.psn = (regs.psn (x.qp w) &&& 0x00ffffff).setWidth 24
    else pass.1.psn = regs.psn ∧ pass.2 = .dropped := by
  obtain ⟨parsed, hParse, regs', st, hFirst, hSame, hReady, hType, -, -, -, -, -, -, hQp⟩ :=
    receive_ready (hSent.sendable j) (by rw [slotJob_pool]; exact hPool)
  have hParse : parseRoce x.job.config (x.job.port w) rp = some parsed := hParse
  have hFirst : firstPass x.job.config {} rp regs parsed = (regs', st) := hFirst
  have hPsn : regs'.psn = regs.psn := by
    have hKeep := (firstPass_psn x.job.config regs parsed {} rp).1
    rwa [hFirst] at hKeep
  have hRun : receiveRoce x.job.config {} (x.job.port w) rp regs =
      ((finishPass x.job.config (consumeRegs regs' st 0) (consumeState regs' st 0)).1,
        emission
          (finishPass x.job.config (consumeRegs regs' st 0) (consumeState regs' st 0)).2) := by
    unfold receiveRoce
    rw [hParse]
    dsimp only
    rw [hFirst, switchmlPass_consume _ hType hReady.fresh.dropCtl hReady.noDrop]
  obtain ⟨hMap, hFlag, -⟩ := (h.congr hSame).consume hReady.consumeReady
  have hPipes : (x.slotJob j rp.opcode.isLast).pipes = 1 := by simp [Job.pipes, x.small]
  have hOut := consume_finishes hReady hType hPipes.symm regs' (consumeRegs regs' st 0)
  have hStarts := startsHarvest_consume0_256B (consumeState regs' st 0)
    x.job.config.alternateRecircPort (hReady.mtu256 x.small) hType
  -- a new packet goes on only as the last one
  have hFull : (consumeFlag regs' st = 1 ∨ consumeMap regs' st ≠ 0 ∧ consumeFlag regs' st = 0) ↔
      insert w S = Finset.univ := by
    rw [← hFlag hNew]
    exact or_iff_left fun hDup => hDup.1 (hMap.mpr hNew)
  have hStarts : startsHarvest (nextStep x.job.config.alternateRecircPort
      (consumeState regs' st 0)) = decide (insert w S = Finset.univ) := by
    rw [hStarts]
    exact decide_eq_decide.mpr hFull
  have hSelector : (consumeState regs' st 0).md.recircPortSelector = x.qp w := hQp.trans hSent.qp
  intro pass
  have hPass : pass = _ := hRun
  split
  · next hAll =>
    obtain ⟨hRegs, hMd⟩ := finishPass_draws x.job.config (consumeRegs regs' st 0) _
      (hStarts.trans (decide_eq_true hAll))
    have hKeep : (consumeRegs regs' st 0).psn = regs.psn := hPsn
    rw [hSelector, hKeep] at hRegs hMd
    rw [if_pos (hFull.mpr hAll)] at hOut
    rw [hPass]
    exact ⟨hRegs, _, _, hOut, hMd⟩
  · next hNot =>
    obtain ⟨hRegs, -⟩ := finishPass_keeps x.job.config (consumeRegs regs' st 0) _
      (hStarts.trans (decide_eq_false hNot))
    rw [if_neg (mt hFull.mp hNot)] at hOut
    rw [hPass]
    exact ⟨hRegs.trans hPsn, hOut⟩

/-- **A packet that comes back for the harvest** keeps its number. -/
theorem harvest_psn {last : Bool} {f : Flight x.job.n} (h : FlightOk (x.slotJob j last) f)
    (regs : Registers) :
    let pass := recirculate x.job.config f.port f.pkt regs
    pass.1.psn = regs.psn ∧ ∀ ty pkt, Event.broadcast? ⟨f.id, f.tag, ty, pass.2⟩ = some pkt →
      pkt.rdmaMd = f.pkt.rdmaMd := by
  obtain ⟨hType, hPort⟩ := harvest7_of_flightOk h
  obtain ⟨st, hReady, hMd, hRdma, -, -, -, -, -, hRun⟩ := recirculate_enters_harvest h.md hType
    (show isRecirculationPort f.port = true by rw [hPort]; decide)
  have hTypeSt : st.md.packetType = .harvest 7 := by rw [hMd, hType]
  obtain ⟨hPsn, hKeep⟩ := finishPass_keeps x.job.config regs (harvestState regs st 7)
    (startsHarvest_harvest7 _ (hReady.mtu256 x.small) hTypeSt hReady.md.workerType)
  have hEnds := harvest_ends hReady hTypeSt regs regs
  intro pass
  have hPass : pass = _ := hRun regs
  refine ⟨by rw [hPass]; exact hPsn, fun ty pkt hCast => ?_⟩
  have hOut : pass.2 = _ := (congrArg Prod.snd hPass).trans hEnds
  rw [hOut] at hCast
  split at hCast
  · rw [← Option.some.inj hCast, ← hRdma]
    exact hKeep
  · split at hCast
    · exact absurd hCast (by simp [Event.broadcast?])
    · exact absurd hCast (by simp [Event.broadcast?])

end Exchange

-- ---------------------------------------------------------------------------
-- The invariant
-- ---------------------------------------------------------------------------

section Later

variable {n : ℕ} (came : List (Fin n × ℕ)) (w : Fin n)

theorem completer_append (i j : ℕ) :
    completer (came ++ [(w, i)]) j = if i = j then some w else completer came j := by
  unfold completer
  rw [List.reverse_append, List.reverse_singleton, List.singleton_append, List.find?_cons]
  by_cases h : i = j
  · rw [if_pos h]
    simp [h]
  · rw [if_neg h]
    simp [h]

/-- A packet that comes to a later slot changes nothing for the first `k`. -/
theorem countP_completer_later {i k : ℕ} (hLe : k ≤ i) (w' : Fin n) :
    ((List.range k).countP fun j => decide (completer (came ++ [(w, i)]) j = some w')) =
      (List.range k).countP fun j => decide (completer came j = some w') := by
  refine List.countP_congr fun j hj => ?_
  have := List.mem_range.mp hj
  rw [completer_append, if_neg (by omega)]

end Later

theorem Exchange.drawnPsn_later {x : Exchange} (regs : Registers) (came : List (Fin x.job.n × ℕ))
    (w : Fin x.job.n) {i j : ℕ} (hj : j < i) :
    x.drawnPsn regs (came ++ [(w, i)]) j = x.drawnPsn regs came j := by
  unfold Exchange.drawnPsn
  rw [completer_append, if_neg (by omega)]
  cases completer came j with
  | none => rfl
  | some w' =>
    dsimp only
    rw [countP_completer_later came w (Nat.le_of_lt hj)]

/-- What a drawn number is: the low bits of a register that has gone up `a` times. -/
theorem drawn_setWidth (psn : BitVec 32) (a : ℕ) :
    ((psn + BitVec.ofNat 32 a) &&& 0x00ffffff).setWidth 24 =
      psn.setWidth 24 + BitVec.ofNat 24 a := by
  apply BitVec.eq_of_toNat_eq
  have hMask : ((psn + BitVec.ofNat 32 a) &&& 0x00ffffff).toNat =
      (psn + BitVec.ofNat 32 a).toNat % 2 ^ 24 := by
    rw [BitVec.toNat_and]
    exact Nat.and_two_pow_sub_one_eq_mod _ 24
  rw [BitVec.toNat_setWidth, hMask]
  simp only [BitVec.toNat_add, BitVec.toNat_ofNat, BitVec.toNat_setWidth]
  omega

/-- A message that is sent once and arrives, after the packets `came`: every worker has
passed the slots of its packets among them, and the registers have gone up by what was
drawn. -/
structure ReplyInv (x : Exchange) (regs₀ : Registers) (came : List (Fin x.job.n × ℕ))
    (s : ExchangeState x) (c : Cascade (Fin x.job.n)) (k : ℕ) : Prop where
  inv : ExchangeInv x s c k
  next : ∀ w, s.next w = came.countP fun a => decide (a.1 = w)
  passed : ∀ w j, w ∈ c.passed j ↔ j < s.next w
  next_le : ∀ w, s.next w ≤ x.packets
  tracks : ∀ w, x.Tracks w (s.next w) (s.regs.receiverData (x.qp w))
  psn : ∀ w, s.regs.psn (x.qp w) = regs₀.psn (x.qp w) +
    BitVec.ofNat 32 ((List.range k).countP fun i => decide (completer came i = some w))
  pending : ∀ f ∈ s.recirc, f.2.completes = true ∧
    f.2.pkt.rdmaMd.psn = x.drawnPsn regs₀ came f.1
  sent : ∀ e ∈ s.log, ∀ pkt, e.2.broadcast? = some pkt →
    pkt.rdmaMd.psn = x.drawnPsn regs₀ came e.1

namespace ReplyInv

variable {x : Exchange} {regs₀ : Registers} {came : List (Fin x.job.n × ℕ)}
  {s : ExchangeState x} {c : Cascade (Fin x.job.n)} {k : ℕ}

theorem init (h : x.Fresh regs₀) : ReplyInv x regs₀ [] { regs := regs₀ } Cascade.empty 0 where
  inv := .init h
  next _ := rfl
  passed w j := iff_of_false (by simp [Cascade.empty]) (Nat.not_lt_zero j)
  next_le _ := Nat.zero_le _
  tracks _ h0 := absurd h0 (Nat.lt_irrefl 0)
  psn _ := by simp
  pending f hf := absurd hf (by simp)
  sent e he := absurd he (by simp)

/-- What waits to be broadcast or was is about slots that are full. -/
theorem pending_lt (h : ReplyInv x regs₀ came s c k) {f : Fin x.packets × Flight x.job.n}
    (hf : f ∈ s.recirc) : f.1.val < k := by
  rw [← List.mem_range, ← h.inv.order]
  refine List.mem_append_right _ (List.mem_map.mpr ⟨f, List.mem_filter.mpr ⟨hf, ?_⟩, rfl⟩)
  exact (h.pending f hf).1

theorem sent_lt (h : ReplyInv x regs₀ came s c k) {e : Fin x.packets × Event x.job.n}
    (he : e ∈ s.log) {pkt : Packet} (hCast : e.2.broadcast? = some pkt) : e.1.val < k := by
  rw [← List.mem_range, ← h.inv.order]
  refine List.mem_append_left _ (List.mem_map.mpr ⟨e, List.mem_filter.mpr ⟨he, ?_⟩, rfl⟩)
  rw [hCast]
  rfl

/-- Passes of other traffic. -/
theorem frame (h : ReplyInv x regs₀ came s c k) {regs : Registers}
    (hSlots : ∀ j, SameSlot (x.slot j) s.regs regs)
    (hData : ∀ w, regs.receiverData (x.qp w) = s.regs.receiverData (x.qp w))
    (hPsn : ∀ w, regs.psn (x.qp w) = s.regs.psn (x.qp w)) :
    ReplyInv x regs₀ came { s with regs } c k where
  inv := h.inv.frame hSlots hData
  next := h.next
  passed := h.passed
  next_le := h.next_le
  tracks w := by
    rw [hData w]
    exact h.tracks w
  psn w := by
    rw [hPsn w]
    exact h.psn w
  pending := h.pending
  sent := h.sent

theorem harvestStep (h : ReplyInv x regs₀ came s c k) :
    ReplyInv x regs₀ came (x.harvestStep s) c k := by
  have hInv := h.inv.harvestStep
  unfold Exchange.harvestStep at hInv ⊢
  split at hInv
  · exact h
  next j f rest hRecirc =>
  have hMem : (j, f) ∈ s.recirc := by
    rw [hRecirc]
    exact List.mem_cons_self
  have hOk := h.inv.flights (j, f) hMem
  obtain ⟨-, hFlight, -⟩ := Exchange.harvest_replies hOk s.regs
  obtain ⟨hPsn, hCast⟩ := Exchange.harvest_psn hOk s.regs
  generalize hPass : recirculate x.job.config f.port f.pkt s.regs = pass at *
  have hData : pass.1.receiverData = s.regs.receiverData := by
    rw [← hPass, recirculate_receiverData]
  refine ⟨hInv, h.next, h.passed, h.next_le, ?_, ?_, ?_, ?_⟩
  · intro w
    simp only [Exchange.emit, hData]
    exact h.tracks w
  · intro w
    simp only [Exchange.emit, hPsn]
    exact h.psn w
  · intro g hg
    simp only [Exchange.emit, hFlight, List.map_nil, List.append_nil] at hg
    exact h.pending g (by rw [hRecirc]; exact List.mem_cons_of_mem _ hg)
  · intro e he pkt hBroadcast
    simp only [Exchange.emit] at he
    rcases List.mem_append.mp he with he | he
    · exact h.sent e he pkt hBroadcast
    · rw [List.mem_singleton] at he
      subst he
      rw [hCast _ pkt hBroadcast]
      exact (h.pending _ hMem).2

/-- The slots that the workers have passed, after the next packet of `w`. -/
theorem passed_pass (h : ReplyInv x regs₀ came s c k) {w : Fin x.job.n} {i : ℕ}
    (hNext : s.next w = i) (hBefore : ∀ i' < i, w ∈ c.passed i') (w' : Fin x.job.n) (j : ℕ) :
    w' ∈ (c.pass w i hBefore).passed j ↔ j < Function.update s.next w (i + 1) w' := by
  by_cases hj : j = i
  · subst hj
    rw [Cascade.pass_passed_self, Finset.mem_insert]
    by_cases hw : w' = w
    · simp [hw]
    · rw [Function.update_of_ne hw, ← h.passed]
      exact or_iff_right hw
  · rw [Cascade.pass_passed_of_ne hBefore hj, h.passed]
    by_cases hw : w' = w
    · rw [hw, Function.update_self, hNext]
      omega
    · rw [Function.update_of_ne hw]

/-- The packets of each worker that have come, after the next packet of `w`. -/
theorem next_append (h : ReplyInv x regs₀ came s c k) {w : Fin x.job.n} {i : ℕ}
    (hNext : s.next w = i) (w' : Fin x.job.n) :
    Function.update s.next w (i + 1) w' =
      (came ++ [(w, i)]).countP fun a => decide (a.1 = w') := by
  rw [List.countP_append, List.countP_singleton, ← h.next w']
  by_cases hw : w' = w
  · rw [hw, Function.update_self, hNext, if_pos (decide_eq_true rfl)]
  · rw [Function.update_of_ne hw, if_neg (by simp [Ne.symm hw])]
    rfl

/-- The registers after `w` has filled slot `k` up. -/
theorem psn_append (h : ReplyInv x regs₀ came s c k) (w w' : Fin x.job.n) :
    Function.update s.regs.psn (x.qp w) (s.regs.psn (x.qp w) + 1) (x.qp w') =
      regs₀.psn (x.qp w') + BitVec.ofNat 32 ((List.range (k + 1)).countP fun j =>
        decide (completer (came ++ [(w, k)]) j = some w')) := by
  rw [List.range_succ, List.countP_append, countP_completer_later came w (Nat.le_refl k),
    List.countP_singleton, completer_append, if_pos rfl]
  by_cases hw : w' = w
  · rw [hw, Function.update_self, h.psn w, if_pos (by simp), BitVec.add_assoc]
    congr 1
    exact (BitVec.ofNat_add _ 1).symm
  · rw [Function.update_of_ne fun hQp => hw (Exchange.qp_injective hQp), h.psn w',
      if_neg (by simp [Ne.symm hw])]
    rfl

/-- The number that `w` draws for slot `k`. -/
theorem drawnPsn_append (h : ReplyInv x regs₀ came s c k) (w : Fin x.job.n) :
    x.drawnPsn regs₀ (came ++ [(w, k)]) k =
      (s.regs.psn (x.qp w) &&& 0x00ffffff).setWidth 24 := by
  rw [h.psn w, drawn_setWidth, Exchange.drawnPsn, completer_append, if_pos rfl]
  dsimp only
  rw [countP_completer_later came w (Nat.le_refl k)]

theorem arriveStep (h : ReplyInv x regs₀ came s c k) {w : Fin x.job.n} {i : ℕ} {rp : RocePacket}
    (hSent : x.Sent w i rp) (hNext : s.next w = i) (hi : i < x.packets) :
    ∃ c' k', ReplyInv x regs₀ (came ++ [(w, i)]) (x.arriveStep s w i rp) c' k' := by
  obtain ⟨hTracks, hPool⟩ := hSent.tracks hi (hNext ▸ h.tracks w)
  have hBefore : ∀ i' < (⟨i, hi⟩ : Fin x.packets).val, w ∈ c.passed i' := fun i' hi' =>
    (h.passed w i').mpr (hNext ▸ hi')
  have hNew : w ∉ c.passed i := fun hMem => by
    have := (h.passed w i).mp hMem
    omega
  have hReached : x.Reached (x.received w rp s.regs)
      fun i' => w ∈ (c.pass w i hBefore).passed i' := by
    refine .inr ⟨i, ?_, fun i' hi' _ => Cascade.mem_pass_of_le hBefore hi'⟩
    have := (hTracks (Nat.succ_pos i)).2
    omega
  have hInv := h.inv.take (Function.update s.next w (i + 1)) hSent hPool hBefore
    (fun w' hNe => Function.update_of_ne hNe (s.opened w || rp.opcode.isFirst) s.opened) hReached
  have hPsn := (h.inv.fills ⟨i, hi⟩).take_psn hSent hPool hNew
  obtain ⟨-, -, hCount, hCast⟩ := (h.inv.fills ⟨i, hi⟩).take hSent hPool
  have hData := hSent.receiverData_eq s.regs
  have hOther : ∀ w', w' ≠ w →
      (receiveRoce x.job.config {} (x.job.port w) rp s.regs).1.receiverData (x.qp w') =
        s.regs.receiverData (x.qp w') := fun w' hNe =>
    receiveRoce_other _ _ _ _ fun hQp => hNe (Exchange.qp_injective (hQp.symm.trans hSent.qp))
  unfold Exchange.arriveStep
  rw [hPool, Option.bind_some, Exchange.packetOf_poolIndex]
  generalize receiveRoce x.job.config {} (x.job.port w) rp s.regs = pass at *
  dsimp only [Exchange.emit] at hInv ⊢
  have hLe : k ≤ i := by
    by_contra hLt
    exact hNew ((h.inv.frontier i).mpr (by omega) ▸ Finset.mem_univ w)
  have hEq : insert w (c.passed i) = Finset.univ → i = k := fun hAll =>
    (h.inv.frontier.pass_completes hBefore hNew hAll).1
  refine ⟨_, _, hInv, h.next_append hNext, h.passed_pass hNext hBefore, ?_, ?_, ?_, ?_, ?_⟩
  · intro w'
    dsimp only
    by_cases hw : w' = w
    · rw [hw, Function.update_self]
      exact hi
    · rw [Function.update_of_ne hw]
      exact h.next_le w'
  · intro w'
    dsimp only
    by_cases hw : w' = w
    · rw [hw, Function.update_self, hData]
      exact hTracks
    · rw [Function.update_of_ne hw, hOther w' hw]
      exact h.tracks w'
  · intro w'
    dsimp only
    split
    · next hFull =>
      simp only [if_pos hFull.2] at hPsn
      rw [hPsn.1, hEq hFull.2]
      exact h.psn_append w w'
    · next hNot =>
      simp only [if_neg fun hAll => hNot ⟨hNew, hAll⟩] at hPsn
      rw [hPsn.1, countP_completer_later came w hLe, h.psn w']
  · intro f hf
    dsimp only at hf ⊢
    rcases List.mem_append.mp hf with hf | hf
    · rw [Exchange.drawnPsn_later _ _ _ (Nat.lt_of_lt_of_le (h.pending_lt hf) hLe)]
      exact h.pending f hf
    obtain ⟨g, hg, rfl⟩ := List.mem_map.mp hf
    obtain ⟨-, -, hEmit⟩ := Emission.flight_id _ _ _ hg
    dsimp only at hPsn ⊢
    split at hPsn
    · next hAll =>
      obtain ⟨-, port, pkt, hOut, hDraw⟩ := hPsn
      rw [if_pos ⟨hNew, hAll⟩] at hCount
      refine ⟨List.countP_eq_length.mp ?_ g hg, ?_⟩
      · rw [hCount, hOut]
        rfl
      · obtain ⟨-, hPkt⟩ := Emission.recirculated.inj (hEmit.symm.trans hOut)
        rw [hPkt, hDraw, hEq hAll, h.drawnPsn_append w]
    · rw [hPsn.2] at hEmit
      exact absurd hEmit (by simp)
  · intro e he pkt hBroadcast
    dsimp only at he ⊢
    rcases List.mem_append.mp he with he | he
    · rw [Exchange.drawnPsn_later _ _ _ (Nat.lt_of_lt_of_le (h.sent_lt he hBroadcast) hLe)]
      exact h.sent e he pkt hBroadcast
    · rw [List.mem_singleton.mp he] at hBroadcast
      rw [hCast] at hBroadcast
      exact absurd hBroadcast (by simp)

/-- **One step.** -/
theorem step (h : ReplyInv x regs₀ came s c k) (label : ExchangeLabel x.job.n) :
    ∃ c' k', ReplyInv x regs₀ (x.arrival came label) (x.exchangeStep false s label) c' k' := by
  cases label with
  | arrive w i rp =>
    simp only [Exchange.exchangeStep, Exchange.admits, Exchange.arrival, Bool.false_eq_true,
      if_false, ← h.next]
    split
    · next hAdmits =>
      simp only [Bool.and_eq_true, decide_eq_true_eq] at hAdmits
      exact h.arriveStep (Exchange.of_sends hAdmits.1) hAdmits.2.1.symm hAdmits.2.2
    · exact ⟨c, k, h⟩
  | harvest => exact ⟨c, k, h.harvestStep⟩
  | otherArrival port rp =>
    simp only [Exchange.exchangeStep]
    split
    · exact ⟨c, k, h⟩
    · next hOther =>
      rw [Bool.or_eq_true, not_or] at hOther
      have hQp := Exchange.ne_of_usesQp hOther.1
      exact ⟨c, k, h.frame (Exchange.sameSlot_otherArrival port hOther.2)
        (fun w => receiveRoce_other _ _ _ _ (hQp w)) fun w => receiveRoce_psn_other _ _ _ _ (hQp w)⟩
  | otherRecirculation port pkt =>
    simp only [Exchange.exchangeStep]
    split
    · exact ⟨c, k, h⟩
    · next hOther =>
      simp only [Bool.not_false, Bool.true_and, Bool.or_eq_true, not_or] at hOther
      exact ⟨c, k, h.frame (fun j => recirculate_frame _ _ _ _ (Exchange.ne_of_usesSlot hOther.1 j))
        (fun w => by rw [recirculate_receiverData])
        fun w => recirculate_psn_other _ _ _ (Exchange.ne_of_usesQp hOther.2 w)⟩

/-- **Whole runs.** -/
theorem run (labels : List (ExchangeLabel x.job.n)) :
    ∀ {came : List (Fin x.job.n × ℕ)} {s : ExchangeState x} {c : Cascade (Fin x.job.n)} {k : ℕ},
      ReplyInv x regs₀ came s c k →
      ∃ c' k', ReplyInv x regs₀ (labels.foldl x.arrival came) (x.exchangeRun false s labels)
        c' k' := by
  induction labels with
  | nil => exact fun h => ⟨_, _, h⟩
  | cons label labels ih =>
    intro came s c k h
    obtain ⟨c', k', h'⟩ := h.step label
    exact ih h'

/-- What was broadcast, with the numbers. -/
theorem replyPsns_eq (h : ReplyInv x regs₀ came s c k) :
    replyPsns s.log = (casts s.log).map fun j => (j, x.drawnPsn regs₀ came j) := by
  have hAll : ∀ log : List (Fin x.packets × Event x.job.n), (∀ e ∈ log, e ∈ s.log) →
      replyPsns log = (casts log).map fun j => (j, x.drawnPsn regs₀ came j) := by
    intro log hLog
    induction log with
    | nil => rfl
    | cons e log ih =>
      have hTail := ih fun e' he' => hLog e' (List.mem_cons_of_mem _ he')
      unfold replyPsns casts at hTail ⊢
      rw [List.filterMap_cons, List.filter_cons]
      cases hCast : e.2.broadcast? with
      | none => simpa using hTail
      | some pkt => simp [hTail, h.sent e (hLog e List.mem_cons_self) pkt hCast]
  exact hAll s.log fun e he => he

/-- At the end of the message all slots were broadcast, in order. -/
theorem casts_of_finished (h : ReplyInv x regs₀ came s c k) (hDone : x.Finished s) :
    casts s.log = List.range x.packets := by
  have hOrder := h.inv.order
  rw [hDone.recirc] at hOrder
  have hk : k = x.packets := by
    have hFull : ∀ j, c.passed j = Finset.univ ↔ j < x.packets := by
      intro j
      rw [Finset.eq_univ_iff_forall]
      simp only [h.passed, hDone.next]
      exact ⟨fun hAll => hAll ⟨0, x.job.n_pos⟩, fun hLt _ => hLt⟩
    have hFrontier : ∀ j, j < k ↔ j < x.packets := fun j =>
      (h.inv.frontier j).symm.trans (hFull j)
    exact Nat.le_antisymm (Nat.le_of_not_lt fun hLt => absurd ((hFrontier x.packets).mp hLt)
      (Nat.lt_irrefl _)) (Nat.le_of_not_lt fun hLt => absurd ((hFrontier k).mpr hLt)
      (Nat.lt_irrefl _))
  rw [hk] at hOrder
  exact (List.append_nil _).symm.trans hOrder

end ReplyInv

-- ---------------------------------------------------------------------------
-- Consecutive numbers
-- ---------------------------------------------------------------------------

/-- **The numbers of a reply.** The packets of the reply come in slot order, one for each
slot. They are numbered consecutively exactly if what the workers that came last to the
slots draw from their registers happens to be; who came last is a matter of the labels
alone. -/
theorem reply_psns_consecutive (x : Exchange) {regs : Registers} (hFresh : x.Fresh regs)
    (labels : List (ExchangeLabel x.job.n))
    (hDone : x.Finished (x.exchangeRun false { regs } labels)) :
    let log := (x.exchangeRun false { regs } labels).log
    let came := x.arrivals labels
    (∃ p, replyPsns log = (List.range x.packets).map fun j => (j, p + BitVec.ofNat 24 j)) ↔
      ∀ j < x.packets, x.drawnPsn regs came j = x.drawnPsn regs came 0 + BitVec.ofNat 24 j := by
  obtain ⟨c, k, hInv⟩ := (ReplyInv.init hFresh).run labels
  intro log came
  have hReply : replyPsns log =
      (List.range x.packets).map fun j => (j, x.drawnPsn regs came j) := by
    rw [← hInv.casts_of_finished hDone]
    exact hInv.replyPsns_eq
  rw [hReply]
  simp only [List.map_inj_left, List.mem_range, Prod.mk.injEq, true_and]
  constructor
  · rintro ⟨p, hp⟩ j hj
    have hFirst : x.drawnPsn regs came 0 = p := by
      rw [hp 0 x.packets_pos]
      simp
    rw [hp j hj, hFirst]
  · exact fun h => ⟨_, h⟩

theorem reply_psns_consecutive_pair :
    let x := Exchange.plain 2 (by decide) (by decide) 2 (by decide) (by decide) 7
    -- worker 1 comes last to both slots
    let labels : List (ExchangeLabel 2) :=
      [.arrive 0 0 (x.packet (0 : Fin 2) 0 1), .arrive 0 1 (x.packet (0 : Fin 2) 1 3),
        .arrive 1 0 (x.packet (1 : Fin 2) 0 2), .arrive 1 1 (x.packet (1 : Fin 2) 1 4),
        .harvest, .harvest]
    let log := (x.exchangeRun false { regs := {} } labels).log
    ∃ p, replyPsns log = (List.range 2).map fun j => (j, p + BitVec.ofNat 24 j) := by
  intro x labels log
  have hDone : x.Finished (x.exchangeRun false { regs := {} } labels) :=
    ⟨by decide +kernel, by decide +kernel⟩
  exact (reply_psns_consecutive x (fresh_clearRegisters x {}) labels hDone).mpr (by decide +kernel)

/-- **Two registers.** Worker 0 comes last to the first slot, worker 1 to the second: both
packets of the reply have number 0. -/
theorem reply_psns_clash :
    let x := Exchange.plain 2 (by decide) (by decide) 2 (by decide) (by decide) 7
    let labels : List (ExchangeLabel 2) :=
      [.arrive 1 0 (x.packet (1 : Fin 2) 0 2), .arrive 0 0 (x.packet (0 : Fin 2) 0 1),
        .arrive 0 1 (x.packet (0 : Fin 2) 1 3), .arrive 1 1 (x.packet (1 : Fin 2) 1 4),
        .harvest, .harvest]
    let s := x.exchangeRun false { regs := {} } labels
    x.Fresh {} ∧ x.Finished s ∧ replyPsns s.log = [(0, 0), (1, 0)] := by
  intro x labels s
  exact ⟨fresh_clearRegisters x {}, ⟨by decide +kernel, by decide +kernel⟩, by decide +kernel⟩

end SwitchML
