import SwitchML.Protocol.Pipe

/-!
# SwitchML protocol — passes of other slots

A pass of a packet of one slot leaves the registers of every other slot as they are,
and so does a packet that the receive stage rejects or does not know:
`receiveRoce_frame` and `recirculate_frame`.
-/

namespace SwitchML

open MatchAction

namespace SameSlot

variable {slot : SlotIndex} {regs regs' regs'' : Registers}

theorem refl (slot : SlotIndex) (regs : Registers) : SameSlot slot regs regs :=
  ⟨fun _ _ => rfl, fun _ _ => rfl, fun _ _ => rfl, fun _ _ _ => rfl⟩

theorem trans (h : SameSlot slot regs regs') (h' : SameSlot slot regs' regs'') :
    SameSlot slot regs regs'' :=
  ⟨fun p hp => (h'.bitmap p hp).trans (h.bitmap p hp),
    fun p hp => (h'.workerCount p hp).trans (h.workerCount p hp),
    fun p hp => (h'.exponents p hp).trans (h.exponents p hp),
    fun j p hp => (h'.significands j p hp).trans (h.significands j p hp)⟩

/-- Registers that differ in none of the arrays of the slots. -/
theorem of_eq (hB : regs'.workerBitmap = regs.workerBitmap)
    (hC : regs'.workerCount = regs.workerCount) (hE : regs'.exponents = regs.exponents)
    (hS : regs'.significands = regs.significands) : SameSlot slot regs regs' :=
  ⟨fun p _ => by rw [Registers.bitmap, Registers.bitmap, hB], fun p _ => by rw [hC],
    fun p _ => by rw [hE], fun j p _ => by rw [hS]⟩

end SameSlot

section Controls

variable {slot : SlotIndex} {regs : Registers} {st : PassState}

/-- A control keeps the pool index and the registers of all other slots. -/
def Frames (slot : SlotIndex) (regs : Registers) (st : PassState)
    (result : Registers × PassState) : Prop :=
  result.2.md.poolIndex = st.md.poolIndex ∧ SameSlot slot regs result.1

theorem update_of_slot_ne {α : Type} {p q : PoolIndex} (f : PoolIndex → α) (v : α)
    (hp : p.slot ≠ slot) (hq : q.slot = slot) : Function.update f p v q = f q := by
  refine Function.update_of_ne (fun hEq => hp ?_) _ _
  rw [← hEq]
  exact hq

theorem updateAndCheckWorkerBitmap_frames (h : st.md.poolIndex.slot ≠ slot) :
    Frames slot regs st (updateAndCheckWorkerBitmap regs st) := by
  have hUpdate : ∀ v, SameSlot slot regs
      { regs with workerBitmap := Function.update regs.workerBitmap st.md.poolIndex.slot v } := by
    intro v
    refine ⟨fun p hp => ?_, fun _ _ => rfl, fun _ _ => rfl, fun _ _ _ => rfl⟩
    have hne : p.slot ≠ st.md.poolIndex.slot := fun hEq => h (hEq ▸ hp)
    simp only [Registers.bitmap, Function.update_of_ne hne]
  unfold updateAndCheckWorkerBitmap
  dsimp only
  split
  · exact ⟨rfl, hUpdate _⟩
  · exact ⟨rfl, hUpdate _⟩
  · exact ⟨rfl, SameSlot.refl _ _⟩
  · exact ⟨rfl, SameSlot.refl _ _⟩

theorem countWorkers_frames (h : st.md.poolIndex.slot ≠ slot) :
    Frames slot regs st (countWorkers regs st) := by
  have hUpdate : ∀ v, SameSlot slot regs
      { regs with workerCount := Function.update regs.workerCount st.md.poolIndex v } :=
    fun v => ⟨fun _ _ => rfl, fun p hp => update_of_slot_ne _ _ h hp, fun _ _ => rfl,
      fun _ _ _ => rfl⟩
  unfold countWorkers
  dsimp only
  split
  · exact ⟨rfl, hUpdate _⟩
  · exact ⟨rfl, SameSlot.refl _ _⟩
  · exact ⟨rfl, hUpdate _⟩
  · exact ⟨rfl, SameSlot.refl _ _⟩
  · exact ⟨rfl, SameSlot.refl _ _⟩

theorem exponentMax_frames (h : st.md.poolIndex.slot ≠ slot) :
    Frames slot regs st (exponentMax regs st) := by
  have hUpdate : ∀ v, SameSlot slot regs
      { regs with exponents := Function.update regs.exponents st.md.poolIndex v } :=
    fun v => ⟨fun _ _ => rfl, fun _ _ => rfl, fun p hp => update_of_slot_ne _ _ h hp,
      fun _ _ _ => rfl⟩
  unfold exponentMax
  dsimp only
  split
  · exact ⟨rfl, hUpdate _⟩
  · exact ⟨rfl, hUpdate _⟩
  · exact ⟨rfl, SameSlot.refl _ _⟩
  · exact ⟨rfl, SameSlot.refl _ _⟩
  · exact ⟨rfl, SameSlot.refl _ _⟩

theorem significandSums_frames (h : st.md.poolIndex.slot ≠ slot) :
    Frames slot regs st (significandSums regs st) := by
  refine ⟨rfl, fun _ _ => rfl, fun _ _ => rfl, fun _ _ => rfl, fun j p hp => ?_⟩
  unfold significandSums
  dsimp only
  unfold significandSum
  dsimp only
  split
  · exact update_of_slot_ne _ _ h hp
  · exact update_of_slot_ne _ _ h hp
  · rfl
  · rfl
  · rfl

theorem Frames.bind {result result' : Registers × PassState} (h : Frames slot regs st result)
    (h' : Frames slot result.1 result.2 result') : Frames slot regs st result' :=
  ⟨h'.1.trans h.1, h.2.trans h'.2⟩

theorem checkSlot_frames (h : st.md.poolIndex.slot ≠ slot) :
    Frames slot regs st (checkSlot regs st) := by
  unfold checkSlot
  split
  · have hBits : Frames slot regs st _ := updateAndCheckWorkerBitmap_frames h
    refine hBits.bind (countWorkers_frames ?_)
    rw [hBits.1]
    exact h
  · exact ⟨rfl, SameSlot.refl _ _⟩

theorem processSlot_frame (cfg : SwitchConfig) (h : st.md.poolIndex.slot ≠ slot) :
    SameSlot slot regs (processSlot cfg regs st).1 := by
  have hExp : Frames slot regs st
      (if st.md.lastPacketOfMessage then exponentMax regs st else (regs, st)) := by
    split
    · exact exponentMax_frames h
    · exact ⟨rfl, SameSlot.refl _ _⟩
  unfold processSlot
  generalize (if st.md.lastPacketOfMessage then exponentMax regs st else (regs, st)) = result
    at hExp
  have hSums : Frames slot result.1 result.2 (significandSums result.1 result.2) :=
    significandSums_frames (by rw [hExp.1]; exact h)
  refine (hExp.bind hSums).2.trans ?_
  dsimp only
  split
  · exact SameSlot.of_eq rfl rfl rfl rfl
  · exact SameSlot.refl _ _

theorem switchmlPass_frame (cfg : SwitchConfig) (h : st.md.poolIndex.slot ≠ slot) :
    SameSlot slot regs (switchmlPass cfg regs st).1 := by
  have hCheck : Frames slot regs st (checkSlot regs st) := checkSlot_frames h
  unfold switchmlPass
  generalize checkSlot regs st = result at hCheck
  dsimp only
  split
  · exact hCheck.2
  · split
    · exact hCheck.2.trans (processSlot_frame cfg (by rw [hCheck.1]; exact h))
    · exact hCheck.2

/-- A packet that is dropped or not recognised passes by. -/
theorem switchmlPass_ignored (cfg : SwitchConfig)
    (h : st.dropCtl = true ∨ st.md.packetType = .ignore) :
    (switchmlPass cfg regs st).1 = regs := by
  have hCheck : checkSlot regs st = (regs, st) := by
    unfold checkSlot
    rcases h with h | h
    · rw [h]
    · rw [h]
      cases st.dropCtl <;> rfl
  unfold switchmlPass
  rw [hCheck]
  rcases h with h | h
  · simp [h]
  · simp [h, PacketType.code]

end Controls

-- ---------------------------------------------------------------------------
-- The receive stage
-- ---------------------------------------------------------------------------

theorem receiveAction_outcome (act : ReceiveAction) (rp : RocePacket) (regs : Registers)
    (st st' : PassState) (hDrop : st.dropCtl = st'.dropCtl)
    (hType : st.md.packetType = st'.md.packetType) :
    (act.run rp regs st).2.dropCtl = (act.run rp regs st').2.dropCtl ∧
    (act.run rp regs st).2.md.packetType = (act.run rp regs st').2.md.packetType ∧
    ((act.run rp regs st).2.md.packetType = .ignore ∨
      (act.run rp regs st).2.md.packetType = st.md.packetType ∧
      (act.run rp regs st).2.md.poolIndex = (act.run rp regs st').2.md.poolIndex) ∧
    ∀ slot, SameSlot slot regs (act.run rp regs st).1 := by
  cases act with
  | forward => exact ⟨hDrop, rfl, .inl rfl, fun _ => SameSlot.refl _ _⟩
  | onlyPacket args =>
    exact ⟨hDrop, hType, .inr ⟨rfl, rfl⟩, fun _ => SameSlot.of_eq rfl rfl rfl rfl⟩
  | onlyPacketImmediate args =>
    exact ⟨hDrop, hType, .inr ⟨rfl, rfl⟩, fun _ => SameSlot.of_eq rfl rfl rfl rfl⟩
  | firstPacket args =>
    exact ⟨hDrop, hType, .inr ⟨rfl, rfl⟩, fun _ => SameSlot.of_eq rfl rfl rfl rfl⟩
  | middlePacket args =>
    exact ⟨rfl, hType, .inr ⟨rfl, rfl⟩, fun _ => SameSlot.of_eq rfl rfl rfl rfl⟩
  | lastPacket args => exact ⟨rfl, hType, .inr ⟨rfl, rfl⟩, fun _ => SameSlot.of_eq rfl rfl rfl rfl⟩
  | lastPacketImmediate args =>
    exact ⟨rfl, hType, .inr ⟨rfl, rfl⟩, fun _ => SameSlot.of_eq rfl rfl rfl rfl⟩

theorem receiveAction_congr (act : ReceiveAction) (rp : RocePacket) (st : PassState)
    {regs regs' : Registers} (h : regs'.receiverData = regs.receiverData) :
    (act.run rp regs' st).2 = (act.run rp regs st).2 := by
  cases act <;>
    simp [ReceiveAction.run, onlyPacket, firstPacket, middlePacket, lastPacket, assignPoolIndex, h]

theorem receivedPoolIndex_congr (workers : List ReceiveEntry) (rp : RocePacket)
    {regs regs' : Registers} (h : regs'.receiverData = regs.receiverData) :
    receivedPoolIndex workers rp regs' = receivedPoolIndex workers rp regs := by
  unfold receivedPoolIndex rdmaReceiver
  rw [receiveAction_congr _ _ _ h]

/-- What the receive stage finds does not depend on anything but the packet and the
register of its queue pair. -/
theorem rdmaReceiver_outcome (workers : List ReceiveEntry) (rp : RocePacket)
    (regs : Registers) (st : PassState) (hDrop : st.dropCtl = false)
    (hType : st.md.packetType = .consume 0) :
    (receivedPoolIndex workers rp regs = none →
      (rdmaReceiver workers rp regs st).2.dropCtl = true ∨
      (rdmaReceiver workers rp regs st).2.md.packetType = .ignore) ∧
    (∀ p, receivedPoolIndex workers rp regs = some p →
      (rdmaReceiver workers rp regs st).2.dropCtl = false ∧
      (rdmaReceiver workers rp regs st).2.md.packetType = .consume 0 ∧
      (rdmaReceiver workers rp regs st).2.md.poolIndex = p) ∧
    ∀ slot, SameSlot slot regs (rdmaReceiver workers rp regs st).1 := by
  have hOut := receiveAction_outcome (lookup .forward (receiveKey rp) (receiveRoceEntries workers))
    rp regs st { md := { packetType := .consume 0 }, ingressPort := 0 } hDrop hType
  obtain ⟨hD, hT, hP, hSame⟩ := hOut
  unfold receivedPoolIndex rdmaReceiver
  dsimp only
  rw [← hD, ← hT]
  refine ⟨fun hNone => ?_, fun p hSome => ?_, hSame⟩
  · by_contra hNot
    rw [if_neg hNot] at hNone
    exact absurd hNone (by simp)
  · split at hSome
    · exact absurd hSome (by simp)
    · next hNot =>
      rw [not_or, Bool.not_eq_true] at hNot
      rcases hP with hP | ⟨hP, hPool⟩
      · exact absurd hP hNot.2
      · exact ⟨hNot.1, hP.trans hType, hPool.trans (Option.some.inj hSome)⟩

/-- The stages of a first pass leave all slots alone, and do not change what the receive
stage finds. -/
theorem firstPass_outcome (cfg : SwitchConfig) (rng : Rng) (rp : RocePacket)
    (regs : Registers) (st : PassState) (hDrop : st.dropCtl = false)
    (hType : st.md.packetType = .consume 0) :
    (receivedPoolIndex cfg.workers rp regs = none →
      (firstPass cfg rng rp regs st).2.dropCtl = true ∨
      (firstPass cfg rng rp regs st).2.md.packetType = .ignore) ∧
    (∀ p, receivedPoolIndex cfg.workers rp regs = some p →
      (firstPass cfg rng rp regs st).2.dropCtl = false ∧
      (firstPass cfg rng rp regs st).2.md.packetType = .consume 0 ∧
      (firstPass cfg rng rp regs st).2.md.poolIndex = p) ∧
    ∀ slot, SameSlot slot regs (firstPass cfg rng rp regs st).1 := by
  have hSim : ∀ st' : PassState,
      (egressDropSimulator rng.egress (ingressDropSimulator rng.ingress st')).dropCtl =
        st'.dropCtl ∧
      (egressDropSimulator rng.egress (ingressDropSimulator rng.ingress st')).md.packetType =
        st'.md.packetType ∧
      (egressDropSimulator rng.egress (ingressDropSimulator rng.ingress st')).md.poolIndex =
        st'.md.poolIndex := by
    intro st'
    unfold egressDropSimulator ingressDropSimulator
    dsimp only
    split <;> split <;> exact ⟨rfl, rfl, rfl⟩
  have hOut := rdmaReceiver_outcome cfg.workers rp (debugPacketId regs st).1
    (debugPacketId regs st).2 hDrop hType
  have hCongr : receivedPoolIndex cfg.workers rp (debugPacketId regs st).1 =
      receivedPoolIndex cfg.workers rp regs := receivedPoolIndex_congr _ _ rfl
  rw [hCongr] at hOut
  obtain ⟨hNone, hSome, hSame⟩ := hOut
  obtain ⟨h1, h2, h3⟩ :=
    hSim (rdmaReceiver cfg.workers rp (debugPacketId regs st).1 (debugPacketId regs st).2).2
  refine ⟨fun h => ?_, fun p h => ?_, fun slot => ?_⟩
  · rcases hNone h with hN | hN
    · exact .inl (h1.trans hN)
    · exact .inr (h2.trans hN)
  · obtain ⟨hA, hB, hC⟩ := hSome p h
    exact ⟨h1.trans hA, h2.trans hB, h3.trans hC⟩
  · have hId : SameSlot slot regs (debugPacketId regs st).1 := SameSlot.of_eq rfl rfl rfl rfl
    exact hId.trans (hSame slot)

/-- **Arrivals of other slots.** -/
theorem receiveRoce_frame {slot : SlotIndex} (cfg : SwitchConfig) (rng : Rng) (port : PortId)
    (rp : RocePacket) (regs : Registers)
    (h : ∀ p, receivedPoolIndex cfg.workers rp regs = some p → p.slot ≠ slot) :
    SameSlot slot regs (receiveRoce cfg rng port rp regs).1 := by
  unfold receiveRoce
  cases hParse : parseRoce cfg port rp with
  | none => exact SameSlot.refl _ _
  | some st =>
    obtain ⟨hDrop, hType⟩ : st.dropCtl = false ∧ st.md.packetType = .consume 0 := by
      unfold parseRoce at hParse
      split at hParse
      · exact absurd hParse (by simp)
      · split at hParse
        · rw [← Option.some.inj hParse]
          exact ⟨rfl, rfl⟩
        · exact absurd hParse (by simp)
    obtain ⟨hNone, hSome, hSame⟩ := firstPass_outcome cfg rng rp regs st hDrop hType
    dsimp only
    refine (hSame slot).trans ?_
    cases hPool : receivedPoolIndex cfg.workers rp regs with
    | none =>
      rw [switchmlPass_ignored cfg (hNone hPool)]
      exact SameSlot.refl _ _
    | some p =>
      exact switchmlPass_frame cfg (by rw [(hSome p hPool).2.2]; exact h p hPool)

theorem parseRecirculate_md {cfg : SwitchConfig} {port : PortId} {pkt : Packet} {st : PassState}
    (h : parseRecirculate cfg port pkt = some st) : st.md = pkt.md := by
  unfold parseRecirculate at h
  dsimp only at h
  split at h
  · split at h
    · exact absurd h (by simp)
    · rw [← Option.some.inj h]
    · exact absurd h (by simp)
    · rw [← Option.some.inj h]
  · exact absurd h (by simp)

/-- **Recirculated packets of other slots.** -/
theorem recirculate_frame {slot : SlotIndex} (cfg : SwitchConfig) (port : PortId)
    (pkt : Packet) (regs : Registers) (h : pkt.md.poolIndex.slot ≠ slot) :
    SameSlot slot regs (recirculate cfg port pkt regs).1 := by
  unfold recirculate
  cases hParse : parseRecirculate cfg port pkt with
  | none => exact SameSlot.refl _ _
  | some st =>
    dsimp only
    split
    · exact SameSlot.refl _ _
    · refine switchmlPass_frame cfg ?_
      split
      · rw [reconstructWorkerBitmap_md, parseRecirculate_md hParse]
        exact h
      · rw [parseRecirculate_md hParse]
        exact h

end SwitchML
