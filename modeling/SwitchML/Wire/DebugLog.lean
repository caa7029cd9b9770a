import SwitchML.Wire.Egress

/-!
# SwitchML wire format — the packet log

`DebugLog` and `EgressDebugLog` write one 64-bit entry for each packet they see. The
control plane reads the entries (`DebugLog.get_log`, which takes an entry of zero for an
unused one) and decodes them itself (`parse_log_entry`) or leaves this to a script
(`Packet.parse` of `convert_log.py`). Four bits of an entry differ in meaning: the status of
the slot in ingress, a part of the egress port in egress. The script tells the two apart by
the packet type.

`log_decodes` — every entry is nonzero, and both decoders recover what was logged; the
script reports an egress entry as one if and only if the packet was not made to be lost.
`Egress.apply` gives such a packet the type `IGNORE` before it logs it, and its entry is
then read as one of ingress (`dropped_reply_misreported`).
-/

namespace SwitchML.Wire

-- ---------------------------------------------------------------------------
-- The log of the switch
-- ---------------------------------------------------------------------------

/-- The address bits that ingress logs. -/
def IngressState.addressBits (undefined : BitVec 8) (w : IngressState) : BitVec 8 :=
  Wire.addressBits undefined w.rdmaMdValid w.pass.md w.pass.rdmaMd

/-- `DebugLog`. -/
def debugLog (undefined : BitVec 8) (w : IngressState) : LogPair :=
  let md := w.pass.md
  let mapResultNonzero := decide (w.pass.mapResult ≠ 0)
  let bitmapBeforeNonzero := decide (w.pass.workerBitmapBefore ≠ 0)
  let firstFlag := decide (w.pass.firstLastFlag = 0)
  let lastFlag := decide (w.pass.firstLastFlag = 1)
  { addr := logAddr (w.addressBits undefined) md
    data :=
      md.ingressPort.extractLsb' 7 2 ++
      md.workerId.extractLsb' 0 5 ++
      BitVec.ofBool md.firstPacketOfMessage ++
      BitVec.ofBool md.lastPacketOfMessage ++
      BitVec.ofBool bitmapBeforeNonzero ++
      BitVec.ofBool mapResultNonzero ++
      BitVec.ofBool firstFlag ++
      BitVec.ofBool lastFlag ++
      PacketType.bits md.packetType ++
      md.poolIndex }

-- ---------------------------------------------------------------------------
-- The decoders
-- ---------------------------------------------------------------------------

/-- The value of an entry that `get_log` puts together. -/
def LogPair.value (p : LogPair) : ℕ := p.addr.toNat <<< 32 ||| p.data.toNat

/-- `1 == (1 & (entry >> k))`. -/
def bitAt (entry k : ℕ) : Bool := decide (1 = 1 &&& (entry >>> k))

/-- `PacketType(0xf & (entry >> 15))`. -/
def packetTypeAt (entry : ℕ) : PacketType :=
  PacketType.ofBits (BitVec.ofNat 4 (0xf &&& (entry >>> 15)))

/-- The dictionary that `parse_log_entry` returns. -/
structure LogEntry where
  index : ℕ
  capturePipe : ℕ
  addressBits : ℕ
  packetId : ℕ
  ingressPipe : ℕ
  workerId : ℕ
  firstPacketOfMessage : Bool
  lastPacketOfMessage : Bool
  nonzeroBitmapBefore : Bool
  nonzeroMapResult : Bool
  firstWorkerForSlot : Bool
  lastWorkerForSlot : Bool
  packetType : PacketType
  poolIndex : ℕ
  set : ℕ
deriving DecidableEq, Repr

/-- `parse_log_entry`. -/
def parseLogEntry (index capturePipe entry : ℕ) : LogEntry where
  index := index
  capturePipe := capturePipe
  addressBits := 0xff &&& (entry >>> 43)
  packetId := 0x7ff &&& (entry >>> 32)
  ingressPipe := 0x3 &&& (entry >>> 30)
  workerId := 0x1f &&& (entry >>> 25)
  firstPacketOfMessage := bitAt entry 24
  lastPacketOfMessage := bitAt entry 23
  nonzeroBitmapBefore := bitAt entry 22
  nonzeroMapResult := bitAt entry 21
  firstWorkerForSlot := bitAt entry 20
  lastWorkerForSlot := bitAt entry 19
  packetType := packetTypeAt entry
  poolIndex := 0x3fff &&& (entry >>> 1)
  set := 1 &&& entry

inductive MessageSeq where
  | middle | last | first | only
deriving DecidableEq, Repr

inductive WorkerSeq where
  | middle | last | first | only | egress
deriving DecidableEq, Repr

inductive MapResult where
  | novel | retransmit | egress
deriving DecidableEq, Repr

inductive BitmapBefore where
  | empty | nonempty | egress
deriving DecidableEq, Repr

/-- `MessageSeq(first * 2 + last)`. -/
def MessageSeq.ofFlags : Bool → Bool → MessageSeq
  | false, false => .middle
  | false, true => .last
  | true, false => .first
  | true, true => .only

/-- `WorkerSeq(first * 2 + last)`. -/
def WorkerSeq.ofFlags : Bool → Bool → WorkerSeq
  | false, false => .middle
  | false, true => .last
  | true, false => .first
  | true, true => .only

def MapResult.ofFlag (nonzero : Bool) : MapResult := if nonzero then .retransmit else .novel

def BitmapBefore.ofFlag (nonzero : Bool) : BitmapBefore := if nonzero then .nonempty else .empty

/-- `Packet` of `convert_log.py`. -/
structure LoggedPacket where
  captureIndex : ℕ
  capturePipe : ℕ
  addressBits : ℕ
  packetId : ℕ
  ingressPipe : ℕ
  workerId : ℕ
  messageSequence : MessageSeq
  bitmapBefore : BitmapBefore
  mapResult : MapResult
  workerSequence : WorkerSeq
  packetType : PacketType
  poolIndex : ℕ
  poolSet : ℕ
deriving DecidableEq, Repr

/-- `Packet.parse`. -/
def LoggedPacket.parse (captureIndex capturePipe entry : ℕ) : LoggedPacket :=
  let packetType := packetTypeAt entry
  { captureIndex := captureIndex
    capturePipe := capturePipe
    addressBits := entry >>> (32 + 11)
    packetId := 0x7ff &&& (entry >>> 32)
    ingressPipe := 0x3 &&& (entry >>> 30)
    workerId := 0x1f &&& (entry >>> 25)
    messageSequence := .ofFlags (bitAt entry 24) (bitAt entry 23)
    bitmapBefore := match packetType with
      | .broadcast | .retransmit => .egress
      | _ => .ofFlag (bitAt entry 22)
    mapResult := match packetType with
      | .broadcast => .novel
      | .retransmit => .retransmit
      | _ => .ofFlag (bitAt entry 21)
    workerSequence := match packetType with
      | .broadcast | .retransmit => .egress
      | _ => .ofFlags (bitAt entry 20) (bitAt entry 19)
    packetType := packetType
    poolIndex := 0x3fff &&& (entry >>> 1)
    poolSet := 1 &&& entry }

-- ---------------------------------------------------------------------------
-- What is to be recovered
-- ---------------------------------------------------------------------------

/-- The script finds what was logged, apart from the four bits. -/
structure Recovers (p : LoggedPacket) (address : BitVec 8) (md : SwitchmlMd) : Prop where
  addressBits : p.addressBits = address.toNat
  packetId : p.packetId = (md.debugPacketId.extractLsb' 0 11).toNat
  ingressPipe : p.ingressPipe = (md.ingressPort.extractLsb' 7 2).toNat
  workerId : p.workerId = (md.workerId.extractLsb' 0 5).toNat
  messageSequence : p.messageSequence =
    .ofFlags md.firstPacketOfMessage md.lastPacketOfMessage
  packetType : p.packetType = md.packetType
  poolIndex : p.poolIndex = md.poolIndex.slot.toNat
  poolSet : p.poolSet = md.poolIndex.set.toNat

/-- The script finds the status of the slot. -/
structure RecoversStatus (p : LoggedPacket) (st : PassState) : Prop where
  bitmapBefore : p.bitmapBefore = .ofFlag (decide (st.workerBitmapBefore ≠ 0))
  mapResult : p.mapResult = .ofFlag (decide (st.mapResult ≠ 0))
  workerSequence : p.workerSequence =
    .ofFlags (decide (st.firstLastFlag = 0)) (decide (st.firstLastFlag = 1))

/-- Both decoders say the same. -/
structure Agrees (p : LoggedPacket) (e : LogEntry) : Prop where
  capture : p.captureIndex = e.index ∧ p.capturePipe = e.capturePipe
  ids : p.addressBits = e.addressBits ∧ p.packetId = e.packetId ∧
    p.ingressPipe = e.ingressPipe ∧ p.workerId = e.workerId
  messageSequence : p.messageSequence = .ofFlags e.firstPacketOfMessage e.lastPacketOfMessage
  bitmapBefore : p.bitmapBefore = .ofFlag e.nonzeroBitmapBefore
  mapResult : p.mapResult = .ofFlag e.nonzeroMapResult
  workerSequence : p.workerSequence = .ofFlags e.firstWorkerForSlot e.lastWorkerForSlot
  packetType : p.packetType = e.packetType
  pool : p.poolIndex = e.poolIndex ∧ p.poolSet = e.set

/-- The script reports an egress entry as one. -/
def ReportsEgress (p : LoggedPacket) : Prop :=
  p.workerSequence = .egress ∧ p.bitmapBefore = .egress

instance (p : LoggedPacket) : Decidable (ReportsEgress p) :=
  inferInstanceAs (Decidable (_ ∧ _))

-- ---------------------------------------------------------------------------
-- Slices
-- ---------------------------------------------------------------------------

theorem and_shiftRight_toNat {n : ℕ} (v : BitVec n) (k w : ℕ) :
    (2 ^ w - 1) &&& (v.toNat >>> k) = (v.extractLsb' k w).toNat := by
  rw [BitVec.extractLsb'_toNat, Nat.and_comm, Nat.and_two_pow_sub_one_eq_mod]

theorem bitAt_toNat {n : ℕ} (v : BitVec n) (k : ℕ) : bitAt v.toNat k = v.getLsbD k := by
  rw [bitAt, ← BitVec.testBit_toNat, Nat.testBit, Nat.one_and_eq_mod_two]
  rcases Nat.mod_two_eq_zero_or_one (v.toNat >>> k) with h | h <;> simp [h]

theorem extractLsb'_four {w : ℕ} (v : BitVec w) (k : ℕ) :
    v.extractLsb' k 4 = BitVec.ofBool (v.getLsbD (k + 3)) ++ BitVec.ofBool (v.getLsbD (k + 2)) ++
      BitVec.ofBool (v.getLsbD (k + 1)) ++ BitVec.ofBool (v.getLsbD k) := by
  apply BitVec.eq_of_getLsbD_eq
  intro i hi
  obtain rfl | rfl | rfl | rfl : i = 0 ∨ i = 1 ∨ i = 2 ∨ i = 3 := by omega
  all_goals
    rw [BitVec.getLsbD_extractLsb', BitVec.getLsbD_append, BitVec.getLsbD_append,
      BitVec.getLsbD_append]
    simp

/-- An entry with any four bits where the logs differ. -/
def logWord (address : BitVec 8) (md : SwitchmlMd) (b22 b21 b20 b19 : Bool) : BitVec 64 :=
  logAddr address md ++
    (md.ingressPort.extractLsb' 7 2 ++ md.workerId.extractLsb' 0 5 ++
      BitVec.ofBool md.firstPacketOfMessage ++ BitVec.ofBool md.lastPacketOfMessage ++
      BitVec.ofBool b22 ++ BitVec.ofBool b21 ++ BitVec.ofBool b20 ++ BitVec.ofBool b19 ++
      PacketType.bits md.packetType ++ md.poolIndex)

theorem value_debugLog (undefined : BitVec 8) (w : IngressState) :
    (debugLog undefined w).value =
      (logWord (w.addressBits undefined) w.pass.md (decide (w.pass.workerBitmapBefore ≠ 0))
        (decide (w.pass.mapResult ≠ 0)) (decide (w.pass.firstLastFlag = 0))
        (decide (w.pass.firstLastFlag = 1))).toNat :=
  (BitVec.toNat_append _ _).symm

theorem value_egressDebugLog (undefined : BitVec 8) (egressPort : PortId) (st : EgressState) :
    (egressDebugLog undefined egressPort st).value =
      (logWord (st.addressBits undefined) st.md (egressPort.getLsbD 5) (egressPort.getLsbD 4)
        (egressPort.getLsbD 3) (egressPort.getLsbD 2)).toNat := by
  refine Eq.trans ?_ (BitVec.toNat_append _ _).symm
  refine congrArg (fun data : BitVec 32 =>
    (logAddr (st.addressBits undefined) st.md).toNat <<< 32 ||| data.toNat) ?_
  dsimp only [egressDebugLog]
  rw [extractLsb'_four]
  simp only [BitVec.append_assoc, BitVec.cast_eq]

section Slices

variable (address : BitVec 8) (md : SwitchmlMd) (b22 b21 b20 b19 : Bool)

theorem logWord_slices :
    let v := logWord address md b22 b21 b20 b19
    v.extractLsb' 43 21 = address.extractLsb' 0 21 ∧
    v.extractLsb' 43 8 = address ∧
    v.extractLsb' 32 11 = md.debugPacketId.extractLsb' 0 11 ∧
    v.extractLsb' 30 2 = md.ingressPort.extractLsb' 7 2 ∧
    v.extractLsb' 25 5 = md.workerId.extractLsb' 0 5 ∧
    v.extractLsb' 15 4 = PacketType.bits md.packetType ∧
    v.extractLsb' 1 14 = md.poolIndex.slot := by
  intro v
  simp (disch := decide) only [v, logWord, logAddr, PoolIndex.slot,
    BitVec.extractLsb'_append_eq_of_le, BitVec.extractLsb'_append_eq_of_add_le, Nat.reduceSub,
    BitVec.extractLsb'_eq_self, BitVec.extractLsb'_setWidth_of_le, and_self, true_and]
  simp

theorem logWord_bits :
    let v := logWord address md b22 b21 b20 b19
    v.getLsbD 24 = md.firstPacketOfMessage ∧ v.getLsbD 23 = md.lastPacketOfMessage ∧
    v.getLsbD 22 = b22 ∧ v.getLsbD 21 = b21 ∧ v.getLsbD 20 = b20 ∧ v.getLsbD 19 = b19 ∧
    v.getLsbD 0 = md.poolIndex.set := by
  intro v
  simp only [v, logWord, BitVec.getLsbD_append]
  simp [PoolIndex.set]

theorem packetTypeAt_logWord :
    packetTypeAt (logWord address md b22 b21 b20 b19).toNat = md.packetType := by
  obtain ⟨-, -, -, -, -, hType, -⟩ := logWord_slices address md b22 b21 b20 b19
  have hSlice := and_shiftRight_toNat (logWord address md b22 b21 b20 b19) 15 4
  rw [hType] at hSlice
  refine Eq.trans (congrArg (fun n => PacketType.ofBits (BitVec.ofNat 4 n)) hSlice) ?_
  rw [BitVec.ofNat_toNat, BitVec.setWidth_eq, PacketType.ofBits_bits]

/-- A type other than the zeroth leaves a bit in the entry. -/
theorem logWord_ne_zero (hType : md.packetType ≠ .mirror) :
    (logWord address md b22 b21 b20 b19).toNat ≠ 0 := by
  intro hZero
  have hRead := packetTypeAt_logWord address md b22 b21 b20 b19
  rw [hZero] at hRead
  exact hType hRead.symm

/-- No mask is needed for the address: there is nothing above it. -/
theorem shiftRight_logWord :
    (logWord address md b22 b21 b20 b19).toNat >>> 43 = address.toNat := by
  obtain ⟨hTop, -⟩ := logWord_slices address md b22 b21 b20 b19
  have hRead := congrArg BitVec.toNat hTop
  rw [BitVec.extractLsb'_toNat, BitVec.extractLsb'_toNat, Nat.shiftRight_zero] at hRead
  have hAddress := address.isLt
  have hWord := (logWord address md b22 b21 b20 b19).isLt
  rw [Nat.mod_eq_of_lt (by omega), Nat.mod_eq_of_lt (by omega)] at hRead
  exact hRead

theorem poolSet_logWord :
    1 &&& (logWord address md b22 b21 b20 b19).toNat = md.poolIndex.set.toNat := by
  obtain ⟨-, -, -, -, -, -, hSet⟩ := logWord_bits address md b22 b21 b20 b19
  rw [← hSet, ← BitVec.testBit_toNat, Nat.toNat_testBit, Nat.one_and_eq_mod_two, pow_zero,
    Nat.div_one]

theorem parse_recovers (index capturePipe : ℕ) :
    Recovers (.parse index capturePipe (logWord address md b22 b21 b20 b19).toNat) address md := by
  obtain ⟨-, -, hId, hPipe, hWorker, -, hSlot⟩ := logWord_slices address md b22 b21 b20 b19
  obtain ⟨hFirst, hLast, -⟩ := logWord_bits address md b22 b21 b20 b19
  constructor
  · exact shiftRight_logWord address md b22 b21 b20 b19
  · exact (and_shiftRight_toNat _ 32 11).trans (congrArg BitVec.toNat hId)
  · exact (and_shiftRight_toNat _ 30 2).trans (congrArg BitVec.toNat hPipe)
  · exact (and_shiftRight_toNat _ 25 5).trans (congrArg BitVec.toNat hWorker)
  · dsimp only [LoggedPacket.parse]
    rw [bitAt_toNat, bitAt_toNat, hFirst, hLast]
  · exact packetTypeAt_logWord address md b22 b21 b20 b19
  · exact (and_shiftRight_toNat _ 1 14).trans (congrArg BitVec.toNat hSlot)
  · exact poolSet_logWord address md b22 b21 b20 b19

/-- Any type but those of egress is read with the four bits. -/
theorem parse_status (index capturePipe : ℕ) (hBroadcast : md.packetType ≠ .broadcast)
    (hRetransmit : md.packetType ≠ .retransmit) :
    let p := LoggedPacket.parse index capturePipe (logWord address md b22 b21 b20 b19).toNat
    p.bitmapBefore = .ofFlag b22 ∧ p.mapResult = .ofFlag b21 ∧
      p.workerSequence = .ofFlags b20 b19 := by
  intro p
  obtain ⟨-, -, h22, h21, h20, h19, -⟩ := logWord_bits address md b22 b21 b20 b19
  dsimp only [p, LoggedPacket.parse]
  rw [packetTypeAt_logWord, bitAt_toNat, bitAt_toNat, bitAt_toNat, bitAt_toNat, h22, h21, h20,
    h19]
  cases hType : md.packetType with
  | broadcast => exact absurd hType hBroadcast
  | retransmit => exact absurd hType hRetransmit
  | mirror | ignore | consume _ | harvest _ => exact ⟨rfl, rfl, rfl⟩

theorem parse_reportsEgress (index capturePipe : ℕ)
    (hType : md.packetType = .broadcast ∨ md.packetType = .retransmit) :
    ReportsEgress (.parse index capturePipe (logWord address md b22 b21 b20 b19).toNat) := by
  dsimp only [ReportsEgress, LoggedPacket.parse]
  rw [packetTypeAt_logWord]
  rcases hType with h | h <;> rw [h] <;> exact ⟨rfl, rfl⟩

/-- The control plane's decoder reads the same bits. -/
theorem parse_agrees (index capturePipe : ℕ) (hBroadcast : md.packetType ≠ .broadcast)
    (hRetransmit : md.packetType ≠ .retransmit) :
    Agrees (.parse index capturePipe (logWord address md b22 b21 b20 b19).toNat)
      (parseLogEntry index capturePipe (logWord address md b22 b21 b20 b19).toNat) := by
  obtain ⟨hBitmap, hMap, hSequence⟩ :=
    parse_status address md b22 b21 b20 b19 index capturePipe hBroadcast hRetransmit
  obtain ⟨-, -, h22, h21, h20, h19, -⟩ := logWord_bits address md b22 b21 b20 b19
  obtain ⟨-, hAddress, -⟩ := logWord_slices address md b22 b21 b20 b19
  constructor
  · exact ⟨rfl, rfl⟩
  · refine ⟨?_, rfl, rfl, rfl⟩
    have hMasked := (and_shiftRight_toNat _ 43 8).trans (congrArg BitVec.toNat hAddress)
    exact (shiftRight_logWord address md b22 b21 b20 b19).trans hMasked.symm
  · rfl
  · exact hBitmap.trans (congrArg BitmapBefore.ofFlag ((bitAt_toNat _ 22).trans h22).symm)
  · exact hMap.trans (congrArg MapResult.ofFlag ((bitAt_toNat _ 21).trans h21).symm)
  · exact hSequence.trans (congrArg₂ WorkerSeq.ofFlags ((bitAt_toNat _ 20).trans h20).symm
      ((bitAt_toNat _ 19).trans h19).symm)
  · rfl
  · exact ⟨rfl, rfl⟩

end Slices

-- ---------------------------------------------------------------------------
-- The log
-- ---------------------------------------------------------------------------

/-- A reply is logged under its own type, or as one to be ignored. -/
theorem markReply_type {egressRid : WorkerId} {st : EgressState}
    (hType : st.md.packetType = .broadcast ∨ st.md.packetType = .retransmit) :
    (st.md.simulateEgressDrop = false ∧ ((markReply egressRid st).md.packetType = .broadcast ∨
      (markReply egressRid st).md.packetType = .retransmit)) ∨
    (st.md.simulateEgressDrop = true ∧ (markReply egressRid st).md.packetType = .ignore) := by
  cases hDrop : st.md.simulateEgressDrop with
  | false =>
    rw [markReply_kept hDrop]
    exact .inl ⟨rfl, hType⟩
  | true =>
    refine .inr ⟨rfl, ?_⟩
    unfold markReply
    rw [hDrop]
    rfl

theorem egressApply_entry {cfg : EgressConfig} {undefined : BitVec 8}
    {intr : EgressIntrinsicMetadata} {st : EgressState} {entry : LogPair}
    (h : entry ∈ (egressApply cfg undefined intr st).2) :
    (st.md.packetType = .broadcast ∨ st.md.packetType = .retransmit) ∧
      entry = egressDebugLog undefined intr.egressPort (markReply intr.egressRid st) := by
  unfold egressApply at h
  split at h
  · next hType => exact ⟨hType, (Option.some.inj h).symm⟩
  · cases h

/-- **The packet log decodes to what was logged**, and the script recognises an entry of
egress unless the packet was made to be lost. -/
theorem log_decodes (undefined : BitVec 8) (index capturePipe : ℕ) :
    (∀ w : IngressState, PacketType.code (.consume 0) ≤ w.pass.md.packetType.code →
      let entry := (debugLog undefined w).value
      let p := LoggedPacket.parse index capturePipe entry
      entry ≠ 0 ∧ Recovers p (w.addressBits undefined) w.pass.md ∧ RecoversStatus p w.pass ∧
        Agrees p (parseLogEntry index capturePipe entry)) ∧
    (∀ (cfg : EgressConfig) (intr : EgressIntrinsicMetadata) (st : EgressState),
      ∀ entry ∈ (egressApply cfg undefined intr st).2,
        let logged := markReply intr.egressRid st
        let p := LoggedPacket.parse index capturePipe entry.value
        entry.value ≠ 0 ∧ Recovers p (logged.addressBits undefined) logged.md ∧
          (ReportsEgress p ↔ st.md.simulateEgressDrop = false)) := by
  constructor
  · intro w hType entry p
    have hMirror : w.pass.md.packetType ≠ .mirror := fun h => by simp [h, PacketType.code] at hType
    have hBroadcast : w.pass.md.packetType ≠ .broadcast :=
      fun h => by simp [h, PacketType.code] at hType
    have hRetransmit : w.pass.md.packetType ≠ .retransmit :=
      fun h => by simp [h, PacketType.code] at hType
    simp only [p, entry, value_debugLog]
    obtain ⟨hBitmap, hMap, hSequence⟩ :=
      parse_status _ _ _ _ _ _ index capturePipe hBroadcast hRetransmit
    exact ⟨logWord_ne_zero _ _ _ _ _ _ hMirror, parse_recovers _ _ _ _ _ _ index capturePipe,
      ⟨hBitmap, hMap, hSequence⟩, parse_agrees _ _ _ _ _ _ index capturePipe hBroadcast hRetransmit⟩
  · intro cfg intr st entry hEntry logged p
    obtain ⟨hReply, rfl⟩ := egressApply_entry hEntry
    have hMarked : (st.md.simulateEgressDrop = false ∧
        (logged.md.packetType = .broadcast ∨ logged.md.packetType = .retransmit)) ∨
        (st.md.simulateEgressDrop = true ∧ logged.md.packetType = .ignore) := markReply_type hReply
    simp only [p, value_egressDebugLog]
    rcases hMarked with ⟨hDrop, hType⟩ | ⟨hDrop, hType⟩
    · have hMirror : logged.md.packetType ≠ .mirror := by
        rcases hType with h | h <;> simp [h]
      exact ⟨logWord_ne_zero _ _ _ _ _ _ hMirror, parse_recovers _ _ _ _ _ _ index capturePipe,
        fun _ => hDrop, fun _ => parse_reportsEgress _ _ _ _ _ _ index capturePipe hType⟩
    · have hMirror : logged.md.packetType ≠ .mirror := by simp [hType]
      refine ⟨logWord_ne_zero _ _ _ _ _ _ hMirror,
        parse_recovers _ _ _ _ _ _ index capturePipe, ?_⟩
      -- a packet to be ignored is read with four bits of the egress port
      obtain ⟨hBitmap, -⟩ := parse_status (logged.addressBits undefined) logged.md
        (intr.egressPort.getLsbD 5) (intr.egressPort.getLsbD 4) (intr.egressPort.getLsbD 3)
        (intr.egressPort.getLsbD 2) index capturePipe (by simp [hType]) (by simp [hType])
      rw [ReportsEgress, hBitmap, hDrop]
      cases intr.egressPort.getLsbD 5 <;> simp [BitmapBefore.ofFlag]

/-- A reply to all workers that the egress drop simulator has chosen. -/
def droppedReply : EgressState where
  md := { packetType := .broadcast, simulateEgressDrop := true, workerType := .roceV2,
          packetSize := .mtu256, debugPacketId := 7, poolIndex := 5,
          firstPacketOfMessage := true, lastPacketOfMessage := true }
  rest := []

/-- On its way out of port 60 it is reported as a retransmission that the only worker of an
occupied slot sent: all four bits are those of the port. -/
theorem dropped_reply_misreported :
    let cfg : EgressConfig := ⟨⟨0, 0, fun _ => none⟩, ⟨0, 0, fun _ => none, []⟩⟩
    ∃ entry ∈ (egressApply cfg 0 ⟨60, 3⟩ droppedReply).2,
      let p := LoggedPacket.parse 0 0 entry.value
      ¬ ReportsEgress p ∧ p.packetType = .ignore ∧ p.workerSequence = .only ∧
        p.bitmapBefore = .nonempty ∧ p.mapResult = .retransmit := by
  intro cfg
  refine ⟨egressDebugLog 0 60 { droppedReply with
    dropCtl := true, md := { droppedReply.md with packetType := .ignore } }, rfl, ?_⟩
  decide +kernel

end SwitchML.Wire
