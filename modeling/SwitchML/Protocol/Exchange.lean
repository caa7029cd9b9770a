import SwitchML.Control.Connect
import SwitchML.Lib.Cascade
import SwitchML.Protocol.Aggregation
import SwitchML.Protocol.Receiving

/-!
# SwitchML protocol — one message and its reply

All workers of a 256-byte job send the same message on their queue pairs, and send it
again as a whole any number of times, with new sequence numbers. The uplinks lose packets
but keep their order; the packets that go back through the switch share one port, so that
they keep their order too. Here the slots of the message are looked at together: the
receive stage lets a worker into a slot only after all slots before it, so that the slots
are a `Cascade`, and they fill up in order.

* `exchangeStep`, `exchangeRun` — the machine;
* `ExchangeInv.step` — the slots stay a cascade, and what was broadcast followed by what
  waits to be is an initial segment of the slots;
* `replies_in_order` — every slot is broadcast at most once, and after the slot before it,
  in every run in which no worker's packet is taken before the first packet of a message;
  `reply_out_of_order` is a run in which a register left by an earlier job lets one in.
-/

namespace SwitchML

-- ---------------------------------------------------------------------------
-- Messages
-- ---------------------------------------------------------------------------

/-- A message that all workers of a 256-byte job send, each on its queue pair with the
same number. Packet 0 goes to the slot of the job, in its first set. -/
structure Exchange where
  job : Job
  small : job.large = false
  packets : ℕ
  packets_pos : 0 < packets
  fits : job.slot.toNat + packets ≤ numSlots
  -- the number of the queue pairs
  queue : ℕ
  queue_lt : queue < 2 ^ 16
  firstPsn : Fin job.n → BitVec 24

namespace Exchange

variable (x : Exchange)

def slot (j : Fin x.packets) : SlotIndex := x.job.slot + BitVec.ofNat 14 j

/-- The rkey of the message. -/
def base : PoolIndex := PoolIndex.mk x.job.slot x.job.firstSet

def poolIndex (j : Fin x.packets) : PoolIndex := PoolIndex.mk (x.slot j) x.job.firstSet

theorem slot_toNat (j : Fin x.packets) : (x.slot j).toNat = x.job.slot.toNat + j := by
  have hFits := x.fits
  have hj := j.isLt
  have hSlots : numSlots = 8192 := rfl
  unfold slot
  rw [BitVec.toNat_add, BitVec.toNat_ofNat]
  omega

/-- The job as seen from the slot of packet `j`. -/
abbrev slotJob (j : Fin x.packets) (last : Bool) : Job :=
  { x.job with
    slot := x.slot j
    slot_lt := by
      have hFits := x.fits
      have hj := j.isLt
      rw [slot_toNat]
      omega
    last := fun _ => last }

def dstQp (w : Fin x.job.n) : BitVec 24 := BitVec.ofNat 24 (switchQpn w x.queue)

/-- The registers of a worker's queue pair. -/
def qp (w : Fin x.job.n) : QueuePairIndex := qpIndex (x.dstQp w)

/-- The RoCE packet is the `i`-th packet of a worker, counted over all tries. -/
def sends (w : Fin x.job.n) (i : ℕ) (rp : RocePacket) : Bool :=
  (x.job.receiveEntry w).matchesPacket rp && rp.opcode.isRdmaWrite &&
  decide (rp.dstQp = x.dstQp w) &&
  decide (rp.opcode.isFirst = decide (i % x.packets = 0)) &&
  decide (rp.opcode.isLast = decide (i % x.packets + 1 = x.packets)) &&
  decide (rp.psn = x.firstPsn w + BitVec.ofNat 24 i) &&
  (decide (i % x.packets ≠ 0) || decide (rp.reth.rKey = x.base.setWidth 32)) &&
  decide (rp.payload.length = 2)

/-- The packet of the message that a pool index belongs to. -/
def packetOf (p : PoolIndex) : Option (Fin x.packets) :=
  (List.finRange x.packets).find? fun j => decide (p = x.poolIndex j)

end Exchange

-- ---------------------------------------------------------------------------
-- The machine
-- ---------------------------------------------------------------------------

/-- The registers are those of pipe 0. Flights and events come with the packet of the
message whose slot they are about, and are seen from there as chunk 0. -/
structure ExchangeState (x : Exchange) where
  regs : Registers
  -- the number of packets of a worker that have arrived or were lost
  next : Fin x.job.n → ℕ := fun _ => 0
  -- a first packet of the worker has arrived
  opened : Fin x.job.n → Bool := fun _ => false
  recirc : List (Fin x.packets × Flight x.job.n) := []
  log : List (Fin x.packets × Event x.job.n) := []

inductive ExchangeLabel (n : ℕ) where
  -- the `i`-th packet of a worker arrives, and those before it that have not are lost
  | arrive (w : Fin n) (i : ℕ) (rp : RocePacket)
  -- the next packet on the recirculation port makes its pass
  | harvest
  -- passes of packets of other queue pairs and slots
  | otherArrival (port : PortId) (rp : RocePacket)
  | otherRecirculation (port : PortId) (pkt : Packet)

namespace Exchange

variable (x : Exchange)

/-- A pass ends: log it, and put a packet that goes on in line. -/
def emit (s : ExchangeState x) (j : Fin x.packets) (id : ℕ) (tag : Tag x.job.n)
    (ty : PacketType) (out : Emission) : ExchangeState x :=
  { s with
    recirc := s.recirc ++ (out.flight id tag).map (Prod.mk j)
    log := s.log ++ [(j, ⟨id, tag, ty, out⟩)] }

variable (lossy : Bool)

/-- The packet may arrive next. Without losses each packet is sent once and arrives. -/
def admits (s : ExchangeState x) (w : Fin x.job.n) (i : ℕ) (rp : RocePacket) : Bool :=
  x.sends w i rp &&
  if lossy then decide (s.next w ≤ i) else decide (i = s.next w) && decide (i < x.packets)

/-- The registers of the message's queue pairs. -/
def usesQp (qp : QueuePairIndex) : Bool :=
  (List.finRange x.job.n).any fun w => decide (qp = x.qp w)

/-- A slot of the message. -/
def usesSlot (slot : SlotIndex) : Bool :=
  (List.finRange x.packets).any fun j => decide (slot = x.slot j)

def arriveStep (s : ExchangeState x) (w : Fin x.job.n) (i : ℕ) (rp : RocePacket) :
    ExchangeState x :=
  let pass := receiveRoce x.job.config {} (x.job.port w) rp s.regs
  let s' := { s with
    regs := pass.1
    next := Function.update s.next w (i + 1)
    opened := Function.update s.opened w (s.opened w || rp.opcode.isFirst) }
  match (receivedPoolIndex x.job.config.workers rp s.regs).bind x.packetOf with
  | none => s'
  | some j => x.emit s' j i ⟨w, 0, rp⟩ (.consume 0) pass.2

def harvestStep (s : ExchangeState x) : ExchangeState x :=
  match s.recirc with
  | [] => s
  | (j, f) :: rest =>
    let pass := recirculate x.job.config f.port f.pkt s.regs
    x.emit { s with regs := pass.1, recirc := rest } j f.id f.tag f.pkt.md.packetType pass.2

/-- One step. Without losses there is no other traffic on the queue pairs either. -/
def exchangeStep (s : ExchangeState x) : ExchangeLabel x.job.n → ExchangeState x
  | .arrive w i rp => if x.admits lossy s w i rp then x.arriveStep s w i rp else s
  | .harvest => x.harvestStep s
  | .otherArrival port rp =>
    if x.usesQp (qpIndex rp.dstQp) ||
      (receivedPoolIndex x.job.config.workers rp s.regs).any fun p => x.usesSlot p.slot then s
    else { s with regs := (receiveRoce x.job.config {} port rp s.regs).1 }
  | .otherRecirculation port pkt =>
    if x.usesSlot pkt.md.poolIndex.slot || (!lossy && x.usesQp pkt.md.recircPortSelector) then s
    else { s with regs := (recirculate x.job.config port pkt s.regs).1 }

def exchangeRun (s : ExchangeState x) (labels : List (ExchangeLabel x.job.n)) : ExchangeState x :=
  labels.foldl (x.exchangeStep lossy) s

/-- In this step a packet that does not start a message is taken although no first packet
of its worker has arrived. -/
def strays (s : ExchangeState x) : ExchangeLabel x.job.n → Bool
  | .arrive w i rp =>
    x.admits lossy s w i rp && !rp.opcode.isFirst && !s.opened w &&
      (receivedPoolIndex x.job.config.workers rp s.regs).isSome
  | _ => false

/-- No step of the run does. -/
def strayFree : ExchangeState x → List (ExchangeLabel x.job.n) → Bool
  | _, [] => true
  | s, label :: labels => !x.strays lossy s label && strayFree (x.exchangeStep lossy s label) labels

/-- The slots of the message are fresh: nobody is in, and nobody is counted. -/
structure Fresh (regs : Registers) : Prop where
  bitmap : ∀ j, regs.bitmap (x.poolIndex j) = 0
  workerCount : ∀ j, regs.workerCount (x.poolIndex j) = 0

/-- The event is the broadcast of the slot of packet `j`. -/
def isBroadcast {n m : ℕ} (j : ℕ) (e : Fin m × Event n) : Bool :=
  decide (e.1.val = j) && e.2.broadcast?.isSome

end Exchange

-- ---------------------------------------------------------------------------
-- Pool indices
-- ---------------------------------------------------------------------------

namespace Exchange

variable {x : Exchange}

theorem slot_injective : Function.Injective x.slot := by
  intro j j' h
  have hNat := congrArg BitVec.toNat h
  rw [slot_toNat, slot_toNat] at hNat
  exact Fin.ext (by omega)

theorem poolIndex_injective : Function.Injective x.poolIndex := fun _ _ h =>
  slot_injective (PoolIndex.mk_inj.mp h).1

@[simp] theorem slotJob_set (j : Fin x.packets) (last : Bool) :
    (x.slotJob j last).set 0 = x.job.firstSet := by
  simp [Job.set]

@[simp] theorem slotJob_pool (j : Fin x.packets) (last : Bool) :
    (x.slotJob j last).pool 0 = x.poolIndex j := by
  rw [Job.pool, slotJob_set]
  rfl

theorem eq_of_packetOf {p : PoolIndex} {j : Fin x.packets} (h : x.packetOf p = some j) :
    p = x.poolIndex j := by
  unfold packetOf at h
  exact of_decide_eq_true (List.find?_some h :)

theorem ne_of_packetOf_none {p : PoolIndex} (h : x.packetOf p = none) (j : Fin x.packets) :
    p ≠ x.poolIndex j := by
  unfold packetOf at h
  exact of_decide_eq_false (Bool.not_eq_true _ ▸ List.find?_eq_none.mp h j (List.mem_finRange j))

theorem packetOf_poolIndex (j : Fin x.packets) : x.packetOf (x.poolIndex j) = some j := by
  cases h : x.packetOf (x.poolIndex j) with
  | none => exact absurd rfl (ne_of_packetOf_none h j)
  | some j' => rw [poolIndex_injective (eq_of_packetOf h)]

/-- The pool indices that the receive stage counts through. -/
theorem ofNat_base (i : ℕ) : BitVec.ofNat 15 (x.base.toNat + 2 * i) =
    PoolIndex.mk (x.job.slot + BitVec.ofNat 14 i) x.job.firstSet :=
  PoolIndex.ofNat_mk_add _ _ i

theorem ofNat_base_of_lt {i : ℕ} (hi : i < x.packets) :
    BitVec.ofNat 15 (x.base.toNat + 2 * i) = x.poolIndex ⟨i, hi⟩ := ofNat_base i

/-- The receive stage comes back to a slot only after it has been through the message. -/
theorem le_of_ofNat_base {i : ℕ} {j : Fin x.packets}
    (h : BitVec.ofNat 15 (x.base.toNat + 2 * i) = x.poolIndex j) : j.val ≤ i := by
  have hSlot := (PoolIndex.mk_inj.mp ((ofNat_base i).symm.trans h)).1
  have hNat := congrArg BitVec.toNat hSlot
  rw [slot_toNat, BitVec.toNat_add, BitVec.toNat_ofNat] at hNat
  have hFits := x.fits
  have hSlots : numSlots = 8192 := rfl
  have := j.isLt
  have := x.job.slot.isLt
  omega

theorem ne_of_usesSlot {slot : SlotIndex} (h : ¬ x.usesSlot slot = true) (j : Fin x.packets) :
    slot ≠ x.slot j := by
  intro hEq
  rw [usesSlot, List.any_eq_true] at h
  exact h ⟨j, List.mem_finRange j, decide_eq_true hEq⟩

theorem ne_of_usesQp {qp : QueuePairIndex} (h : ¬ x.usesQp qp = true) (w : Fin x.job.n) :
    qp ≠ x.qp w := by
  intro hEq
  rw [usesQp, List.any_eq_true] at h
  exact h ⟨w, List.mem_finRange w, decide_eq_true hEq⟩

theorem qp_injective : Function.Injective x.qp := fun w w' h =>
  Fin.ext (qpIndex_switchQpn_inj (w.isLt.trans_le x.job.n_le_32) (w'.isLt.trans_le x.job.n_le_32)
    x.queue_lt h)

end Exchange

-- ---------------------------------------------------------------------------
-- The receive stage
-- ---------------------------------------------------------------------------

/-- What the parts of `sends` are. -/
structure Exchange.Sent (x : Exchange) (w : Fin x.job.n) (i : ℕ) (rp : RocePacket) : Prop where
  matching : (x.job.receiveEntry w).matchesPacket rp = true
  write : rp.opcode.isRdmaWrite = true
  dstQp : rp.dstQp = x.dstQp w
  first : rp.opcode.isFirst = decide (i % x.packets = 0)
  last : rp.opcode.isLast = decide (i % x.packets + 1 = x.packets)
  psn : rp.psn = x.firstPsn w + BitVec.ofNat 24 i
  rKey : i % x.packets = 0 → rp.reth.rKey = x.base.setWidth 32
  length : rp.payload.length = 2

namespace Exchange

variable {x : Exchange} {w : Fin x.job.n} {i : ℕ} {rp : RocePacket}

theorem of_sends (h : x.sends w i rp = true) : x.Sent w i rp := by
  simp only [sends, Bool.and_eq_true, Bool.or_eq_true, decide_eq_true_eq] at h
  obtain ⟨⟨⟨⟨⟨⟨⟨hMatch, hOp⟩, hQp⟩, hFirst⟩, hLast⟩, hPsn⟩, hKey⟩, hLength⟩ := h
  exact ⟨hMatch, hOp, hQp, hFirst, hLast, hPsn, fun h0 => hKey.resolve_left (not_not_intro h0),
    hLength⟩

/-- The register of the worker's queue pair after the packet. -/
def received (x : Exchange) (w : Fin x.job.n) (rp : RocePacket) (regs : Registers) :
    ReceiverData := (receiverAction rp (regs.receiverData (x.qp w))).1

namespace Sent

theorem qp (h : x.Sent w i rp) : qpIndex rp.dstQp = x.qp w := by
  rw [h.dstQp]
  rfl

theorem sendable (h : x.Sent w i rp) (j : Fin x.packets) :
    (x.slotJob j rp.opcode.isLast).sendable w 0 rp = true := by
  have hSlices : (x.slotJob j rp.opcode.isLast).slices = 2 := by
    simp [Job.slices, Job.pipes, x.small]
  unfold Job.sendable
  rw [hSlices, h.length]
  simpa using ⟨h.matching, h.write⟩

theorem receivedPoolIndex_eq (h : x.Sent w i rp) (regs : Registers) :
    receivedPoolIndex x.job.config.workers rp regs =
      if !rp.opcode.isFirst && (x.received w rp regs).poolIndex.getLsbD 31 then none
      else some ((x.received w rp regs).poolIndex.extractLsb' 0 15) := by
  obtain ⟨before, after, hSplit, hOther⟩ := x.job.workers_split w
  rw [hSplit, receivedPoolIndex_hit regs h.matching h.write hOther, h.qp]
  rfl

theorem receiverData_eq (h : x.Sent w i rp) (regs : Registers) :
    (receiveRoce x.job.config {} (x.job.port w) rp regs).1.receiverData (x.qp w) =
      x.received w rp regs := by
  obtain ⟨before, after, hSplit, hOther⟩ := x.job.workers_split w
  obtain ⟨d0, d1, hPayload⟩ := List.length_eq_two.mp h.length
  obtain ⟨st, hParse⟩ : ∃ st, parseRoce x.job.config (x.job.port w) rp = some st :=
    ⟨_, by simp only [parseRoce, x.job.port_not_recirculation w, hPayload]; rfl⟩
  rw [receiveRoce_receiverData _ _ _ hParse, hSplit,
    rdmaReceiver_hit _ _ h.matching h.write hOther]
  simp [assignPoolIndex, h.qp, debugPacketId, received]

end Sent

/-- The register of a worker that has been let into the slots of `passed`: the receive
stage rejects what comes, or it has counted through these slots. -/
def Reached (x : Exchange) (data : ReceiverData) (passed : ℕ → Prop) : Prop :=
  data.poolIndex.getLsbD 31 = true ∨ ∃ i, data.poolIndex.toNat = x.base.toNat + 2 * i ∧
    ∀ j ≤ i, j < x.packets → passed j

theorem Reached.mono {data : ReceiverData} {passed passed' : ℕ → Prop}
    (h : x.Reached data passed) (hMono : ∀ j, passed j → passed' j) : x.Reached data passed' :=
  h.imp_right fun ⟨i, hPool, hPassed⟩ => ⟨i, hPool, fun j hj hLt => hMono j (hPassed j hj hLt)⟩

theorem extractLsb'_ofNat {v : BitVec 32} {a : ℕ} (h : v.toNat = a) :
    v.extractLsb' 0 15 = BitVec.ofNat 15 a := by
  apply BitVec.eq_of_toNat_eq
  rw [BitVec.extractLsb'_toNat, h, BitVec.toNat_ofNat]
  simp

/-- A packet that is taken in sequence moves the pool index on by a slot. -/
theorem receiverIncrementAction_ok {psn : BitVec 24} {data : ReceiverData}
    (h : (receiverIncrementAction psn data).1.poolIndex.getLsbD 31 = false) :
    data.poolIndex.getLsbD 31 = false ∧
      (receiverIncrementAction psn data).1.poolIndex.toNat = data.poolIndex.toNat + 2 := by
  simp only [receiverIncrementAction] at h ⊢
  split at h
  · next hSeq =>
    have hGood : data.poolIndex.getLsbD 31 = false := by
      by_contra hBad
      rw [satAdd_error (by simpa using hBad)] at h
      exact absurd h (by simp)
    rw [if_pos hSeq]
    refine ⟨hGood, satAdd_toNat ?_⟩
    rw [getLsbD_31, decide_eq_false_iff_not] at hGood
    omega
  · exact absurd h (show ¬ (0x80000000 : BitVec 32).getLsbD 31 = false by decide)

/-- **The verdict of the receive stage.** A packet is rejected, and then all are until the
next first packet, or it is let into the slot after those its worker has been let into. -/
theorem Sent.verdict (h : x.Sent w i rp) {regs : Registers} {opened : Bool} {passed : ℕ → Prop}
    (hReg : opened = true → x.Reached (regs.receiverData (x.qp w)) passed)
    (hClean : rp.opcode.isFirst = true ∨ opened = true ∨
      receivedPoolIndex x.job.config.workers rp regs = none) :
    receivedPoolIndex x.job.config.workers rp regs = none ∧
      ((opened || rp.opcode.isFirst) = true →
        (x.received w rp regs).poolIndex.getLsbD 31 = true) ∨
    ∃ i', receivedPoolIndex x.job.config.workers rp regs =
        some (BitVec.ofNat 15 (x.base.toNat + 2 * i')) ∧
      (x.received w rp regs).poolIndex.toNat = x.base.toNat + 2 * i' ∧
      ∀ j < i', j < x.packets → passed j := by
  rw [h.receivedPoolIndex_eq regs] at hClean ⊢
  by_cases hFirst : rp.opcode.isFirst = true
  · have hKey : (x.received w rp regs).poolIndex.toNat = x.base.toNat + 2 * 0 := by
      have hMod : i % x.packets = 0 := of_decide_eq_true (h.first ▸ hFirst)
      unfold received receiverAction
      rw [if_pos hFirst]
      simp only [receiverResetAction]
      rw [h.rKey hMod]
      bv_omega
    refine .inr ⟨0, ?_, hKey, fun j hj => absurd hj (Nat.not_lt_zero j)⟩
    rw [hFirst, extractLsb'_ofNat hKey]
    simp
  rw [Bool.not_eq_true] at hFirst
  simp only [hFirst, Bool.not_false, Bool.true_and, Bool.or_false, Bool.false_eq_true,
    false_or] at hClean ⊢
  cases hError : (x.received w rp regs).poolIndex.getLsbD 31 with
  | true => exact .inl ⟨rfl, fun _ => rfl⟩
  | false =>
    rw [hError] at hClean
    obtain hOpen : opened = true := by simpa using hClean
    have hReceived : x.received w rp regs =
        (receiverIncrementAction rp.psn (regs.receiverData (x.qp w))).1 := by
      unfold received receiverAction
      rw [hFirst, if_neg Bool.false_ne_true]
    rw [hReceived] at hError ⊢
    obtain ⟨hGood, hUp⟩ := receiverIncrementAction_ok hError
    rcases hReg hOpen with hBad | ⟨i', hPool, hPassed⟩
    · exact absurd (hBad.symm.trans hGood) (by simp)
    · have hNext : (receiverIncrementAction rp.psn (regs.receiverData (x.qp w))).1.poolIndex.toNat =
          x.base.toNat + 2 * (i' + 1) := by
        omega
      refine .inr ⟨i' + 1, ?_, hNext, fun j hj => hPassed j (by omega)⟩
      rw [if_neg Bool.false_ne_true, extractLsb'_ofNat hNext]

end Exchange

-- ---------------------------------------------------------------------------
-- The slots
-- ---------------------------------------------------------------------------

/-- The packet waits to be broadcast. -/
def Flight.completes {n : ℕ} (f : Flight n) : Bool :=
  !f.pkt.md.firstFlag && f.pkt.md.lastFlag && !f.dup

namespace Exchange

variable {x : Exchange} {w : Fin x.job.n} {j : Fin x.packets} {regs : Registers}
  {S : Finset (Fin x.job.n)}

/-- The workers of `S` are in the slot of packet `j`. -/
def Fills (x : Exchange) (regs : Registers) (j : Fin x.packets) (S : Finset (Fin x.job.n)) :
    Prop :=
  ∃ data, Represents (x.slotJob j false) (· = x.job.firstSet) regs
    (fun w => if w ∈ S then 1 else 0) data

theorem Fills.congr {regs' : Registers} (h : x.Fills regs j S)
    (hSame : SameSlot (x.slot j) regs regs') : x.Fills regs' j S :=
  h.imp fun _ hData => hData.congr hSame

theorem Fresh.fills (h : x.Fresh regs) (j : Fin x.packets) : x.Fills regs j ∅ := by
  refine ⟨fun _ _ => (fun _ => 0, fun _ => 0), ?_, ?_, ?_⟩
  · rintro σ rfl
    have hZero : regs.bitmap (PoolIndex.mk (x.slotJob j false).slot x.job.firstSet) = 0 :=
      h.bitmap j
    rw [hZero]
    simp [Bitmap.Holds]
  · intro k hk hc
    have hEven : k % 2 = 0 % 2 := by
      rw [← Job.set_eq_iff (x.slotJob j false), hk, slotJob_set]
    have hPool : (x.slotJob j false).pool k = x.poolIndex j := by
      rw [← slotJob_pool j false, Job.pool_eq_iff]
      exact hEven
    rw [hPool, h.workerCount j]
    simp [taken]
  · intro k hk hSome
    obtain ⟨w, hw⟩ := hSome
    exact absurd hw (by simp)

/-- A packet that is let into no slot of the message. -/
theorem sameSlot_otherArrival {rp : RocePacket} (port : PortId)
    (h : ¬ ((receivedPoolIndex x.job.config.workers rp regs).any fun p => x.usesSlot p.slot) = true)
    (j : Fin x.packets) :
    SameSlot (x.slot j) regs (receiveRoce x.job.config {} port rp regs).1 :=
  receiveRoce_frame _ _ _ _ _ fun p hp => by
    rw [hp, Option.any_some] at h
    exact ne_of_usesSlot h j

/-- What the first pass of a packet finds and leaves in its slot. -/
theorem Fills.consume {last : Bool} {st : PassState} (h : x.Fills regs j S)
    (hReady : ConsumeReady (x.slotJob j last) w 0 st) :
    (consumeMap regs st = 0 ↔ w ∉ S) ∧
    (w ∉ S → (consumeFlag regs st = 1 ↔ insert w S = Finset.univ)) ∧
    x.Fills (consumeRegs regs st 0) j (insert w S) := by
  obtain ⟨data, hData⟩ := h
  have hReady' : ConsumeReady (x.slotJob j false) w 0 st :=
    ⟨hReady.poolIndex, hReady.workerBitmap, hReady.numWorkers⟩
  have hUsed : (x.slotJob j false).set 0 = x.job.firstSet := slotJob_set j false
  have hLe : ∀ w' : Fin x.job.n,
      0 ≤ (if w' ∈ S then 1 else 0) ∧ (if w' ∈ S then 1 else 0) ≤ 0 + 1 := by
    intro w'
    split <;> omega
  by_cases hw : w ∈ S
  · have hMap := hData.map_dup hReady' hUsed (by simp [hw])
    refine ⟨iff_of_false hMap (not_not_intro hw), fun hNot => absurd hw hNot, data, ?_⟩
    rw [Finset.insert_eq_of_mem hw]
    exact hData.consume_dup hReady' hUsed (by simp [hw])
  · have hCount : (fun w' : Fin x.job.n => if w' ∈ S then 1 else 0) w = 0 := if_neg hw
    have hUpdate : Function.update (fun w' : Fin x.job.n => if w' ∈ S then 1 else 0) w (0 + 1) =
        fun w' => if w' ∈ insert w S then 1 else 0 := by
      funext w'
      by_cases hEq : w' = w <;> simp [hEq]
    refine ⟨iff_of_true (hData.map_new hReady' hUsed hLe hCount) hw, fun _ => ?_,
      Function.update data w fun _ => (st.d0, st.d1), ?_⟩
    · rw [hData.flag_new_one hReady' hUsed hLe hCount, hUpdate, Finset.eq_univ_iff_forall]
      refine forall_congr' fun w' => ?_
      by_cases hIn : w' ∈ insert w S <;> simp [hIn]
    · have hNew : Represents (x.slotJob j false) (· = x.job.firstSet) regs
          (fun w' => if w' ∈ S then 1 else 0) (Function.update data w fun _ => (st.d0, st.d1)) := by
        refine hData.congr_data fun w' k hk => ?_
        have hNe : w' ≠ w := by
          rintro rfl
          simp [hw] at hk
        rw [Function.update_of_ne hNe]
      have hConsumed := hNew.consume_new (i := 0) hReady' hUsed hLe hCount (by simp)
      rwa [hUpdate] at hConsumed

/-- **A packet that is let into a slot.** It goes on to be broadcast exactly if it fills
the slot up. -/
theorem Fills.take {i : ℕ} {rp : RocePacket} (h : x.Fills regs j S) (hSent : x.Sent w i rp)
    (hPool : receivedPoolIndex x.job.config.workers rp regs = some (x.poolIndex j)) :
    let pass := receiveRoce x.job.config {} (x.job.port w) rp regs
    let flights := pass.2.flight i ⟨w, 0, rp⟩
    x.Fills pass.1 j (insert w S) ∧
    (∀ f ∈ flights, FlightOk (x.slotJob j f.tag.sent.opcode.isLast) f) ∧
    flights.countP Flight.completes =
      (if w ∉ S ∧ insert w S = Finset.univ then 1 else 0) ∧
    (Event.broadcast? ⟨i, ⟨w, 0, rp⟩, .consume 0, pass.2⟩ : Option Packet) = none := by
  obtain ⟨st, regs', hPass, -, hDup, hFirst, hLast⟩ :=
    receive_consumes (hSent.sendable j) (by rw [slotJob_pool]; exact hPool)
  have hPipes : (x.slotJob j rp.opcode.isLast).pipes = 1 := by simp [Job.pipes, x.small]
  obtain ⟨rdmaMd, hOut⟩ := hPass.finishes hPipes.symm
  obtain ⟨hMap, hFlag, hAfter⟩ := (h.congr hPass.meets).consume hPass.ready.consumeReady
  have hOk : EmissionOk (x.slotJob j rp.opcode.isLast) i ⟨w, 0, rp⟩
    (receiveRoce x.job.config {} (x.job.port w) rp regs).2 := hPass.emissionOk i
  intro pass flights
  have hOut : pass.2 = _ := hOut
  refine ⟨hAfter.congr hPass.leaves, fun f hf => ?_, ?_, ?_⟩
  · obtain ⟨hId, hTag, hEmit⟩ := Emission.flight_id _ _ _ hf
    have hEq : f = ⟨i, ⟨w, 0, rp⟩, f.port, f.pkt⟩ := by rw [← hId, ← hTag]
    rw [hEmit] at hOk
    rw [hEq]
    exact hOk
  · have hFull : w ∉ S ∧ insert w S = Finset.univ ↔
        consumeMap regs' st = 0 ∧ consumeFlag regs' st = 1 := by
      rw [hMap]
      exact and_congr_right fun hNew => (hFlag hNew).symm
    simp only [hFull, flights, hOut]
    split
    · have hCompletes : ∀ port rdmaMd exponents payload,
          Flight.completes ⟨i, ⟨w, 0, rp⟩, port, ⟨slotStatus (consumeState regs' st 0)
            (.harvest (x.slotJob j rp.opcode.isLast).firstHarvest), rdmaMd, exponents, payload⟩⟩ =
          decide (consumeMap regs' st = 0 ∧ consumeFlag regs' st = 1) := by
        intro port rdmaMd exponents payload
        simp only [Flight.completes, Flight.dup, slotStatus, consumeState, hDup, hFirst, hLast,
          Bool.false_or]
        by_cases hOne : consumeFlag regs' st = 1#8
        · by_cases hZero : consumeMap regs' st = 0#32 <;> simp [hOne, hZero]
        · simp [hOne]
      simp only [Emission.flight, List.countP_singleton, hCompletes, decide_eq_true_eq]
    · next hOff =>
      rw [if_neg fun hOn => hOff (.inl hOn.2)]
      rfl
  · have hBroadcast : ∀ out, (∃ port pkt, out = .recirculated port pkt) ∨ out = .dropped →
        Event.broadcast? ⟨i, (⟨w, 0, rp⟩ : Tag x.job.n), .consume 0, out⟩ = none := by
      rintro out (⟨port, pkt, rfl⟩ | rfl) <;> rfl
    refine hBroadcast _ ?_
    rw [hOut]
    split
    · exact .inl ⟨_, _, rfl⟩
    · exact .inr rfl

/-- The packets of the message go through one harvest pass. -/
theorem harvest7_of_flightOk {last : Bool} {f : Flight x.job.n}
    (h : FlightOk (x.slotJob j last) f) : f.pkt.md.packetType = .harvest 7 ∧ f.port = 68 := by
  rcases h.route with ⟨i, hi, hLt, -⟩ | ⟨j', hLe, hType, hPort⟩
  · simp [Job.pipes, x.small] at hLt
    exact absurd hLt hi
  · have hSeven : (x.slotJob j last).firstHarvest = 7 := by simp [Job.firstHarvest, x.small]
    rw [hSeven] at hLe
    obtain rfl : j' = 7 := by omega
    exact ⟨hType, hPort⟩

/-- **A packet that comes back for the harvest.** -/
theorem harvest_replies {last : Bool} {f : Flight x.job.n} (h : FlightOk (x.slotJob j last) f)
    (regs : Registers) :
    let pass := recirculate x.job.config f.port f.pkt regs
    (∀ j', SameSlot (x.slot j') regs pass.1) ∧ pass.2.flight f.id f.tag = [] ∧
    ∀ ty, (Event.broadcast? ⟨f.id, f.tag, ty, pass.2⟩).isSome = f.completes := by
  obtain ⟨-, -, hPass⟩ := h.harvests (harvest7_of_flightOk h).1 regs
  intro pass
  have hReply : f.completes = true ∧ (∃ group pkt, pass.2 = .multicast group pkt) ∨
      f.completes = false ∧ ((∃ port pkt, pass.2 = .unicast port pkt) ∨ pass.2 = .dropped) := by
    have hCompletes : f.completes = true ↔
        f.pkt.md.firstFlag = false ∧ f.pkt.md.lastFlag = true ∧ f.dup = false := by
      simp [Flight.completes, and_assoc]
    have hEnds := hPass.ends rfl
    split at hEnds
    · next hDone =>
      obtain ⟨pkt, -, hOut⟩ := hEnds
      exact .inl ⟨hCompletes.mpr hDone, _, pkt, hOut⟩
    · next hNot =>
      refine .inr ⟨Bool.not_eq_true _ ▸ mt hCompletes.mp hNot, ?_⟩
      split at hEnds
      · obtain ⟨pkt, -, hOut⟩ := hEnds
        exact .inl ⟨_, pkt, hOut⟩
      · exact .inr hEnds
  refine ⟨fun j' => ?_, ?_, fun ty => ?_⟩
  · by_cases hj : j' = j
    · rw [hj]
      exact hPass.leaves
    · refine recirculate_frame _ _ _ _ fun hEq => hj ?_
      rw [h.md.poolIndex, Job.pool_slot] at hEq
      exact slot_injective hEq.symm
  · rcases hReply with ⟨-, _, _, hOut⟩ | ⟨-, ⟨_, _, hOut⟩ | hOut⟩ <;> rw [hOut] <;> rfl
  · rcases hReply with ⟨hDone, _, _, hOut⟩ | ⟨hNot, ⟨_, _, hOut⟩ | hOut⟩
    · rw [hOut, hDone]
      rfl
    · rw [hOut, hNot]
      rfl
    · rw [hOut, hNot]
      rfl

end Exchange

-- ---------------------------------------------------------------------------
-- The invariant
-- ---------------------------------------------------------------------------

/-- The packets whose slots were broadcast, in order. -/
def casts {n m : ℕ} (log : List (Fin m × Event n)) : List ℕ :=
  (log.filter fun e => e.2.broadcast?.isSome).map fun e => e.1.val

/-- The packets whose slots wait to be broadcast, in order. -/
def waiting {n m : ℕ} (recirc : List (Fin m × Flight n)) : List ℕ :=
  (recirc.filter fun f => f.2.completes).map fun f => f.1.val

theorem waiting_append {n m : ℕ} (l l' : List (Fin m × Flight n)) :
    waiting (l ++ l') = waiting l ++ waiting l' := by
  simp [waiting]

theorem waiting_map {n m : ℕ} (j : Fin m) (l : List (Flight n)) :
    waiting (l.map (Prod.mk j)) = List.replicate (l.countP Flight.completes) j.val := by
  rw [waiting, List.filter_map, List.map_map, List.countP_eq_length_filter]
  exact (List.map_const' (l := l.filter Flight.completes) (b := j.val) :)

/-- The workers have passed through the slots as `c` says, and the first `k` are full. -/
structure ExchangeInv (x : Exchange) (s : ExchangeState x) (c : Cascade (Fin x.job.n)) (k : ℕ) :
    Prop where
  fills : ∀ j, x.Fills s.regs j (c.passed j)
  frontier : c.Frontier k
  bounded : ∀ j, x.packets ≤ j → c.passed j = ∅
  register : ∀ w, s.opened w = true →
    x.Reached (s.regs.receiverData (x.qp w)) fun j => w ∈ c.passed j
  flights : ∀ f ∈ s.recirc, FlightOk (x.slotJob f.1 f.2.tag.sent.opcode.isLast) f.2
  order : casts s.log ++ waiting s.recirc = List.range k

namespace ExchangeInv

variable {x : Exchange} {s : ExchangeState x} {c : Cascade (Fin x.job.n)} {k : ℕ}

theorem init {regs : Registers} (h : x.Fresh regs) : ExchangeInv x { regs } Cascade.empty 0 := by
  have : Nonempty (Fin x.job.n) := ⟨⟨0, x.job.n_pos⟩⟩
  exact ⟨fun j => h.fills j, Cascade.frontier_empty, fun _ _ => rfl,
    fun w hw => absurd hw Bool.false_ne_true, fun f hf => absurd hf (by simp), rfl⟩

/-- Passes that leave the slots and the registers of the queue pairs alone. -/
theorem frame (h : ExchangeInv x s c k) {regs : Registers}
    (hSlots : ∀ j, SameSlot (x.slot j) s.regs regs)
    (hData : ∀ w, regs.receiverData (x.qp w) = s.regs.receiverData (x.qp w)) :
    ExchangeInv x { s with regs } c k where
  fills j := (h.fills j).congr (hSlots j)
  frontier := h.frontier
  bounded := h.bounded
  register w hw := by
    rw [hData w]
    exact h.register w hw
  flights := h.flights
  order := h.order

theorem harvestStep (h : ExchangeInv x s c k) : ExchangeInv x (x.harvestStep s) c k := by
  unfold Exchange.harvestStep
  split
  · exact h
  next j f rest hRecirc =>
  have hFlights := h.flights
  rw [hRecirc, List.forall_mem_cons] at hFlights
  obtain ⟨hSame, hFlight, hCast⟩ := Exchange.harvest_replies hFlights.1 s.regs
  have hFrame : ExchangeInv x
      { s with regs := (recirculate x.job.config f.port f.pkt s.regs).1 } c k :=
    h.frame hSame fun w => by rw [recirculate_receiverData]
  refine ⟨hFrame.fills, h.frontier, h.bounded, hFrame.register, ?_, ?_⟩
  · simp only [Exchange.emit, hFlight, List.map_nil, List.append_nil]
    exact hFlights.2
  · have hOrder := h.order
    simp only [Exchange.emit, hFlight, List.map_nil, List.append_nil]
    rw [hRecirc] at hOrder
    rw [← hOrder]
    simp only [casts, waiting, List.filter_append, List.filter_cons, List.filter_nil,
      List.map_append, hCast]
    cases f.completes <;> simp

/-- A packet that is let into a slot. -/
theorem take (h : ExchangeInv x s c k) {w : Fin x.job.n} {i : ℕ} {rp : RocePacket}
    {j : Fin x.packets} (next : Fin x.job.n → ℕ) {opened : Fin x.job.n → Bool}
    (hSent : x.Sent w i rp)
    (hPool : receivedPoolIndex x.job.config.workers rp s.regs = some (x.poolIndex j))
    (hBefore : ∀ i < j.val, w ∈ c.passed i)
    (hOpened : ∀ w', w' ≠ w → opened w' = s.opened w')
    (hReached : x.Reached (x.received w rp s.regs) fun i => w ∈ (c.pass w j hBefore).passed i) :
    ExchangeInv x (x.emit { s with
        regs := (receiveRoce x.job.config {} (x.job.port w) rp s.regs).1, next, opened }
      j i ⟨w, 0, rp⟩ (.consume 0) (receiveRoce x.job.config {} (x.job.port w) rp s.regs).2)
      (c.pass w j hBefore)
      (if w ∉ c.passed j ∧ insert w (c.passed j) = Finset.univ then k + 1 else k) := by
  obtain ⟨hFills, hFlights, hDone, hCast⟩ := (h.fills j).take hSent hPool
  refine ⟨?_, h.frontier.pass hBefore, ?_, ?_, ?_, ?_⟩
  · intro j'
    by_cases hj : j' = j
    · rw [hj, Cascade.pass_passed_self]
      exact hFills
    · rw [Cascade.pass_passed_of_ne hBefore fun hEq => hj (Fin.ext hEq)]
      refine (h.fills j').congr (receiveRoce_frame _ _ _ _ _ fun p hp hEq => hj ?_)
      rw [hPool] at hp
      rw [← Option.some.inj hp] at hEq
      exact Exchange.slot_injective (hEq.symm.trans (PoolIndex.slot_mk _ _))
  · intro i hi
    have := j.isLt
    rw [Cascade.pass_passed_of_ne hBefore (by omega)]
    exact h.bounded i hi
  · intro w' hw'
    by_cases hEq : w' = w
    · subst hEq
      simp only [Exchange.emit]
      rw [hSent.receiverData_eq]
      exact hReached
    · simp only [Exchange.emit] at hw' ⊢
      rw [receiveRoce_other _ _ _ _ fun hQp =>
        hEq (Exchange.qp_injective (hQp.symm.trans hSent.qp))]
      rw [hOpened w' hEq] at hw'
      exact (h.register w' hw').mono fun i => Cascade.mem_pass hBefore
  · intro f hf
    rcases List.mem_append.mp hf with hf | hf
    · exact h.flights f hf
    · obtain ⟨g, hg, rfl⟩ := List.mem_map.mp hf
      exact hFlights g hg
  · have hCasts : ∀ e : Fin x.packets × Event x.job.n, e.2.broadcast? = none →
        casts (s.log ++ [e]) = casts s.log := by
      intro e he
      simp [casts, he]
    simp only [Exchange.emit]
    rw [hCasts _ hCast, waiting_append, waiting_map, hDone, ← List.append_assoc, h.order]
    split
    · next hFull =>
      rw [(h.frontier.pass_completes hBefore hFull.1 hFull.2).1, List.range_succ]
      rfl
    · exact List.append_nil _

/-- A packet of a worker that is let into no slot of the message. -/
theorem miss (h : ExchangeInv x s c k) {w : Fin x.job.n} {i : ℕ} {rp : RocePacket}
    {next : Fin x.job.n → ℕ} {opened : Fin x.job.n → Bool} (hSent : x.Sent w i rp)
    (hMiss : ∀ p, receivedPoolIndex x.job.config.workers rp s.regs = some p →
      ∀ j, p.slot ≠ x.slot j)
    (hOpened : ∀ w', w' ≠ w → opened w' = s.opened w')
    (hReached : opened w = true → x.Reached (x.received w rp s.regs) fun i => w ∈ c.passed i) :
    ExchangeInv x { s with
      regs := (receiveRoce x.job.config {} (x.job.port w) rp s.regs).1, next, opened } c k where
  fills j := (h.fills j).congr (receiveRoce_frame _ _ _ _ _ fun p hp => hMiss p hp j)
  frontier := h.frontier
  bounded := h.bounded
  register w' hw' := by
    by_cases hEq : w' = w
    · subst hEq
      rw [hSent.receiverData_eq]
      exact hReached hw'
    · rw [receiveRoce_other _ _ _ _ fun hQp =>
        hEq (Exchange.qp_injective (hQp.symm.trans hSent.qp))]
      exact h.register w' (hOpened w' hEq ▸ hw')
  flights := h.flights
  order := h.order

theorem arriveStep (h : ExchangeInv x s c k) {w : Fin x.job.n} {i : ℕ} {rp : RocePacket}
    (hSent : x.Sent w i rp)
    (hClean : rp.opcode.isFirst = true ∨ s.opened w = true ∨
      receivedPoolIndex x.job.config.workers rp s.regs = none) :
    ∃ c' k', ExchangeInv x (x.arriveStep s w i rp) c' k' := by
  have hOpened : ∀ w', w' ≠ w →
      Function.update s.opened w (s.opened w || rp.opcode.isFirst) w' = s.opened w' :=
    fun w' hNe => Function.update_of_ne hNe _ _
  unfold Exchange.arriveStep
  rcases hSent.verdict (h.register w) hClean with ⟨hNone, hError⟩ | ⟨i', hSome, hPool, hPassed⟩
  · rw [hNone]
    refine ⟨c, k, h.miss hSent (fun p hp => ?_) hOpened fun hOpen => .inl (hError ?_)⟩
    · rw [hNone] at hp
      exact absurd hp (by simp)
    · rwa [Function.update_self] at hOpen
  rw [hSome]
  cases hPacket : x.packetOf (BitVec.ofNat 15 (x.base.toNat + 2 * i')) with
  | none =>
    rw [Option.bind_some, hPacket]
    have hOutside := Exchange.ne_of_packetOf_none hPacket
    refine ⟨c, k, h.miss hSent (fun p hp j hEq => hOutside j ?_) hOpened fun _ =>
      .inr ⟨i', hPool, fun j hj hLt => ?_⟩⟩
    · rw [hSome] at hp
      rw [← Option.some.inj hp, Exchange.ofNat_base, PoolIndex.slot_mk] at hEq
      rw [Exchange.ofNat_base, hEq]
      rfl
    · refine hPassed j (Nat.lt_of_le_of_ne hj ?_) hLt
      rintro rfl
      exact hOutside ⟨j, hLt⟩ (Exchange.ofNat_base_of_lt hLt)
  | some j =>
    rw [Option.bind_some, hPacket]
    have hEq := Exchange.eq_of_packetOf hPacket
    have hLe := Exchange.le_of_ofNat_base hEq
    have hBefore : ∀ i < j.val, w ∈ c.passed i := fun i hi =>
      hPassed i (by omega) (hi.trans j.isLt)
    have hReached : x.Reached (x.received w rp s.regs)
        fun i => w ∈ (c.pass w j hBefore).passed i := by
      refine .inr ⟨i', hPool, fun j' hj' hLt => ?_⟩
      by_cases hLast : j' = i'
      · subst hLast
        have hSame : j' = j.val := congrArg Fin.val
          (Exchange.poolIndex_injective ((Exchange.ofNat_base_of_lt hLt).symm.trans hEq))
        rw [hSame, Cascade.pass_passed_self]
        exact Finset.mem_insert_self w _
      · exact Cascade.mem_pass hBefore (hPassed j' (by omega) hLt)
    exact ⟨_, _, h.take _ hSent (hEq ▸ hSome) hBefore hOpened hReached⟩

/-- **One step.** -/
theorem step {lossy : Bool} (h : ExchangeInv x s c k) {label : ExchangeLabel x.job.n}
    (hClean : x.strays lossy s label = false) :
    ∃ c' k', ExchangeInv x (x.exchangeStep lossy s label) c' k' := by
  cases label with
  | arrive w i rp =>
    simp only [Exchange.exchangeStep]
    split
    · next hAdmits =>
      have hSends := hAdmits
      unfold Exchange.admits at hSends
      rw [Bool.and_eq_true] at hSends
      refine h.arriveStep (Exchange.of_sends hSends.1) ?_
      simp only [Exchange.strays, hAdmits, Bool.true_and, Bool.and_eq_false_iff,
        Bool.not_eq_false', Option.isSome_eq_false_iff, Option.isNone_iff_eq_none,
        or_assoc] at hClean
      exact hClean
    · exact ⟨c, k, h⟩
  | harvest => exact ⟨c, k, h.harvestStep⟩
  | otherArrival port rp =>
    simp only [Exchange.exchangeStep]
    split
    · exact ⟨c, k, h⟩
    · next hOther =>
      rw [Bool.or_eq_true, not_or] at hOther
      exact ⟨c, k, h.frame (Exchange.sameSlot_otherArrival port hOther.2) fun w =>
        receiveRoce_other _ _ _ _ (Exchange.ne_of_usesQp hOther.1 w)⟩
  | otherRecirculation port pkt =>
    simp only [Exchange.exchangeStep]
    split
    · exact ⟨c, k, h⟩
    · next hOther =>
      rw [Bool.or_eq_true, not_or] at hOther
      exact ⟨c, k, h.frame (fun j => recirculate_frame _ _ _ _ (Exchange.ne_of_usesSlot hOther.1 j))
        fun w => by rw [recirculate_receiverData]⟩

/-- **Whole runs.** -/
theorem run {lossy : Bool} (labels : List (ExchangeLabel x.job.n)) :
    ∀ {s : ExchangeState x} {c : Cascade (Fin x.job.n)} {k : ℕ}, ExchangeInv x s c k →
      x.strayFree lossy s labels = true →
      ∃ c' k', ExchangeInv x (x.exchangeRun lossy s labels) c' k' := by
  induction labels with
  | nil => exact fun h _ => ⟨_, _, h⟩
  | cons label labels ih =>
    intro s c k h hClean
    simp only [Exchange.strayFree, Bool.and_eq_true, Bool.not_eq_true'] at hClean
    obtain ⟨c', k', h'⟩ := h.step hClean.1
    exact ih h' hClean.2

end ExchangeInv

-- ---------------------------------------------------------------------------
-- The order of the replies
-- ---------------------------------------------------------------------------

theorem eq_range_of_append_eq {l l' : List ℕ} {a k : ℕ} (h : l ++ a :: l' = List.range k) :
    l = List.range a := by
  rw [List.range_eq_range'] at h
  obtain ⟨i, -, hl, hRest⟩ := List.range'_eq_append_iff.mp h.symm
  obtain ⟨rfl, -⟩ := List.range'_eq_cons_iff.mp hRest.symm
  rw [hl, List.range_eq_range', Nat.zero_add, Nat.mul_one]

theorem count_casts {n m : ℕ} (log : List (Fin m × Event n)) (j : ℕ) :
    (casts log).count j = log.countP (Exchange.isBroadcast j) := by
  unfold casts
  rw [List.count, List.countP_map, List.countP_filter]
  rfl

/-- **Replies are in order.** In every run in which no worker is let into a slot before the
first packet of a message came from it. -/
theorem replies_in_order (x : Exchange) {regs : Registers} (hFresh : x.Fresh regs)
    (labels : List (ExchangeLabel x.job.n)) (hClean : x.strayFree true { regs } labels = true) :
    let log := (x.exchangeRun true { regs } labels).log
    (∀ j < x.packets, log.countP (Exchange.isBroadcast j) ≤ 1) ∧
    ∀ j pre e post, log = pre ++ e :: post → Exchange.isBroadcast (j + 1) e = true →
      ∃ e' ∈ pre, Exchange.isBroadcast j e' = true := by
  obtain ⟨c, k, hInv⟩ := (ExchangeInv.init hFresh).run labels hClean
  intro log
  have hOrder : casts log ++ waiting (x.exchangeRun true { regs } labels).recirc = List.range k :=
    hInv.order
  refine ⟨fun j _ => ?_, fun j pre e post hLog hNext => ?_⟩
  · have hSub : (casts log).Sublist (List.range k) := by
      rw [← hOrder]
      exact List.sublist_append_left _ _
    rw [← count_casts]
    exact List.nodup_iff_count_le_one.mp (List.nodup_range.sublist hSub) j
  · have hCast : casts (pre ++ e :: post) = casts pre ++ (j + 1) :: casts post := by
      simp only [Exchange.isBroadcast, Bool.and_eq_true, decide_eq_true_eq] at hNext
      simp [casts, hNext.1, hNext.2]
    rw [hLog, hCast, List.append_assoc, List.cons_append] at hOrder
    have hMem : j ∈ casts pre := by
      rw [eq_range_of_append_eq hOrder]
      exact List.mem_range.mpr (Nat.lt_succ_self j)
    rw [← List.count_pos_iff, count_casts, List.countP_pos_iff] at hMem
    exact hMem

theorem fresh_clearRegisters (x : Exchange) (regs : Registers) : x.Fresh (clearRegisters regs) where
  bitmap j := by simp [Registers.bitmap, clearRegisters]
  workerCount _ := rfl

/-- A message of `m` packets from slot 0 on, on queue pair 0; the workers number their
packets from `firstPsn` on. -/
def Exchange.plain (n : ℕ) (hPos : 0 < n) (hLe : n ≤ 32) (m : ℕ) (hm : 0 < m) (hFits : m ≤ numSlots)
    (firstPsn : BitVec 24) : Exchange where
  job := Job.plain n hPos hLe false
  small := rfl
  packets := m
  packets_pos := hm
  fits := by
    have hSlot : (Job.plain n hPos hLe false).slot.toNat = 0 := rfl
    omega
  queue := 0
  queue_lt := Nat.two_pow_pos 16
  firstPsn _ := firstPsn

/-- The `i`-th packet of a worker, with all words `v`. -/
def Exchange.packet (x : Exchange) (w : Fin x.job.n) (i v : ℕ) : RocePacket where
  srcAddr := x.job.ip w
  dstAddr := x.job.switchIp
  partitionKey := x.job.partitionKey
  opcode :=
    if i % x.packets = 0 then if x.packets = 1 then .rdmaWriteOnly else .rdmaWriteFirst
    else if i % x.packets + 1 = x.packets then .rdmaWriteLast else .rdmaWriteMiddle
  dstQp := x.dstQp w
  psn := x.firstPsn w + BitVec.ofNat 24 i
  reth := if i % x.packets = 0 then { rKey := x.base.setWidth 32 } else {}
  payload := List.replicate 2 fun _ => BitVec.ofNat 32 v

theorem replies_in_order_lost :
    let x := Exchange.plain 2 (by decide) (by decide) 2 (by decide) (by decide) 7
    -- worker 1 loses the second packet of its first try
    let labels : List (ExchangeLabel 2) :=
      [.arrive 0 0 (x.packet (0 : Fin 2) 0 1), .arrive 1 0 (x.packet (1 : Fin 2) 0 2),
        .arrive 0 1 (x.packet (0 : Fin 2) 1 3), .harvest,
        .arrive 1 2 (x.packet (1 : Fin 2) 2 2), .arrive 1 3 (x.packet (1 : Fin 2) 3 4),
        .harvest, .harvest]
    let log := (x.exchangeRun true { regs := {} } labels).log
    casts log = [0, 1] ∧ log.countP (Exchange.isBroadcast 0) ≤ 1 := by
  intro x labels log
  have hClean : x.strayFree true { regs := {} } labels = true := by decide +kernel
  exact ⟨by decide +kernel, (replies_in_order x (fresh_clearRegisters x {}) labels hClean).1 0
    (by decide)⟩

/-- **A register of an earlier job.** The queue pair of the only worker last took a message
of one packet with number `0x104`. A new job starts and clears the slots, and its worker
numbers its packets from `0x104` on too. The first packet of its first message is lost, the
second one is let into the second slot. -/
theorem reply_out_of_order :
    let x := Exchange.plain 1 (by decide) (by decide) 2 (by decide) (by decide) 0x104
    let earlier := Exchange.plain 1 (by decide) (by decide) 1 (by decide) (by decide) 0x104
    let regs := clearRegisters (earlier.exchangeRun true { regs := {} }
      [.arrive (0 : Fin 1) 0 (earlier.packet (0 : Fin 1) 0 1), .harvest]).regs
    let log := (x.exchangeRun true { regs }
      [.arrive (0 : Fin 1) 1 (x.packet (0 : Fin 1) 1 2), .harvest]).log
    x.Fresh regs ∧ log.countP (Exchange.isBroadcast 1) = 1 ∧
      log.countP (Exchange.isBroadcast 0) = 0 :=
  ⟨fresh_clearRegisters _ _, by decide +kernel, by decide +kernel⟩

end SwitchML
