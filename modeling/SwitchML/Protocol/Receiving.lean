import Mathlib.Algebra.BigOperators.Group.List.Basic
import SwitchML.Lib.InOrder
import SwitchML.Protocol.Frame

/-!
# SwitchML protocol — the slots of a message's packets

Only the first packet of a message names a slot; the receive stage counts on from it,
as long as the packets come in sequence. Here is one queue pair of a worker over a
network that loses, duplicates and reorders its packets: what the register of the queue
pair says follows the in-order receiver of `Lib.InOrder`.

* `Session.log_tracks` — the register refines the in-order receiver;
* `receiver_assigns_slots` — every packet the stage takes is given the slot that is its
  own, and a packet it rejects leaves no trace in the slots.
-/

namespace SwitchML

-- ---------------------------------------------------------------------------
-- A sender and its queue pair
-- ---------------------------------------------------------------------------

/-- A message: the pool index its rkey holds, and the number of its packets. -/
structure Message where
  base : PoolIndex
  packets : ℕ

/-- A sender numbers the packets of its messages one after the other, and does not
number two alike. -/
structure Sender where
  firstPsn : BitVec 24
  messages : List Message
  distinct : (messages.map Message.packets).sum ≤ 2 ^ 24

namespace Sender

variable (s : Sender)

/-- The number of packets before a message. -/
def offset (k : ℕ) : ℕ := ((s.messages.take k).map Message.packets).sum

def psn (k j : ℕ) : BitVec 24 := BitVec.ofNat 24 (s.firstPsn.toNat + (s.offset k + j))

/-- The pool index of packet `j` of message `k`. -/
def poolIndex (k : Fin s.messages.length) (j : ℕ) : PoolIndex :=
  BitVec.ofNat 15 ((s.messages.get k).base.toNat + 2 * j)

/-- The RoCE packet is packet `j` of message `k`. -/
def sends (k : Fin s.messages.length) (j : ℕ) (rp : RocePacket) : Bool :=
  decide (j < (s.messages.get k).packets) && rp.opcode.isRdmaWrite &&
  decide (rp.opcode.isFirst = decide (j = 0)) &&
  decide (rp.opcode.isLast = decide (j + 1 = (s.messages.get k).packets)) &&
  decide (rp.psn = s.psn k j) &&
  (decide (j ≠ 0) || decide (rp.reth.rKey = (s.messages.get k).base.setWidth 32))

end Sender

/-- One queue pair of a worker that the control plane knows, with what is sent on it. -/
structure Session where
  cfg : SwitchConfig
  before : List ReceiveEntry
  worker : ReceiveEntry
  after : List ReceiveEntry
  workers_eq : cfg.workers = before ++ worker :: after
  unique : ∀ e ∈ before, worker.Apart e
  sender : Sender
  qp : QueuePairIndex

/-- What comes to the switch: packets of the sender in any order and number, packets of
other queue pairs, and packets that recirculate. -/
inductive Session.Input (x : Session) where
  | packet (k : Fin x.sender.messages.length) (j : ℕ) (rng : Rng) (port : PortId)
      (rp : RocePacket)
  | other (rng : Rng) (port : PortId) (rp : RocePacket)
  | recirculated (port : PortId) (pkt : Packet)

/-- A packet of the sender that reached the receive stage: the pool index it was given,
if any, and the registers before and after its pass. -/
structure Session.Arrival (x : Session) where
  message : Fin x.sender.messages.length
  packet : ℕ
  verdict : Option PoolIndex
  before : Registers
  after : Registers

namespace Session

variable (x : Session)

/-- The packet is the sender's, on this queue pair, and reaches the receive stage. -/
def receives (k : Fin x.sender.messages.length) (j : ℕ) (port : PortId) (rp : RocePacket) :
    Bool :=
  x.sender.sends k j rp && x.worker.matchesPacket rp && decide (qpIndex rp.dstQp = x.qp) &&
  (parseRoce x.cfg port rp).isSome

/-- The sender's packets in the order they are received. Inputs that are not what they
say are skipped. -/
def log (regs : Registers) : List x.Input → List x.Arrival
  | [] => []
  | .packet k j rng port rp :: rest =>
    if x.receives k j port rp then
      let after := (receiveRoce x.cfg rng port rp regs).1
      ⟨k, j, receivedPoolIndex x.cfg.workers rp regs, regs, after⟩ :: log after rest
    else log regs rest
  | .other rng port rp :: rest =>
    if qpIndex rp.dstQp = x.qp then log regs rest
    else log (receiveRoce x.cfg rng port rp regs).1 rest
  | .recirculated port pkt :: rest => log (recirculate x.cfg port pkt regs).1 rest

/-- The packet an entry of the log is about. -/
def Arrival.id {x : Session} (a : x.Arrival) : Fin x.sender.messages.length × ℕ :=
  (a.message, a.packet)

end Session

-- ---------------------------------------------------------------------------
-- Pool indices
-- ---------------------------------------------------------------------------

namespace PoolIndex

theorem mk_toNat (slot : SlotIndex) (set : Bool) :
    (mk slot set).toNat = 2 * slot.toNat + set.toNat := by
  unfold mk
  rw [BitVec.toNat_append, Nat.shiftLeft_eq, Nat.mul_comm, ← Nat.two_pow_add_eq_or_of_lt]
  · cases set <;> rfl
  · exact (BitVec.ofBool set).isLt

/-- Two on in the pool indices is one on in the slots, in the same set. -/
theorem ofNat_mk_add (slot : SlotIndex) (set : Bool) (i : ℕ) :
    BitVec.ofNat 15 ((mk slot set).toNat + 2 * i) = mk (slot + BitVec.ofNat 14 i) set := by
  apply BitVec.eq_of_toNat_eq
  rw [BitVec.toNat_ofNat, mk_toNat, mk_toNat, BitVec.toNat_add, BitVec.toNat_ofNat]
  have := slot.isLt
  have := Bool.toNat_lt set
  omega

end PoolIndex

-- ---------------------------------------------------------------------------
-- Sequence numbers
-- ---------------------------------------------------------------------------

namespace Sender

variable {s : Sender}

theorem offset_succ (k : Fin s.messages.length) :
    s.offset (k + 1) = s.offset k + (s.messages.get k).packets := by
  unfold offset
  rw [List.take_succ_eq_append_getElem k.isLt, List.map_append, List.sum_append]
  simp

theorem offset_mono {k k' : ℕ} (h : k ≤ k') : s.offset k ≤ s.offset k' := by
  unfold offset
  obtain ⟨d, rfl⟩ := Nat.exists_eq_add_of_le h
  rw [List.take_add, List.map_append, List.sum_append]
  exact Nat.le_add_right _ _

/-- The packets of a message are numbered before those of any later message. -/
theorem offset_add_le {k : Fin s.messages.length} {k' : ℕ} (h : k < k') :
    s.offset k + (s.messages.get k).packets ≤ s.offset k' := by
  rw [← offset_succ]
  exact offset_mono h

theorem offset_add_le_distinct (k : Fin s.messages.length) :
    s.offset k + (s.messages.get k).packets ≤ 2 ^ 24 := by
  refine (offset_add_le k.isLt).trans (le_trans ?_ s.distinct)
  unfold offset
  rw [List.take_length]

/-- A packet that is not the first of its message has the number after that of packet
`i` of message `k` only if it is packet `i + 1` of that message. -/
theorem psn_next {k k' : Fin s.messages.length} {i j : ℕ} (hi : i < (s.messages.get k).packets)
    (hj : j < (s.messages.get k').packets) (h0 : j ≠ 0) (h : s.psn k' j = s.psn k (i + 1)) :
    k' = k ∧ j = i + 1 := by
  have hk := offset_add_le_distinct k
  have hk' := offset_add_le_distinct k'
  have hMod : s.offset k' + j = s.offset k + (i + 1) := by
    have hNat := congrArg BitVec.toNat h
    simp only [psn, BitVec.toNat_ofNat] at hNat
    have := s.firstPsn.isLt
    omega
  rcases Nat.lt_trichotomy k k' with hLt | hEq | hLt
  · have := offset_add_le hLt
    omega
  · obtain rfl : k = k' := Fin.ext hEq
    exact ⟨rfl, by omega⟩
  · have := offset_add_le hLt
    omega

theorem poolIndex_zero (k : Fin s.messages.length) :
    s.poolIndex k 0 = (s.messages.get k).base := by
  simp [poolIndex]

/-- All packets of a message use the set of its first one. -/
theorem poolIndex_set (k : Fin s.messages.length) (j : ℕ) :
    (s.poolIndex k j).set = (s.messages.get k).base.set := by
  have hBit : ∀ p : PoolIndex, p.set = decide (p.toNat % 2 = 1) := by
    intro p
    rw [PoolIndex.set, BitVec.getLsbD, Nat.testBit_zero]
  rw [hBit, hBit, poolIndex, BitVec.toNat_ofNat]
  congr 1
  simp only [eq_iff_iff]
  omega

end Sender

-- ---------------------------------------------------------------------------
-- The register of a queue pair
-- ---------------------------------------------------------------------------

theorem succ_wraps (psn : BitVec 24) :
    (if psn.zeroExtend 32 = 0x00ffffff then 0 else psn.zeroExtend 32 + 1) =
      (psn + 1).setWidth 32 := by
  split <;> bv_omega

theorem getLsbD_31 (v : BitVec 32) : v.getLsbD 31 = decide (2 ^ 31 ≤ v.toNat) := by
  have hMsb := BitVec.msb_eq_decide v
  rw [BitVec.msb, BitVec.getMsbD] at hMsb
  simpa using hMsb

/-- The error bit survives the saturating addition. -/
theorem satAdd_error {v : BitVec 32} (h : v.getLsbD 31 = true) :
    (satAdd v 2).getLsbD 31 = true := by
  rw [getLsbD_31, decide_eq_true_eq] at h ⊢
  unfold satAdd
  split
  · decide
  · bv_omega

theorem satAdd_toNat {v : BitVec 32} (h : v.toNat < 2 ^ 31) :
    (satAdd v 2).toNat = v.toNat + 2 := by
  unfold satAdd
  split <;> bv_omega

theorem receiverAction_result (rp : RocePacket) (data : ReceiverData) :
    (receiverAction rp data).2 = (receiverAction rp data).1.poolIndex := by
  unfold receiverAction
  split <;> rfl

/-- The pool index of an RDMA write of a known worker, by the register after it. -/
theorem receivedPoolIndex_hit {before after : List ReceiveEntry} {e : ReceiveEntry}
    {rp : RocePacket} (regs : Registers) (hMatch : e.matchesPacket rp = true)
    (hOp : rp.opcode.isRdmaWrite = true) (hOther : ∀ e' ∈ before, e.Apart e') :
    receivedPoolIndex (before ++ e :: after) rp regs =
      let value := (receiverAction rp (regs.receiverData (qpIndex rp.dstQp))).1
      if !rp.opcode.isFirst && value.poolIndex.getLsbD 31 then none
      else some (value.poolIndex.extractLsb' 0 15) := by
  unfold receivedPoolIndex
  rw [rdmaReceiver_hit _ _ hMatch hOp hOther]
  simp only [assignPoolIndex, receiveFields_eq, receiverAction_result]
  cases rp.opcode.isFirst <;> simp

namespace Sender

variable {s : Sender}

/-- What the register says of the position of the in-order receiver: the number and the
pool index of the packet taken last, or the error bit. -/
def Tracks (s : Sender) (data : ReceiverData) :
    Option (Fin s.messages.length × ℕ) → Prop
  | none => data.poolIndex.getLsbD 31 = true
  | some (k, i) =>
    i < (s.messages.get k).packets ∧ data.nextSequenceNumber = (s.psn k (i + 1)).setWidth 32 ∧
      data.poolIndex.toNat = (s.messages.get k).base.toNat + 2 * i

theorem psn_succ (k i : ℕ) : s.psn k (i + 1) = s.psn k i + 1 := by
  unfold psn
  bv_omega

/-- A tracked pool index is far from the error bit. -/
theorem poolIndex_small {k : Fin s.messages.length} {i : ℕ}
    (hi : i < (s.messages.get k).packets) :
    (s.messages.get k).base.toNat + 2 * i < 2 ^ 31 - 2 := by
  have hBase := (s.messages.get k).base.isLt
  have hTotal := offset_add_le_distinct k
  omega

/-- What the parts of `sends` are. -/
theorem of_sends {k : Fin s.messages.length} {j : ℕ} {rp : RocePacket}
    (h : s.sends k j rp = true) :
    j < (s.messages.get k).packets ∧ rp.opcode.isRdmaWrite = true ∧
    rp.opcode.isFirst = decide (j = 0) ∧ rp.psn = s.psn k j ∧
    (j = 0 → rp.reth.rKey = (s.messages.get k).base.setWidth 32) := by
  simp only [sends, Bool.and_eq_true, Bool.or_eq_true, decide_eq_true_eq] at h
  obtain ⟨⟨⟨⟨⟨hLt, hOp⟩, hFirst⟩, -⟩, hPsn⟩, hKey⟩ := h
  exact ⟨hLt, hOp, hFirst, hPsn, fun h0 => hKey.resolve_left (not_not_intro h0)⟩

/-- The first packet of a message sets the register, whatever it was. -/
theorem tracks_first (data : ReceiverData) {k : Fin s.messages.length} {rp : RocePacket}
    (hSends : s.sends k 0 rp = true) : s.Tracks (receiverAction rp data).1 (some (k, 0)) := by
  obtain ⟨hLt, -, hFirst, hPsn, hKey⟩ := of_sends hSends
  unfold receiverAction
  rw [hFirst, decide_eq_true rfl, if_pos rfl]
  refine ⟨hLt, ?_, ?_⟩
  · simp only [receiverResetAction]
    rw [succ_wraps, hPsn, ← psn_succ]
  · simp only [receiverResetAction]
    rw [hKey rfl]
    bv_omega

/-- **One packet.** The register action does to the register what the in-order receiver
does to its position. -/
theorem Tracks.step {data : ReceiverData} {pos : Option (Fin s.messages.length × ℕ)}
    {k : Fin s.messages.length} {j : ℕ} {rp : RocePacket} (h : s.Tracks data pos)
    (hSends : s.sends k j rp = true) :
    s.Tracks (receiverAction rp data).1 (InOrder.accept pos (k, j)) := by
  by_cases h0 : j = 0
  · subst h0
    rw [InOrder.accept_zero]
    exact tracks_first data hSends
  · obtain ⟨hLt, -, hFirst, hPsn, -⟩ := of_sends hSends
    unfold receiverAction
    rw [hFirst, decide_eq_false h0, if_neg Bool.false_ne_true]
    simp only [receiverIncrementAction]
    match pos, h with
    | none, hError =>
      -- the error bit stays, whether or not the number is the expected one
      rw [InOrder.accept_gap h0 (by simp)]
      split
      · exact satAdd_error hError
      · simp [Tracks]
    | some (k', i), ⟨hi, hNext, hPool⟩ =>
      split
      · next hEq =>
        have hSame : s.psn k j = s.psn k' (i + 1) := by
          rw [hNext, hPsn] at hEq
          bv_omega
        obtain ⟨rfl, rfl⟩ := psn_next hi hLt h0 hSame
        rw [InOrder.accept_next]
        refine ⟨hLt, ?_, ?_⟩
        · simp only
          rw [← hEq, succ_wraps, hPsn, ← psn_succ]
        · simp only
          have := poolIndex_small hi
          rw [satAdd_toNat (by omega), hPool]
          omega
      · next hNe =>
        rw [InOrder.accept_gap h0]
        · simp [Tracks]
        · intro hEq
          obtain ⟨rfl, rfl⟩ := Prod.mk.inj (Option.some.inj hEq)
          refine hNe ?_
          rw [hNext, hPsn, Nat.sub_add_cancel (Nat.one_le_iff_ne_zero.mpr h0)]

/-- The pool index that is read off the register. -/
theorem Tracks.poolIndex_eq {data : ReceiverData} {k : Fin s.messages.length} {i : ℕ}
    (h : s.Tracks data (some (k, i))) :
    data.poolIndex.getLsbD 31 = false ∧ data.poolIndex.extractLsb' 0 15 = s.poolIndex k i := by
  obtain ⟨hi, -, hPool⟩ := h
  have hSmall := poolIndex_small hi
  refine ⟨?_, ?_⟩
  · rw [getLsbD_31, hPool, decide_eq_false_iff_not]
    omega
  · apply BitVec.eq_of_toNat_eq
    rw [BitVec.extractLsb'_toNat, hPool, poolIndex, BitVec.toNat_ofNat]
    simp

end Sender

-- ---------------------------------------------------------------------------
-- Who writes the register
-- ---------------------------------------------------------------------------

section Writers

variable (cfg : SwitchConfig) (regs : Registers) (st : PassState)

theorem checkSlot_receiverData : (checkSlot regs st).1.receiverData = regs.receiverData := by
  have hBits : (updateAndCheckWorkerBitmap regs st).1.receiverData = regs.receiverData := by
    unfold updateAndCheckWorkerBitmap
    dsimp only
    split <;> rfl
  have hCount : ∀ regs st, (countWorkers regs st).1.receiverData = regs.receiverData := by
    intro regs st
    unfold countWorkers
    dsimp only
    split <;> rfl
  unfold checkSlot
  split
  · exact (hCount _ _).trans hBits
  · rfl

theorem processSlot_receiverData :
    (processSlot cfg regs st).1.receiverData = regs.receiverData := by
  have hExp : (if st.md.lastPacketOfMessage then exponentMax regs st
      else (regs, st)).1.receiverData = regs.receiverData := by
    unfold exponentMax
    dsimp only
    split
    · split <;> rfl
    · rfl
  unfold processSlot
  generalize (if st.md.lastPacketOfMessage then exponentMax regs st else (regs, st)) = result
    at hExp
  rw [← hExp]
  dsimp only
  split <;> rfl

theorem switchmlPass_receiverData :
    (switchmlPass cfg regs st).1.receiverData = regs.receiverData := by
  rw [← checkSlot_receiverData regs st]
  unfold switchmlPass
  dsimp only
  split
  · rfl
  · split
    · exact processSlot_receiverData cfg _ _
    · rfl

theorem recirculate_receiverData (port : PortId) (pkt : Packet) :
    (recirculate cfg port pkt regs).1.receiverData = regs.receiverData := by
  unfold recirculate
  cases parseRecirculate cfg port pkt with
  | none => rfl
  | some st =>
    dsimp only
    split
    · rfl
    · exact switchmlPass_receiverData cfg _ _

theorem receiveRoce_receiverData (rng : Rng) {port : PortId} {rp : RocePacket} {st : PassState}
    (hParse : parseRoce cfg port rp = some st) :
    (receiveRoce cfg rng port rp regs).1.receiverData =
      (rdmaReceiver cfg.workers rp (debugPacketId regs st).1
        (debugPacketId regs st).2).1.receiverData := by
  unfold receiveRoce
  rw [hParse]
  exact switchmlPass_receiverData cfg _ _

/-- A packet writes the register of its own queue pair only. -/
theorem receiveRoce_other (rng : Rng) (port : PortId) {rp : RocePacket} {q : QueuePairIndex}
    (h : qpIndex rp.dstQp ≠ q) :
    (receiveRoce cfg rng port rp regs).1.receiverData q = regs.receiverData q := by
  have hRun : ∀ (act : ReceiveAction) regs st,
      (act.run rp regs st).1.receiverData q = regs.receiverData q := by
    intro act regs st
    cases act <;>
      simp [ReceiveAction.run, onlyPacket, firstPacket, middlePacket, lastPacket, assignPoolIndex,
        Function.update_of_ne h.symm]
  cases hParse : parseRoce cfg port rp with
  | none =>
    unfold receiveRoce
    rw [hParse]
  | some st =>
    rw [receiveRoce_receiverData cfg regs rng hParse]
    exact hRun _ _ _

end Writers

-- ---------------------------------------------------------------------------
-- Runs
-- ---------------------------------------------------------------------------

namespace Session

variable {x : Session} {regs : Registers}

theorem of_receives {k : Fin x.sender.messages.length} {j : ℕ} {port : PortId}
    {rp : RocePacket} (h : x.receives k j port rp = true) :
    x.sender.sends k j rp = true ∧ x.worker.matchesPacket rp = true ∧
    qpIndex rp.dstQp = x.qp ∧ ∃ st, parseRoce x.cfg port rp = some st := by
  simp only [receives, Bool.and_eq_true, decide_eq_true_eq] at h
  obtain ⟨⟨⟨hSends, hMatch⟩, hQp⟩, hParse⟩ := h
  exact ⟨hSends, hMatch, hQp, Option.isSome_iff_exists.mp hParse⟩

/-- The register after a packet of the sender. -/
theorem receiverData_of_receives {k : Fin x.sender.messages.length} {j : ℕ} {port : PortId}
    {rp : RocePacket} (rng : Rng) (h : x.receives k j port rp = true) :
    (receiveRoce x.cfg rng port rp regs).1.receiverData x.qp =
      (receiverAction rp (regs.receiverData x.qp)).1 := by
  obtain ⟨hSends, hMatch, hQp, st, hParse⟩ := of_receives h
  have hOp := (Sender.of_sends hSends).2.1
  rw [receiveRoce_receiverData _ _ _ hParse, x.workers_eq,
    rdmaReceiver_hit _ _ hMatch hOp x.unique]
  simp [assignPoolIndex, hQp, debugPacketId]

/-- A packet is given the pool index of the position after it. -/
theorem verdict_of_receives {k : Fin x.sender.messages.length} {j : ℕ} {port : PortId}
    {rp : RocePacket} {pos : Option (Fin x.sender.messages.length × ℕ)}
    (h : x.receives k j port rp = true)
    (hTracks : x.sender.Tracks (receiverAction rp (regs.receiverData x.qp)).1 pos)
    (hFirst : j = 0 → pos ≠ none) :
    receivedPoolIndex x.cfg.workers rp regs =
      pos.map fun p => x.sender.poolIndex p.1 p.2 := by
  obtain ⟨hSends, hMatch, hQp, -⟩ := of_receives h
  obtain ⟨-, hOp, hIsFirst, -⟩ := Sender.of_sends hSends
  rw [x.workers_eq, receivedPoolIndex_hit regs hMatch hOp x.unique, hQp]
  dsimp only
  generalize (receiverAction rp (regs.receiverData x.qp)).1 = value at hTracks
  cases pos with
  | none =>
    have h0 : j ≠ 0 := fun h0 => hFirst h0 rfl
    have hError : value.poolIndex.getLsbD 31 = true := hTracks
    rw [hError, hIsFirst, decide_eq_false h0]
    rfl
  | some p =>
    rw [hTracks.poolIndex_eq.1, hTracks.poolIndex_eq.2, Bool.and_false]
    rfl

/-- **Refinement.** The pool indices that the packets are given are those of the
positions of the in-order receiver. -/
theorem log_tracks (inputs : List x.Input) {pos : Option (Fin x.sender.messages.length × ℕ)}
    (hTracks : x.sender.Tracks (regs.receiverData x.qp) pos) :
    (x.log regs inputs).map Arrival.verdict =
      (InOrder.positions pos ((x.log regs inputs).map Arrival.id)).map
        (Option.map fun p => x.sender.poolIndex p.1 p.2) := by
  induction inputs generalizing regs pos with
  | nil => rfl
  | cons input inputs ih =>
    cases input with
    | packet k j rng port rp =>
      rw [log]
      split
      · next h =>
        have hStep := hTracks.step (of_receives h).1
        have hVerdict := verdict_of_receives h hStep fun h0 => by simp [InOrder.accept, h0]
        rw [← receiverData_of_receives rng h] at hStep
        simp only [List.map_cons, InOrder.positions, ih hStep, hVerdict, Arrival.id]
      · exact ih hTracks
    | other rng port rp =>
      rw [log]
      split
      · exact ih hTracks
      · next h =>
        refine ih ?_
        rw [receiveRoce_other _ _ _ _ h]
        exact hTracks
    | recirculated port pkt =>
      refine ih ?_
      rw [recirculate_receiverData]
      exact hTracks

/-- What an entry of a log says, and what comes after it. -/
theorem log_split {inputs : List x.Input} {pre post : List x.Arrival} {a : x.Arrival}
    (h : x.log regs inputs = pre ++ a :: post) :
    ∃ rng port rp rest, x.receives a.message a.packet port rp = true ∧
      a.verdict = receivedPoolIndex x.cfg.workers rp a.before ∧
      a.after = (receiveRoce x.cfg rng port rp a.before).1 ∧ post = x.log a.after rest := by
  induction inputs generalizing regs pre with
  | nil => simp [log] at h
  | cons input inputs ih =>
    cases input with
    | packet k j rng port rp =>
      rw [log] at h
      split at h
      · next hReceives =>
        cases pre with
        | nil =>
          obtain ⟨rfl, rfl⟩ := List.cons.inj h
          exact ⟨rng, port, rp, inputs, hReceives, rfl, rfl, rfl⟩
        | cons b pre => exact ih (List.cons.inj h).2
      · exact ih h
    | other rng port rp =>
      rw [log] at h
      split at h
      · exact ih h
      · exact ih h
    | recirculated port pkt => exact ih h

/-- The register after an entry that starts a message. -/
theorem tracks_after_first {inputs : List x.Input} {pre post : List x.Arrival} {a : x.Arrival}
    (h : x.log regs inputs = pre ++ a :: post) (h0 : a.packet = 0) :
    x.sender.Tracks (a.after.receiverData x.qp) (some (a.message, 0)) ∧
      a.verdict = some (x.sender.poolIndex a.message 0) ∧
      ∃ rest, post = x.log a.after rest := by
  obtain ⟨rng, port, rp, rest, hReceives, hVerdict, hAfter, hPost⟩ := log_split h
  rw [h0] at hReceives
  have hTracks := Sender.tracks_first (a.before.receiverData x.qp) (of_receives hReceives).1
  refine ⟨?_, ?_, rest, hPost⟩
  · rw [hAfter, receiverData_of_receives rng hReceives]
    exact hTracks
  · rw [hVerdict, verdict_of_receives hReceives hTracks (by simp)]
    rfl

/-- A rejected packet leaves the registers of all slots as they are. -/
theorem sameSlot_of_rejected {inputs : List x.Input} {a : x.Arrival}
    (h : a ∈ x.log regs inputs) (hNone : a.verdict = none) (slot : SlotIndex) :
    SameSlot slot a.before a.after := by
  obtain ⟨pre, post, hSplit⟩ := List.append_of_mem h
  obtain ⟨rng, port, rp, -, -, hVerdict, hAfter, -⟩ := log_split hSplit
  rw [hAfter]
  refine receiveRoce_frame x.cfg rng port rp a.before fun p hp => ?_
  rw [← hVerdict, hNone] at hp
  exact absurd hp (by simp)

end Session

/-- **One message.** After a packet that starts a message, and up to the next one of this
kind, the packets that are taken are the next ones of the message, as many as come in
sequence. -/
theorem Session.log_inOrder {x : Session} {regs : Registers} {inputs : List x.Input}
    {pre mid post : List x.Arrival} {first : x.Arrival}
    (hLog : x.log regs inputs = pre ++ first :: (mid ++ post)) (h0 : first.packet = 0)
    (hMid : ∀ a ∈ mid, a.packet ≠ 0) :
    ∃ m ≤ mid.length,
      (mid.take m).map Session.Arrival.id = (List.range m).map (fun i => (first.message, i + 1)) ∧
      mid[m]?.map Session.Arrival.id ≠ some (first.message, m + 1) ∧
      mid.map Session.Arrival.verdict =
        (mid.take m).map (fun a => some (x.sender.poolIndex a.message a.packet)) ++
          List.replicate (mid.length - m) none := by
  obtain ⟨hTracks, -, rest, hRest⟩ := Session.tracks_after_first hLog h0
  have hVerdicts := Session.log_tracks rest hTracks
  rw [← hRest, List.map_append, List.map_append] at hVerdicts
  obtain ⟨pos, hPos⟩ := InOrder.positions_append (some (first.message, 0))
    (mid.map Session.Arrival.id) (post.map Session.Arrival.id)
  have hIds : ∀ p ∈ mid.map Session.Arrival.id, p.2 ≠ 0 := by
    simpa [Session.Arrival.id] using hMid
  obtain ⟨m, hm, hTake, hStop, hMidPos⟩ := InOrder.positions_split hIds first.message 0
  rw [List.length_map] at hm
  refine ⟨m, hm, ?_, ?_, ?_⟩
  · rw [List.map_take, hTake]
    exact List.map_congr_left fun i _ => by rw [Nat.zero_add, Nat.add_comm]
  · rwa [List.getElem?_map, Nat.zero_add, Nat.add_comm] at hStop
  · rw [hPos, hMidPos, List.map_append] at hVerdicts
    have hSplit := (List.append_inj hVerdicts (by simp; omega)).1
    rw [hSplit]
    simp [Session.Arrival.id, ← List.map_take, Function.comp_def]

/-- **The receive stage finds the slots.** From any state of the switch, whatever is lost,
duplicated or reordered: the first packet of a message is given the pool index of the
message. Of the packets that come after it, up to the next packet of this kind, those are
taken that continue the message in sequence, and packet `j` is given a pool index `2 * j`
further on, in the same set; the first packet that does not continue it and everything behind
it is rejected. A rejected packet changes no register of any slot. -/
theorem receiver_assigns_slots (x : Session) (regs : Registers) (inputs : List x.Input) :
    (∀ a ∈ x.log regs inputs, a.packet = 0 →
      a.verdict = some (x.sender.messages.get a.message).base) ∧
    (∀ pre first mid post, x.log regs inputs = pre ++ first :: (mid ++ post) →
      first.packet = 0 → (∀ a ∈ mid, a.packet ≠ 0) →
      ∃ m ≤ mid.length,
        (mid.take m).map Session.Arrival.id =
          (List.range m).map (fun i => (first.message, i + 1)) ∧
        -- the packet after them, if there is one, is not the next
        mid[m]?.map Session.Arrival.id ≠ some (first.message, m + 1) ∧
        (∀ a ∈ mid.take m, ∃ p, a.verdict = some p ∧
          p.toNat = ((x.sender.messages.get a.message).base.toNat + 2 * a.packet) % 2 ^ 15 ∧
          p.set = (x.sender.messages.get a.message).base.set) ∧
        ∀ a ∈ mid.drop m, a.verdict = none) ∧
    ∀ a ∈ x.log regs inputs, a.verdict = none → ∀ slot, SameSlot slot a.before a.after := by
  refine ⟨fun a ha h0 => ?_, fun pre first mid post hLog h0 hMid => ?_,
    fun a ha hNone slot => Session.sameSlot_of_rejected ha hNone slot⟩
  · obtain ⟨pre, post, hSplit⟩ := List.append_of_mem ha
    rw [(Session.tracks_after_first hSplit h0).2.1, Sender.poolIndex_zero]
  · obtain ⟨m, hm, hTake, hStop, hVerdicts⟩ := Session.log_inOrder hLog h0 hMid
    have hSplit : mid.map Session.Arrival.verdict =
        (mid.take m).map Session.Arrival.verdict ++ (mid.drop m).map Session.Arrival.verdict := by
      rw [← List.map_append, List.take_append_drop]
    rw [hSplit] at hVerdicts
    obtain ⟨hTaken, hRejected⟩ := List.append_inj hVerdicts (by simp)
    refine ⟨m, hm, hTake, hStop, fun a ha => ?_, fun a ha => ?_⟩
    · refine ⟨_, List.map_inj_left.mp hTaken a ha, ?_, Sender.poolIndex_set _ _⟩
      rw [Sender.poolIndex, BitVec.toNat_ofNat]
    · have hMem := List.mem_map_of_mem (f := Session.Arrival.verdict) ha
      rw [hRejected] at hMem
      exact List.eq_of_mem_replicate hMem

end SwitchML
