import SwitchML.Switch.Receiver

/-!
# SwitchML switch — what the receive stage does

* `ReceiveEntry.apart_of_ne` — workers are told apart by their queue pairs, also if several of
  them run on one machine;
* `lookup_receiveRoce` — the entry of a worker is found for its packets;
* `rdmaReceiver_hit` — what the receive stage does with an RDMA write of a worker it
  knows, for all opcodes at once.
-/

namespace SwitchML

open MatchAction

-- ---------------------------------------------------------------------------
-- Opcodes
-- ---------------------------------------------------------------------------

namespace IbOpcode

def isRdmaWrite : IbOpcode → Bool
  | .rdmaWriteFirst | .rdmaWriteMiddle | .rdmaWriteLast | .rdmaWriteLastImmediate
  | .rdmaWriteOnly | .rdmaWriteOnlyImmediate => true
  | _ => false

/-- The opcodes of packets that start a message. -/
def isFirst : IbOpcode → Bool
  | .rdmaWriteFirst | .rdmaWriteOnly | .rdmaWriteOnlyImmediate => true
  | _ => false

/-- The opcodes of packets that end a message. -/
def isLast : IbOpcode → Bool
  | .rdmaWriteLast | .rdmaWriteLastImmediate | .rdmaWriteOnly | .rdmaWriteOnlyImmediate => true
  | _ => false

def hasImmediate : IbOpcode → Bool
  | .rdmaWriteLastImmediate | .rdmaWriteOnlyImmediate => true
  | _ => false

end IbOpcode

/-- The packet comes from the worker of the entry, on one of its queue pairs. -/
def ReceiveEntry.matchesPacket (e : ReceiveEntry) (rp : RocePacket) : Bool :=
  decide (rp.srcAddr = e.workerIp) && decide (rp.dstAddr = e.switchIp) &&
  decide (rp.partitionKey = e.switchPartitionKey) &&
  KeyField.masked e.qpnTopBits 0xff0000 rp.dstQp

namespace ReceiveEntry

/-- No packet is from the workers of both entries. -/
def Apart (e e' : ReceiveEntry) : Prop :=
  ∀ rp, e.matchesPacket rp = true → e'.matchesPacket rp = false

variable {e e' : ReceiveEntry}

theorem toNat_qpnTopBits (h : e.workerRid.toNat < 128) :
    e.qpnTopBits.toNat = 2 ^ 16 * (128 + e.workerRid.toNat) := by
  have hAll : ∀ k < 128, (0x800000#24 ||| ((BitVec.ofNat 16 k &&& 0xff).zeroExtend 24 <<<
      16)).toNat = 2 ^ 16 * (128 + k) := by decide
  have hBits := hAll _ h
  rwa [BitVec.ofNat_toNat, BitVec.setWidth_eq] at hBits

/-- The top bits of a queue pair number of the switch tell the worker. -/
theorem masked_qpnTopBits_iff (h : e.workerRid.toNat < 128) (qpn : BitVec 24) :
    KeyField.masked e.qpnTopBits 0xff0000 qpn = true ↔
      qpn.toNat / 2 ^ 16 = 128 + e.workerRid.toNat := by
  have hMask : ∀ b < 24, (0xff0000 : BitVec 24).getLsbD b = decide (16 ≤ b) := by decide
  rw [KeyField.masked_high hMask, toNat_qpnTopBits h, Nat.mul_div_cancel_left _ (by decide)]

/-- **Workers are told apart by their queue pairs.** Their addresses need not differ. -/
theorem apart_of_ne (h : e.workerRid.toNat < 128) (h' : e'.workerRid.toNat < 128)
    (hNe : e.workerRid ≠ e'.workerRid) : e.Apart e' := by
  intro rp hMatch
  by_contra hBoth
  rw [Bool.not_eq_false] at hBoth
  simp only [matchesPacket, Bool.and_eq_true] at hMatch hBoth
  have hRank := (masked_qpnTopBits_iff h rp.dstQp).mp hMatch.2
  have hRank' := (masked_qpnTopBits_iff h' rp.dstQp).mp hBoth.2
  exact hNe (BitVec.eq_of_toNat_eq (by omega))

end ReceiveEntry

-- ---------------------------------------------------------------------------
-- The table
-- ---------------------------------------------------------------------------

/-- The action `add_entry` installs for an opcode. -/
def receiveAction (args : ReceiveArgs) : IbOpcode → ReceiveAction
  | .rdmaWriteFirst => .firstPacket args
  | .rdmaWriteMiddle => .middlePacket args
  | .rdmaWriteLast => .lastPacket args
  | .rdmaWriteOnly => .onlyPacket args
  | .rdmaWriteLastImmediate => .lastPacketImmediate args
  | .rdmaWriteOnlyImmediate => .onlyPacketImmediate args
  | _ => .forward

theorem addEntry_miss {e : ReceiveEntry} {rp : RocePacket} (h : e.matchesPacket rp = false) :
    ∀ row ∈ addEntry e, row.1 (receiveKey rp) = false := by
  intro row hRow
  obtain ⟨⟨opcode, act⟩, -, rfl⟩ := List.mem_map.mp hRow
  simp only [ReceiveEntry.matchesPacket, Bool.and_eq_false_iff] at h
  simp only [receiveKey, Bool.and_eq_false_iff]
  tauto

theorem addEntry_hit {e : ReceiveEntry} {rp : RocePacket} (hMatch : e.matchesPacket rp = true)
    (hOp : rp.opcode.isRdmaWrite = true) (rest : Table ReceiveKey ReceiveAction) :
    lookup .forward (receiveKey rp) (addEntry e ++ rest) = receiveAction e.args rp.opcode := by
  simp only [ReceiveEntry.matchesPacket, Bool.and_eq_true, decide_eq_true_eq] at hMatch
  obtain ⟨⟨⟨hSrc, hDst⟩, hKey⟩, hQp⟩ := hMatch
  cases hCase : rp.opcode <;> rw [hCase] at hOp <;>
    first
    | exact absurd hOp (by decide)
    | simp only [addEntry, List.map_cons, List.map_nil, List.cons_append, lookup_cons, receiveKey,
        hSrc, hDst, hKey, hQp, hCase, receiveAction, decide_true, Bool.and_true, Bool.and_false,
        reduceCtorEq, decide_false, if_true, Bool.false_eq_true, if_false]

/-- The entry of a worker is found if no entry before it is for the packet. -/
theorem lookup_receiveRoce {before after : List ReceiveEntry} {e : ReceiveEntry}
    {rp : RocePacket} (hMatch : e.matchesPacket rp = true)
    (hOp : rp.opcode.isRdmaWrite = true) (hOther : ∀ e' ∈ before, e.Apart e') :
    lookup .forward (receiveKey rp) (receiveRoceEntries (before ++ e :: after)) =
      receiveAction e.args rp.opcode := by
  rw [receiveRoceEntries, List.flatMap_append, lookup_append_miss, List.flatMap_cons]
  · exact addEntry_hit hMatch hOp _
  · intro row hRow
    obtain ⟨e', he', hRow⟩ := List.mem_flatMap.mp hRow
    exact addEntry_miss (hOther e' he' rp hMatch) row hRow

/-- What `receive_roce` does with a packet it knows is what `add_entry` installed for one
of the workers. -/
theorem lookup_receiveRoce_cases (workers : List ReceiveEntry) (rp : RocePacket) :
    lookup .forward (receiveKey rp) (receiveRoceEntries workers) = .forward ∨
      rp.opcode.isRdmaWrite = true ∧ ∃ e ∈ workers,
        lookup .forward (receiveKey rp) (receiveRoceEntries workers) =
          receiveAction e.args rp.opcode := by
  refine (lookup_eq_or_mem _ _ _).imp_right ?_
  rintro ⟨row, hRow, hHit, hAct⟩
  obtain ⟨e, he, hRow⟩ := List.mem_flatMap.mp hRow
  obtain ⟨⟨opcode, act⟩, hPair, rfl⟩ := List.mem_map.mp hRow
  -- the row is the one of the packet's opcode
  obtain rfl : rp.opcode = opcode := by
    simp only [Bool.and_eq_true, decide_eq_true_eq] at hHit
    exact hHit.1.2
  have hInstalled : rp.opcode.isRdmaWrite = true ∧ act = receiveAction e.args rp.opcode := by
    simp only [List.mem_cons, Prod.mk.injEq, List.not_mem_nil, or_false] at hPair
    rcases hPair with h | h | h | h | h | h <;> simp [h.1, h.2, IbOpcode.isRdmaWrite,
      receiveAction]
  exact ⟨hInstalled.1, e, he, hAct.trans hInstalled.2⟩

-- ---------------------------------------------------------------------------
-- The control
-- ---------------------------------------------------------------------------

/-- The register action for a packet. -/
def receiverAction (rp : RocePacket) : ReceiverData → ReceiverData × BitVec 32 :=
  if rp.opcode.isFirst then receiverResetAction rp.psn rp.reth.rKey
  else receiverIncrementAction rp.psn

/-- The packet with the fields set that do not depend on the register. -/
def receiveFields (args : ReceiveArgs) (rp : RocePacket) (st : PassState) : PassState :=
  messageFlags rp.opcode.isFirst rp.opcode.isLast
    (setBitmap args rp (if rp.opcode.hasImmediate then copyImmediateToExponent rp st else st))

theorem receiveFields_eq (args : ReceiveArgs) (rp : RocePacket) (st : PassState) :
    receiveFields args rp st =
      { st with
        workerBitmap := args.workerBitmap
        md := { st.md with
          numWorkers := args.numWorkers
          mgid := args.mgid
          workerType := args.workerType
          workerId := args.workerId
          packetSize := args.packetSize
          recircPortSelector := qpIndex rp.dstQp
          firstPacketOfMessage := rp.opcode.isFirst
          lastPacketOfMessage := rp.opcode.isLast }
        rdmaMd := { st.rdmaMd with addr := rp.reth.addr, len := rp.reth.len.setWidth 24 }
        exponents := if rp.opcode.hasImmediate then
            ⟨rp.immediate.extractLsb' 24 8, rp.immediate.extractLsb' 16 8⟩
          else st.exponents } := by
  unfold receiveFields
  split <;> rfl

theorem receiveAction_run (args : ReceiveArgs) {rp : RocePacket} (regs : Registers)
    (st : PassState) (hOp : rp.opcode.isRdmaWrite = true) :
    (receiveAction args rp.opcode).run rp regs st =
      assignPoolIndex (receiverAction rp) (!rp.opcode.isFirst) rp regs
        (receiveFields args rp st) := by
  cases hCase : rp.opcode <;> rw [hCase] at hOp <;>
    first
    | exact absurd hOp (by decide)
    | simp [receiveAction, ReceiveAction.run, receiverAction, receiveFields, hCase,
        IbOpcode.isFirst, IbOpcode.isLast, IbOpcode.hasImmediate, onlyPacket, firstPacket,
        middlePacket, lastPacket]

theorem rdmaReceiver_hit {before after : List ReceiveEntry} {e : ReceiveEntry}
    {rp : RocePacket} (regs : Registers) (st : PassState) (hMatch : e.matchesPacket rp = true)
    (hOp : rp.opcode.isRdmaWrite = true) (hOther : ∀ e' ∈ before, e.Apart e') :
    rdmaReceiver (before ++ e :: after) rp regs st =
      assignPoolIndex (receiverAction rp) (!rp.opcode.isFirst) rp regs
        (receiveFields e.args rp st) := by
  rw [rdmaReceiver, lookup_receiveRoce hMatch hOp hOther, receiveAction_run _ _ _ hOp]

end SwitchML
