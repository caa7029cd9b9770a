import SwitchML.Switch.Tables

/-!
# SwitchML switch — RDMAReceiver

The receive stage of RoCE packets: the `receive_roce` table with the entries the
control plane installs for a worker, and the two register actions that find the
slot of each packet of a message. Only the first packet of a message carries a
pool index (its rkey); the stage keeps it, with the next sequence number it
expects, in one register per queue pair.
-/

namespace SwitchML

open MatchAction

-- ---------------------------------------------------------------------------
-- Register actions
-- ---------------------------------------------------------------------------

/-- `receiver_reset_action`, for `_FIRST` and `_ONLY` packets. -/
def receiverResetAction (psn : BitVec 24) (rKey : BitVec 32) (_ : ReceiverData) :
    ReceiverData × BitVec 32 :=
  let value : ReceiverData :=
    { nextSequenceNumber := if psn.zeroExtend 32 = 0x00ffffff then 0 else psn.zeroExtend 32 + 1
      poolIndex := rKey }
  (value, value.poolIndex)

/-- `receiver_increment_action`, for `_MIDDLE` and `_LAST` packets. The top bit of the
pool index says that a packet came out of sequence; the saturating addition keeps
it set until the next message. -/
def receiverIncrementAction (psn : BitVec 24) (value : ReceiverData) :
    ReceiverData × BitVec 32 :=
  let value : ReceiverData :=
    if psn.zeroExtend 32 = value.nextSequenceNumber then
      { poolIndex := satAdd value.poolIndex 2
        nextSequenceNumber :=
          if value.nextSequenceNumber = 0x00ffffff then 0 else value.nextSequenceNumber + 1 }
    else { value with poolIndex := 0x80000000 }
  (value, value.poolIndex)

-- ---------------------------------------------------------------------------
-- The table
-- ---------------------------------------------------------------------------

/-- The arguments of the receive actions, the same for all packets of a worker. -/
structure ReceiveArgs where
  mgid : MulticastGroupId
  workerType : WorkerType
  workerId : WorkerId
  numWorkers : NumWorkers
  workerBitmap : WorkerBitmap
  packetSize : PacketSize
deriving DecidableEq, Repr

inductive ReceiveAction where
  | onlyPacket (args : ReceiveArgs)
  | onlyPacketImmediate (args : ReceiveArgs)
  | firstPacket (args : ReceiveArgs)
  | middlePacket (args : ReceiveArgs)
  | lastPacket (args : ReceiveArgs)
  | lastPacketImmediate (args : ReceiveArgs)
  | forward
deriving DecidableEq, Repr

structure ReceiveKey where
  srcAddr : BitVec 32
  dstAddr : BitVec 32
  partitionKey : BitVec 16
  opcode : IbOpcode
  dstQp : BitVec 24

/-- What the control plane knows of a worker when it adds its entries. -/
structure ReceiveEntry where
  workerIp : BitVec 32
  switchIp : BitVec 32
  switchPartitionKey : BitVec 16
  workerRid : WorkerId
  args : ReceiveArgs

/-- `qpn_top_bits`: the switch's queue pairs for a worker all start with these. -/
def ReceiveEntry.qpnTopBits (e : ReceiveEntry) : BitVec 24 :=
  0x800000 ||| ((e.workerRid &&& 0xff).zeroExtend 24 <<< 16)

/-- `add_entry`: one row of `receive_roce` for each opcode. -/
def addEntry (e : ReceiveEntry) : Table ReceiveKey ReceiveAction :=
  [(IbOpcode.rdmaWriteFirst, ReceiveAction.firstPacket e.args),
   (.rdmaWriteMiddle, .middlePacket e.args),
   (.rdmaWriteLast, .lastPacket e.args),
   (.rdmaWriteOnly, .onlyPacket e.args),
   (.rdmaWriteLastImmediate, .lastPacketImmediate e.args),
   (.rdmaWriteOnlyImmediate, .onlyPacketImmediate e.args)].map fun (opcode, act) =>
    (fun k => decide (k.srcAddr = e.workerIp) && decide (k.dstAddr = e.switchIp) &&
      decide (k.partitionKey = e.switchPartitionKey) && decide (k.opcode = opcode) &&
      KeyField.masked e.qpnTopBits 0xff0000 k.dstQp, act)

/-- `receive_roce` with the entries of a list of workers. -/
def receiveRoceEntries (workers : List ReceiveEntry) : Table ReceiveKey ReceiveAction :=
  workers.flatMap addEntry

-- ---------------------------------------------------------------------------
-- The control
-- ---------------------------------------------------------------------------

/-- `QP_INDEX`: `dst_qp[20:16] ++ dst_qp[8:0]`. -/
def qpIndex (dstQp : BitVec 24) : QueuePairIndex :=
  dstQp.extractLsb' 16 5 ++ dstQp.extractLsb' 0 9

/-- `set_bitmap`: the fields all receive actions set. -/
def setBitmap (args : ReceiveArgs) (rp : RocePacket) (st : PassState) : PassState :=
  { st with
    workerBitmap := args.workerBitmap
    md := { st.md with
      numWorkers := args.numWorkers
      mgid := args.mgid
      workerType := args.workerType
      workerId := args.workerId
      packetSize := args.packetSize
      recircPortSelector := qpIndex rp.dstQp }
    rdmaMd := { st.rdmaMd with addr := rp.reth.addr, len := rp.reth.len.setWidth 24 } }

def copyImmediateToExponent (rp : RocePacket) (st : PassState) : PassState :=
  { st with exponents := ⟨rp.immediate.extractLsb' 24 8, rp.immediate.extractLsb' 16 8⟩ }

/-- The sequence number actions of a queue pair, and what the receive actions do
with their result: `drop` for the ones that reject packets out of sequence. -/
def assignPoolIndex (action : ReceiverData → ReceiverData × BitVec 32) (rejects : Bool)
    (rp : RocePacket) (regs : Registers) (st : PassState) : Registers × PassState :=
  let (value, result) := action (regs.receiverData (qpIndex rp.dstQp))
  ({ regs with receiverData := Function.update regs.receiverData (qpIndex rp.dstQp) value },
    { st with
      dropCtl := if rejects then result.getLsbD 31 else st.dropCtl
      md := { st.md with poolIndex := result.extractLsb' 0 15 }
      -- a sequence violation is also copied to the CPU
      copyToCpu := st.copyToCpu || result.getLsbD 31 })

def messageFlags (first last : Bool) (st : PassState) : PassState :=
  { st with
    md := { st.md with firstPacketOfMessage := first, lastPacketOfMessage := last } }

def middlePacket (args : ReceiveArgs) (rp : RocePacket) (regs : Registers) (st : PassState) :
    Registers × PassState :=
  assignPoolIndex (receiverIncrementAction rp.psn) true rp regs
    (messageFlags false false (setBitmap args rp st))

def lastPacket (args : ReceiveArgs) (rp : RocePacket) (regs : Registers) (st : PassState) :
    Registers × PassState :=
  assignPoolIndex (receiverIncrementAction rp.psn) true rp regs
    (messageFlags false true (setBitmap args rp st))

def firstPacket (args : ReceiveArgs) (rp : RocePacket) (regs : Registers) (st : PassState) :
    Registers × PassState :=
  assignPoolIndex (receiverResetAction rp.psn rp.reth.rKey) false rp regs
    (messageFlags true false (setBitmap args rp st))

def onlyPacket (args : ReceiveArgs) (rp : RocePacket) (regs : Registers) (st : PassState) :
    Registers × PassState :=
  assignPoolIndex (receiverResetAction rp.psn rp.reth.rKey) false rp regs
    (messageFlags true true (setBitmap args rp st))

def ReceiveAction.run (rp : RocePacket) (regs : Registers) (st : PassState) :
    ReceiveAction → Registers × PassState
  | .onlyPacket args => SwitchML.onlyPacket args rp regs st
  | .onlyPacketImmediate args =>
    SwitchML.onlyPacket args rp regs (copyImmediateToExponent rp st)
  | .firstPacket args => SwitchML.firstPacket args rp regs st
  | .middlePacket args => SwitchML.middlePacket args rp regs st
  | .lastPacket args => SwitchML.lastPacket args rp regs st
  | .lastPacketImmediate args =>
    SwitchML.lastPacket args rp regs (copyImmediateToExponent rp st)
  | .forward => (regs, { st with md := { st.md with packetType := .ignore } })

/-- The key `receive_roce` matches on. -/
def receiveKey (rp : RocePacket) : ReceiveKey :=
  ⟨rp.srcAddr, rp.dstAddr, rp.partitionKey, rp.opcode, rp.dstQp⟩

/-- Find the slot of a RoCE packet, or reject it. -/
def rdmaReceiver (workers : List ReceiveEntry) (rp : RocePacket) (regs : Registers)
    (st : PassState) : Registers × PassState :=
  (lookup .forward (receiveKey rp) (receiveRoceEntries workers)).run rp regs st

/-- The pool index the receive stage gives a packet, none if it rejects or does not
know it. -/
def receivedPoolIndex (workers : List ReceiveEntry) (rp : RocePacket) (regs : Registers) :
    Option PoolIndex :=
  let st := (rdmaReceiver workers rp regs
    { md := { packetType := .consume 0 }, ingressPort := 0 }).2
  if st.dropCtl = true ∨ st.md.packetType = .ignore then none else some st.md.poolIndex

end SwitchML
