import Mathlib.Data.BitVec
import Mathlib.Logic.Function.Basic

/-!
# SwitchML switch — types, headers and registers

The data the switch program works on: the enumerations and metadata of
`types.p4`, the header fields of `headers.p4` that the RoCE path reads, and the
register arrays of one pipe.

Widths are the program's own (`BitVec`). A 128-byte data header is a vector of
32 words, and the payload of a packet is its list of such slices: the parser
extracts whole slices from the front and the deparser puts them back there. The
ICRC behind the last slice is never parsed and is left out, as are the
header fields that no modelled control reads.
-/

namespace SwitchML

-- ---------------------------------------------------------------------------
-- Scalar types
-- ---------------------------------------------------------------------------

/-- `pool_index_t`: a slot and, in its lowest bit, one of its two sets. -/
abbrev PoolIndex := BitVec 15
/-- `pool_index_by2_t`: the slot, for registers that hold both sets. -/
abbrev SlotIndex := BitVec 14
abbrev PortId := BitVec 9
abbrev MulticastGroupId := BitVec 16
abbrev WorkerId := BitVec 16
abbrev WorkerBitmap := BitVec 32
abbrev NumWorkers := BitVec 8
abbrev Significand := BitVec 32
abbrev Exponent8 := BitVec 8
abbrev QueuePairIndex := BitVec 14
abbrev DropProbability := BitVec 16

/-- `data_h`: the 32 words of one 128-byte slice. -/
abbrev Data := Fin 32 → Significand

/-- Size of the arrays indexed by pool index (`configuration.p4`). -/
def registerSize : Nat := 16384

/-- Size of the arrays indexed by slot. -/
def numSlots : Nat := registerSize / 2

def maxNumWorkers : Nat := 32

/-- `null_level1_exclusion_id`: no node of a multicast group has it. -/
def nullLevel1ExclusionId : BitVec 16 := 0xffff

namespace PoolIndex

/-- `pool_index[14:1]`. -/
def slot (p : PoolIndex) : SlotIndex := p.extractLsb' 1 14

/-- The lowest bit of the pool index: which of the slot's sets is used. -/
def set (p : PoolIndex) : Bool := p.getLsbD 0

/-- The pool index of a slot and a set. -/
def mk (slot : SlotIndex) (set : Bool) : PoolIndex := slot ++ BitVec.ofBool set

end PoolIndex

/-- Saturating addition, `|+|` on `bit<w>`. -/
def satAdd {w : Nat} (a b : BitVec w) : BitVec w :=
  if 2 ^ w ≤ a.toNat + b.toNat then BitVec.allOnes w else a + b

-- ---------------------------------------------------------------------------
-- Enumerations
-- ---------------------------------------------------------------------------

inductive WorkerType where
  | forwardOnly | switchmlUdp | roceV2
deriving DecidableEq, Repr

/-- `packet_size_t`, named by the RDMA MTU. -/
inductive PacketSize where
  | mtu128 | mtu256 | mtu512 | mtu1024
deriving DecidableEq, Repr

-- The passes are numbered in `Fin 4` and `Fin 8`; every module's numerals use these proofs.
instance consumePasses : NeZero 4 := ⟨by decide⟩

instance harvestPasses : NeZero 8 := ⟨by decide⟩

/-- `packet_type_t`. `consume i` and `harvest j` are the program's `CONSUME0`..`3`
and `HARVEST0`..`7`. -/
inductive PacketType where
  | mirror | broadcast | retransmit | ignore
  | consume (pass : Fin 4)
  | harvest (pass : Fin 8)
deriving DecidableEq, Repr

/-- `packet_type_underlying_t`, the numbers the program compares. -/
def PacketType.code : PacketType → Nat
  | .mirror => 0
  | .broadcast => 1
  | .retransmit => 2
  | .ignore => 3
  | .consume i => 4 + i
  | .harvest j => 8 + j

/-- The UC opcodes of `ib_opcode_t`. -/
inductive IbOpcode where
  | sendFirst | sendMiddle | sendLast | sendLastImmediate | sendOnly | sendOnlyImmediate
  | rdmaWriteFirst | rdmaWriteMiddle | rdmaWriteLast | rdmaWriteLastImmediate
  | rdmaWriteOnly | rdmaWriteOnlyImmediate
deriving DecidableEq, Repr

-- ---------------------------------------------------------------------------
-- Bridged metadata
-- ---------------------------------------------------------------------------

/-- `switchml_md_h`: the metadata that travels with a packet from pass to pass. -/
structure SwitchmlMd where
  mgid : MulticastGroupId := 0
  workerId : WorkerId := 0
  poolIndex : PoolIndex := 0
  recircPortSelector : QueuePairIndex := 0
  numWorkers : NumWorkers := 0
  packetSize : PacketSize := .mtu128
  workerType : WorkerType := .forwardOnly
  packetType : PacketType := .mirror
  simulateEgressDrop : Bool := false
  ingressPort : PortId := 0
  debugPacketId : BitVec 19 := 0
  ibSolicited : Bool := false
  firstPacketOfMessage : Bool := false
  lastPacketOfMessage : Bool := false
  firstFlag : Bool := false
  lastFlag : Bool := false
  mapResultNonzero : Bool := false
  bitmapBeforeNonzero : Bool := false
deriving DecidableEq, Repr

/-- `switchml_rdma_md_h`. -/
structure SwitchmlRdmaMd where
  psn : BitVec 24 := 0
  len : BitVec 24 := 0
  addr : BitVec 64 := 0
deriving DecidableEq, Repr

/-- `switchml_exponents_md_h`. -/
structure ExponentsMd where
  e0 : Exponent8 := 0
  e1 : Exponent8 := 0
deriving DecidableEq, Repr

/-- A SwitchML packet between two passes, as the deparser leaves it on a port. -/
structure Packet where
  md : SwitchmlMd
  rdmaMd : SwitchmlRdmaMd
  exponents : ExponentsMd
  payload : List Data

-- ---------------------------------------------------------------------------
-- RoCE packets on the wire
-- ---------------------------------------------------------------------------

/-- `ib_reth_h`; present in the first packet of a message. -/
structure IbReth where
  addr : BitVec 64 := 0
  rKey : BitVec 32 := 0
  len : BitVec 32 := 0
deriving DecidableEq, Repr

/-- A RoCEv2 packet as it arrives at a front-panel port: the header fields the
receive stage reads, and the payload as slices. A field of a header that the
opcode does not carry reads as zero. -/
structure RocePacket where
  srcAddr : BitVec 32 := 0
  dstAddr : BitVec 32 := 0
  partitionKey : BitVec 16 := 0xffff
  opcode : IbOpcode
  se : Bool := false
  dstQp : BitVec 24
  psn : BitVec 24
  reth : IbReth := {}
  immediate : BitVec 32 := 0
  payload : List Data

-- ---------------------------------------------------------------------------
-- Registers of one pipe
-- ---------------------------------------------------------------------------

/-- `worker_bitmap_pair_t`: the bitmap of each set. -/
structure WorkerBitmapPair where
  first : WorkerBitmap := 0
  second : WorkerBitmap := 0
deriving DecidableEq, Repr

/-- `significand_pair_t`: the same word of a packet's first and second slice. -/
structure SignificandPair where
  first : Significand := 0
  second : Significand := 0
deriving DecidableEq, Repr

/-- `exponent8_pair_t`. -/
structure Exponent8Pair where
  first : Exponent8 := 0
  second : Exponent8 := 0
deriving DecidableEq, Repr

/-- `receiver_data_t` of the RDMA receiver. -/
structure ReceiverData where
  nextSequenceNumber : BitVec 32 := 0
  poolIndex : BitVec 32 := 0
deriving DecidableEq, Repr

/-- The register arrays of one pipe. `significands i` belongs to the instance
`sum<i>` of `SignificandSum`; of `num_workers_pair_t` only `first` is ever used. -/
structure Registers where
  workerBitmap : SlotIndex → WorkerBitmapPair := fun _ => {}
  workerCount : PoolIndex → NumWorkers := fun _ => 0
  exponents : PoolIndex → Exponent8Pair := fun _ => {}
  significands : Fin 32 → PoolIndex → SignificandPair := fun _ _ => {}
  receiverData : QueuePairIndex → ReceiverData := fun _ => {}
  psn : QueuePairIndex → BitVec 32 := fun _ => 0
  packetId : BitVec 32 := 0

-- ---------------------------------------------------------------------------
-- A packet inside one pass
-- ---------------------------------------------------------------------------

/-- A packet inside one ingress pass: `ig_md`, the data headers with their
validity, the unparsed payload, and the intrinsic metadata the pass reads or
sets. The defaults are those of the parser's `start` state. -/
structure PassState where
  md : SwitchmlMd
  rdmaMd : SwitchmlRdmaMd := {}
  exponents : ExponentsMd := {}
  workerBitmap : WorkerBitmap := 0
  workerBitmapBefore : WorkerBitmap := 0
  -- neither first (0) nor last (1)
  firstLastFlag : NumWorkers := 0xff
  mapResult : WorkerBitmap := 0
  ingressDropProbability : DropProbability := 0
  egressDropProbability : DropProbability := 0
  d0 : Data := fun _ => 0
  d1 : Data := fun _ => 0
  d0Valid : Bool := false
  d1Valid : Bool := false
  payload : List Data := []
  ingressPort : PortId
  dropCtl : Bool := false
  ucastEgressPort : Option PortId := none
  mcastGrpA : Option MulticastGroupId := none
  level1ExclusionId : BitVec 16 := 0
  bypassEgress : Bool := false
  copyToCpu : Bool := false

/-! ## Pool indices -/

namespace PoolIndex

@[simp] theorem slot_mk (slot : SlotIndex) (set : Bool) : (mk slot set).slot = slot := by
  apply BitVec.eq_of_getLsbD_eq
  intro i hi
  simp only [PoolIndex.slot, mk, BitVec.getLsbD_extractLsb', BitVec.getLsbD_append]
  simp [hi]

@[simp] theorem set_mk (slot : SlotIndex) (set : Bool) : (mk slot set).set = set := by
  simp only [PoolIndex.set, mk, BitVec.getLsbD_append]
  simp

theorem mk_slot_set (p : PoolIndex) : mk p.slot p.set = p := by
  apply BitVec.eq_of_getLsbD_eq
  intro i hi
  simp only [PoolIndex.slot, PoolIndex.set, mk, BitVec.getLsbD_append,
    BitVec.getLsbD_extractLsb']
  rcases Nat.eq_zero_or_pos i with rfl | hpos
  · simp
  · have h1 : ¬ i < 1 := by omega
    have h2 : i - 1 < 14 := by omega
    have h3 : 1 + (i - 1) = i := by omega
    simp [h1, h2, h3]

theorem mk_inj {slot slot' : SlotIndex} {set set' : Bool} :
    mk slot set = mk slot' set' ↔ slot = slot' ∧ set = set' := by
  constructor
  · intro h
    exact ⟨by simpa using congrArg PoolIndex.slot h, by simpa using congrArg PoolIndex.set h⟩
  · rintro ⟨rfl, rfl⟩
    rfl

end PoolIndex

end SwitchML
