import Mathlib.Algebra.BigOperators.Fin
import SwitchML.Switch.Ingress
import SwitchML.Switch.ReceiverSpec

/-!
# SwitchML protocol — the slot machine

The system around one slot of a RoCE job: `n` workers that send chunk after chunk
on the slot's two sets, the links between them and the switch, and the four pipes
with the packets that recirculate between them. The switch makes one ingress pass
at a time (`receiveRoce`, `recirculate`); which packet makes the next pass, what
is lost and what is sent again is up to the label of the step.

A label that is not possible in a state leaves it as it is, so a run is any list of
labels. `Discipline` says which kinds of steps a run may use.

* `slotStep`, `slotRun` — the machine;
* `Event` — the log of passes that statements about runs refer to: who made which
  pass, and where the packet went after it;
* `firstProcessed`, `aggregate` — the packet of a worker's chunk that the switch
  processed first, and the sum of these over all workers.
-/

namespace SwitchML

open scoped BigOperators

-- ---------------------------------------------------------------------------
-- Jobs
-- ---------------------------------------------------------------------------

/-- A RoCE job as seen from one of its slots. -/
structure Job where
  n : ℕ
  n_pos : 0 < n
  n_le : n ≤ maxNumWorkers
  -- 1024-byte packets; else 256-byte packets
  large : Bool
  mgid : MulticastGroupId
  slot : SlotIndex
  slot_lt : slot.toNat < numSlots
  -- the set of chunk 0
  firstSet : Bool
  -- whether a chunk is the last packet of its message
  last : ℕ → Bool
  port : Fin n → PortId
  port_front : ∀ w, pipeOf (port w) = 0 ∧ port w ≠ 64 ∧ port w ≠ 68
  -- several workers may run on one machine
  ip : Fin n → BitVec 32
  switchIp : BitVec 32
  partitionKey : BitVec 16
  alternateRecircPort : Option PortId
  alternate_pipe : ∀ p, alternateRecircPort = some p → pipeOf p = 1
  -- the workers of other jobs
  others : List ReceiveEntry

namespace Job

variable (job : Job)

def packetSize : PacketSize := if job.large then .mtu1024 else .mtu256

/-- The number of pipes a packet is consumed in. -/
def pipes : ℕ := if job.large then 4 else 1

/-- The number of 128-byte slices of a packet. -/
def slices : ℕ := 2 * job.pipes

/-- The set of a chunk: consecutive chunks use different sets. -/
def set (k : ℕ) : Bool := Bool.xor job.firstSet (decide (k % 2 = 1))

/-- The pool index of a chunk. -/
def pool (k : ℕ) : PoolIndex := PoolIndex.mk job.slot (job.set k)

def receiveEntry (w : Fin job.n) : ReceiveEntry where
  workerIp := job.ip w
  switchIp := job.switchIp
  switchPartitionKey := job.partitionKey
  workerRid := BitVec.ofNat 16 w
  args :=
    { mgid := job.mgid
      workerType := .roceV2
      workerId := BitVec.ofNat 16 w
      numWorkers := BitVec.ofNat 8 job.n
      workerBitmap := 1 <<< w.val
      packetSize := job.packetSize }

/-- The configuration of the switch; the drop simulator is off. -/
def config : SwitchConfig where
  workers := (List.finRange job.n).map job.receiveEntry ++ job.others
  alternateRecircPort := job.alternateRecircPort

end Job

/-- What worker `w` may send for chunk `k`: a full packet on one of its queue pairs, at
the chunk's place in a message. The payload is free. -/
def Job.sendable (job : Job) (w : Fin job.n) (k : ℕ) (rp : RocePacket) : Bool :=
  (job.receiveEntry w).matchesPacket rp && rp.opcode.isRdmaWrite &&
  decide (rp.opcode.isLast = job.last k) && decide (rp.payload.length = job.slices)

-- ---------------------------------------------------------------------------
-- States
-- ---------------------------------------------------------------------------

/-- Where a packet in the switch comes from. -/
structure Tag (n : ℕ) where
  worker : Fin n
  chunk : ℕ
  -- the packet as the worker sent it
  sent : RocePacket

/-- A packet on a recirculation port. -/
structure Flight (n : ℕ) where
  id : ℕ
  tag : Tag n
  port : PortId
  pkt : Packet

/-- One pass: which packet made it, as which type, and where it went. -/
structure Event (n : ℕ) where
  id : ℕ
  tag : Tag n
  ty : PacketType
  out : Emission

/-- `recirc` holds the packets on all recirculation ports in the order they got there;
the packets on the links carry the chunk they belong to. -/
structure SlotState (n : ℕ) where
  regs : Fin 4 → Registers
  pos : Fin n → ℕ := fun _ => 0
  sent : Fin n → Bool := fun _ => false
  uplink : Fin n → List (ℕ × RocePacket) := fun _ => []
  recirc : List (Flight n) := []
  downlink : Fin n → List (ℕ × Packet) := fun _ => []
  log : List (Event n) := []
  nextId : ℕ := 0

-- ---------------------------------------------------------------------------
-- Steps
-- ---------------------------------------------------------------------------

/-- The steps of the machine. Packets on links and recirculation ports are addressed by
their position. -/
inductive SlotLabel (n : ℕ) where
  -- a worker sends its current chunk, for the first time or again
  | send (w : Fin n) (rp : RocePacket)
  | resend (w : Fin n) (rp : RocePacket)
  | loseUp (w : Fin n) (i : ℕ)
  | loseDown (w : Fin n) (i : ℕ)
  -- the next packet of a worker's uplink makes its first pass
  | arrive (w : Fin n)
  | recirculate (i : ℕ)
  -- a worker looks at the next packet of its downlink
  | deliver (w : Fin n)
  -- passes of packets of other slots
  | otherArrival (port : PortId) (rp : RocePacket)
  | otherRecirculation (port : PortId) (pkt : Packet)

/-- What a run may do besides first transmissions, passes and deliveries. -/
structure Discipline where
  -- each recirculation port is first in, first out
  fifo : Bool
  -- the links lose packets
  lossy : Bool
  -- workers send their current chunk again
  resends : Bool
  -- workers go on to the next chunk
  advances : Bool

namespace SlotState

variable {n : ℕ}

/-- A pass ends: log it and put the packet where it goes. Copies of a broadcast go to all
workers, a retransmission to the worker it is addressed to. -/
def emit (s : SlotState n) (id : ℕ) (tag : Tag n) (ty : PacketType) (out : Emission) :
    SlotState n :=
  let s := { s with log := s.log ++ [⟨id, tag, ty, out⟩] }
  match out with
  | .recirculated port pkt => { s with recirc := s.recirc ++ [⟨id, tag, port, pkt⟩] }
  | .multicast _ pkt => { s with downlink := fun w => s.downlink w ++ [(tag.chunk, pkt)] }
  | .unicast _ pkt =>
    { s with
      downlink := fun w =>
        if BitVec.ofNat 16 w = pkt.md.workerId then s.downlink w ++ [(tag.chunk, pkt)]
        else s.downlink w }
  | .dropped | .forwarded => s

end SlotState

section Machine

variable (job : Job) (d : Discipline)

/-- The next packet of worker `w`'s uplink makes its first pass. A packet that the receive
stage rejects is lost. The receive stage has to find the slot of the chunk. -/
def arriveStep (s : SlotState job.n) (w : Fin job.n) : SlotState job.n :=
  match s.uplink w with
  | [] => s
  | (k, rp) :: rest =>
    let (regs, out) := receiveRoce job.config {} (job.port w) rp (s.regs 0)
    let s' := { s with
      uplink := Function.update s.uplink w rest, regs := Function.update s.regs 0 regs }
    match receivedPoolIndex job.config.workers rp (s.regs 0) with
    | none => s'
    | some p =>
      if p = job.pool k then
        { s' with nextId := s.nextId + 1 }.emit s.nextId ⟨w, k, rp⟩ (.consume 0) out
      else s

/-- The packet at position `i` of the recirculation ports makes its next pass. -/
def recirculateStep (s : SlotState job.n) (i : ℕ) : SlotState job.n :=
  match s.recirc[i]? with
  | none => s
  | some f =>
    if d.fifo && (s.recirc.take i).any fun g => decide (g.port = f.port) then s
    else
      let pipe := pipeOf f.port
      let (regs, out) := recirculate job.config f.port f.pkt (s.regs pipe)
      { s with
        recirc := s.recirc.eraseIdx i, regs := Function.update s.regs pipe regs }.emit
        f.id f.tag f.pkt.md.packetType out

/-- A worker goes on to the next chunk if the reply has the pool index and the set of the
current one. -/
def deliverStep (s : SlotState job.n) (w : Fin job.n) : SlotState job.n :=
  match s.downlink w with
  | [] => s
  | (_, pkt) :: rest =>
    let s := { s with downlink := Function.update s.downlink w rest }
    if d.advances && decide (pkt.md.poolIndex = job.pool (s.pos w)) then
      { s with
        pos := Function.update s.pos w (s.pos w + 1)
        sent := Function.update s.sent w false }
    else s

/-- One step of the machine. -/
def slotStep (s : SlotState job.n) : SlotLabel job.n → SlotState job.n
  | .send w rp =>
    if !s.sent w && job.sendable w (s.pos w) rp then
      { s with
        uplink := Function.update s.uplink w (s.uplink w ++ [(s.pos w, rp)])
        sent := Function.update s.sent w true }
    else s
  | .resend w rp =>
    if d.resends && s.sent w && job.sendable w (s.pos w) rp then
      { s with uplink := Function.update s.uplink w (s.uplink w ++ [(s.pos w, rp)]) }
    else s
  | .loseUp w i =>
    if d.lossy then
      { s with uplink := Function.update s.uplink w ((s.uplink w).eraseIdx i) } else s
  | .loseDown w i =>
    if d.lossy then
      { s with downlink := Function.update s.downlink w ((s.downlink w).eraseIdx i) } else s
  | .arrive w => arriveStep job s w
  | .recirculate i => recirculateStep job d s i
  | .deliver w => deliverStep job d s w
  | .otherArrival port rp =>
    let pipe := pipeOf port
    match receivedPoolIndex job.config.workers rp (s.regs pipe) with
    | some p =>
      if p.slot = job.slot then s
      else { s with
        regs := Function.update s.regs pipe (receiveRoce job.config {} port rp (s.regs pipe)).1 }
    | none => { s with
        regs := Function.update s.regs pipe (receiveRoce job.config {} port rp (s.regs pipe)).1 }
  | .otherRecirculation port pkt =>
    let pipe := pipeOf port
    if pkt.md.poolIndex.slot = job.slot then s
    else { s with
      regs := Function.update s.regs pipe (recirculate job.config port pkt (s.regs pipe)).1 }

/-- The state after a list of steps. -/
def slotRun (s : SlotState job.n) (labels : List (SlotLabel job.n)) : SlotState job.n :=
  labels.foldl (slotStep job d) s

end Machine

-- ---------------------------------------------------------------------------
-- What the log says
-- ---------------------------------------------------------------------------

namespace Event

variable {n : ℕ}

/-- The event is pass `CONSUME<i>` of a packet of `w` for chunk `k`. -/
def isConsume (i : Fin 4) (w : Fin n) (k : ℕ) (e : Event n) : Bool :=
  decide (e.ty = .consume i) && decide (e.tag.worker = w) && decide (e.tag.chunk = k)

/-- The packet of a broadcast. -/
def broadcast? (e : Event n) : Option Packet :=
  match e.out with
  | .multicast _ pkt => some pkt
  | _ => none

/-- The packet of a retransmission. -/
def retransmit? (e : Event n) : Option Packet :=
  match e.out with
  | .unicast _ pkt => some pkt
  | _ => none

end Event

section Log

variable {n : ℕ}

/-- Pipe `i` has consumed a packet of `w` for chunk `k`. -/
def consumed (log : List (Event n)) (i : Fin 4) (w : Fin n) (k : ℕ) : Bool :=
  log.any (Event.isConsume i w k)

/-- The first packet of `w` for chunk `k` that the switch processed. -/
def firstProcessed (log : List (Event n)) (w : Fin n) (k : ℕ) : Option RocePacket :=
  (log.find? (Event.isConsume 0 w k)).map fun e => e.tag.sent

/-- Slice `j` of that packet. -/
def firstSlice (log : List (Event n)) (w : Fin n) (k j : ℕ) : Data :=
  match firstProcessed log w k with
  | some rp => rp.payload.getD j fun _ => 0
  | none => fun _ => 0

/-- Slice `j` of the aggregate of chunk `k`: the sums of the words of the workers'
packets. -/
def aggregateSlice (log : List (Event n)) (k j : ℕ) : Data :=
  fun x => ∑ w, firstSlice log w k j x

/-- The aggregate of chunk `k`. -/
def aggregate (job : Job) (log : List (Event job.n)) (k : ℕ) : List Data :=
  (List.range job.slices).map (aggregateSlice log k)

end Log

end SwitchML
