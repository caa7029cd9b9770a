import Mathlib.Order.Nat
import Mathlib.Data.Nat.Nth
import SwitchML.Control.Connect
import SwitchML.Protocol.Once
import SwitchML.Protocol.Receiving

/-!
# SwitchML protocol — messages of varying sizes

All workers of a job send the same sequence of messages, each on one queue pair, and the
next message only after the reply to the one before. Packet `j` of every message goes to
slot `j` of the queue pair; a message with fewer packets leaves the last slots out. The set
changes with every message, as `post_next_send_wr` flips the lowest bit of the rkey.

Seen from one slot this is the slot machine, with the messages that have a packet for it as
its chunks, if two such messages in a row use different sets (`SetsAlternate`).

* `streamStep`, `streamRun` — the machine;
* `project` — what a slot sees of a state;
* `chunk_set` — the chunks of a slot use its sets in turn.
-/

namespace SwitchML

open scoped BigOperators

-- ---------------------------------------------------------------------------
-- Streams
-- ---------------------------------------------------------------------------

/-- The messages that all workers of a job send on their queue pairs with the same number.
Packet 0 of a message goes to the slot of the job. -/
structure Stream where
  job : Job
  -- the most packets a message may have
  ratio : ℕ
  fits : job.slot.toNat + ratio ≤ numSlots
  -- the number of packets of a message
  sizes : ℕ → ℕ
  sizes_pos : ∀ k, 0 < sizes k
  sizes_le : ∀ k, sizes k ≤ ratio
  -- the number of the queue pairs
  queue : ℕ
  queue_lt : queue < 2 ^ 16
  firstPsn : Fin job.n → BitVec 24
  -- what a worker sends as packet `j` of message `k`
  data : Fin job.n → ℕ → ℕ → List Data
  data_length : ∀ w k j, (data w k j).length = job.slices

namespace Stream

variable (x : Stream)

def slot (j : ℕ) : SlotIndex := x.job.slot + BitVec.ofNat 14 j

/-- The pool index of packet `j` of message `k`: the set changes with every message. -/
def pool (k j : ℕ) : PoolIndex := PoolIndex.mk (x.slot j) (x.job.set k)

def dstQp (w : Fin x.job.n) : BitVec 24 := BitVec.ofNat 24 (switchQpn w x.queue)

/-- The registers of a worker's queue pair. -/
def qp (w : Fin x.job.n) : QueuePairIndex := qpIndex (x.dstQp w)

/-- The sequence number of packet `j` of message `k`. -/
def psn (w : Fin x.job.n) (k j : ℕ) : BitVec 24 :=
  x.firstPsn w + BitVec.ofNat 24 (∑ i ∈ Finset.range k, x.sizes i + j)

/-- The RoCE packet is packet `j` of message `k`. -/
def sends (w : Fin x.job.n) (k j : ℕ) (rp : RocePacket) : Bool :=
  decide (j < x.sizes k) && (x.job.receiveEntry w).matchesPacket rp && rp.opcode.isRdmaWrite &&
  decide (rp.dstQp = x.dstQp w) &&
  decide (rp.opcode.isFirst = decide (j = 0)) &&
  decide (rp.opcode.isLast = decide (j + 1 = x.sizes k)) &&
  decide (rp.psn = x.psn w k j) &&
  (decide (j ≠ 0) || decide (rp.reth.rKey = (x.job.pool k).setWidth 32)) &&
  decide (rp.payload = x.data w k j)

/-- The packet of message `k` that a pool index belongs to. -/
def packetOf (k : ℕ) (p : PoolIndex) : Option ℕ :=
  (List.range (x.sizes k)).find? fun j => decide (p = x.pool k j)

/-- The sums of the words of the workers' packets `j` of message `k`. -/
def sum (k j : ℕ) : List Data :=
  (List.range x.job.slices).map fun i l => ∑ w, (x.data w k j).getD i (fun _ => 0) l

/-- Two messages in a row that have a packet for a slot use different sets of it. -/
def SetsAlternate : Prop :=
  ∀ j k k', k < k' → j < x.sizes k → j < x.sizes k' → (∀ i, k < i → i < k' → x.sizes i ≤ j) →
    (k' - k) % 2 = 1

/-- The slots of the stream are fresh: nobody is in, and nobody is counted. -/
structure Fresh (regs : Fin 4 → Registers) : Prop where
  bitmap : ∀ i : Fin 4, i.val < x.job.pipes → ∀ j < x.ratio, ∀ σ,
    (regs i).bitmap (PoolIndex.mk (x.slot j) σ) = 0
  workerCount : ∀ i : Fin 4, i.val < x.job.pipes → ∀ j < x.ratio, ∀ σ,
    (regs i).workerCount (PoolIndex.mk (x.slot j) σ) = 0

/-- The register of a worker's queue pair lets in no packet of a message before its first:
it is in its error state, or it expects none of their sequence numbers. -/
def Quiet (w : Fin x.job.n) (k : ℕ) (data : ReceiverData) : Prop :=
  data.poolIndex.getLsbD 31 = true ∨
    ∀ j, 0 < j → j < x.sizes k → data.nextSequenceNumber ≠ (x.psn w k j).setWidth 32

/-- What an earlier job has left in the registers of the queue pairs lets in no packet of the
first message before its first. -/
def SafeStart (regs : Fin 4 → Registers) : Prop :=
  ∀ w, x.Quiet w 0 ((regs 0).receiverData (x.qp w))

end Stream

-- ---------------------------------------------------------------------------
-- The machine
-- ---------------------------------------------------------------------------

/-- Packets, flights and events come with the packet of a message whose slot they are about;
the chunk of a tag is the message. -/
structure StreamState (n : ℕ) where
  regs : Fin 4 → Registers
  -- the message a worker is at, the number of its packets that were sent, and whether a
  -- packet of it was answered
  pos : Fin n → ℕ := fun _ => 0
  sent : Fin n → ℕ := fun _ => 0
  answered : Fin n → ℕ → Bool := fun _ _ => false
  uplink : Fin n → List (ℕ × ℕ × RocePacket) := fun _ => []
  recirc : List (ℕ × Flight n) := []
  downlink : Fin n → List (ℕ × ℕ × Packet) := fun _ => []
  log : List (ℕ × Event n) := []
  nextId : ℕ → ℕ := fun _ => 0

inductive StreamLabel (n : ℕ) where
  -- a worker sends the next packet of its message
  | send (w : Fin n) (rp : RocePacket)
  -- a worker goes on to the next message
  | next (w : Fin n)
  | loseUp (w : Fin n) (i : ℕ)
  | loseDown (w : Fin n) (i : ℕ)
  | arrive (w : Fin n)
  | recirculate (i : ℕ)
  | deliver (w : Fin n)
  -- passes of packets of other queue pairs and slots
  | otherArrival (port : PortId) (rp : RocePacket)
  | otherRecirculation (port : PortId) (pkt : Packet)

/-- A pass ends: log it and put the packet where it goes. -/
def StreamState.emit {n : ℕ} (s : StreamState n) (j id : ℕ) (tag : Tag n) (ty : PacketType)
    (out : Emission) : StreamState n :=
  let s := { s with log := s.log ++ [(j, ⟨id, tag, ty, out⟩)] }
  match out with
  | .recirculated port pkt => { s with recirc := s.recirc ++ [(j, ⟨id, tag, port, pkt⟩)] }
  | .multicast _ pkt => { s with downlink := fun w => s.downlink w ++ [(j, tag.chunk, pkt)] }
  | .unicast _ pkt =>
    { s with
      downlink := fun w =>
        if BitVec.ofNat 16 w = pkt.md.workerId then s.downlink w ++ [(j, tag.chunk, pkt)]
        else s.downlink w }
  | .dropped | .forwarded => s

namespace Stream

variable (x : Stream)

/-- The registers of the stream's queue pairs. -/
def usesQp (qp : QueuePairIndex) : Bool :=
  (List.finRange x.job.n).any fun w => decide (qp = x.qp w)

/-- A slot of the stream. -/
def usesSlot (slot : SlotIndex) : Bool :=
  (List.range x.ratio).any fun j => decide (slot = x.slot j)

/-- The next packet of worker `w`'s uplink makes its first pass. A packet that the receive
stage rejects is lost. -/
def arriveStep (s : StreamState x.job.n) (w : Fin x.job.n) : StreamState x.job.n :=
  match s.uplink w with
  | [] => s
  | (j, k, rp) :: rest =>
    let pass := receiveRoce x.job.config {} (x.job.port w) rp (s.regs 0)
    let s' : StreamState x.job.n := { s with
      uplink := Function.update s.uplink w rest, regs := Function.update s.regs 0 pass.1 }
    match receivedPoolIndex x.job.config.workers rp (s.regs 0) with
    | none => s'
    | some _ =>
      { s' with nextId := Function.update s.nextId j (s.nextId j + 1) }.emit j (s.nextId j)
        ⟨w, k, rp⟩ (.consume 0) pass.2

/-- The packet at position `i` of the recirculation ports makes its next pass. -/
def recirculateStep (s : StreamState x.job.n) (i : ℕ) : StreamState x.job.n :=
  match s.recirc[i]? with
  | none => s
  | some (j, f) =>
    let pipe := pipeOf f.port
    let pass := recirculate x.job.config f.port f.pkt (s.regs pipe)
    { s with
      recirc := s.recirc.eraseIdx i, regs := Function.update s.regs pipe pass.1 }.emit
      j f.id f.tag f.pkt.md.packetType pass.2

/-- A worker takes a reply to a packet of the message it is at. -/
def deliverStep (s : StreamState x.job.n) (w : Fin x.job.n) : StreamState x.job.n :=
  match s.downlink w with
  | [] => s
  | (_, _, pkt) :: rest =>
    let s := { s with downlink := Function.update s.downlink w rest }
    match x.packetOf (s.pos w) pkt.md.poolIndex with
    | none => s
    | some j =>
      { s with answered := Function.update s.answered w (Function.update (s.answered w) j true) }

variable (lossy : Bool)

/-- One step of the machine. A worker goes on when all packets of its message are
answered. -/
def streamStep (s : StreamState x.job.n) : StreamLabel x.job.n → StreamState x.job.n
  | .send w rp =>
    if x.sends w (s.pos w) (s.sent w) rp then
      { s with
        uplink := Function.update s.uplink w (s.uplink w ++ [(s.sent w, s.pos w, rp)])
        sent := Function.update s.sent w (s.sent w + 1) }
    else s
  | .next w =>
    if (List.range (x.sizes (s.pos w))).all (s.answered w) then
      { s with
        pos := Function.update s.pos w (s.pos w + 1)
        sent := Function.update s.sent w 0
        answered := Function.update s.answered w fun _ => false }
    else s
  | .loseUp w i =>
    if lossy then
      { s with uplink := Function.update s.uplink w ((s.uplink w).eraseIdx i) } else s
  | .loseDown w i =>
    if lossy then
      { s with downlink := Function.update s.downlink w ((s.downlink w).eraseIdx i) } else s
  | .arrive w => x.arriveStep s w
  | .recirculate i => x.recirculateStep s i
  | .deliver w => x.deliverStep s w
  | .otherArrival port rp =>
    let pipe := pipeOf port
    if x.usesQp (qpIndex rp.dstQp) ||
      (receivedPoolIndex x.job.config.workers rp (s.regs pipe)).any fun p => x.usesSlot p.slot
    then s
    else { s with
      regs := Function.update s.regs pipe
        (receiveRoce x.job.config {} port rp (s.regs pipe)).1 }
  | .otherRecirculation port pkt =>
    let pipe := pipeOf port
    if x.usesSlot pkt.md.poolIndex.slot then s
    else { s with
      regs := Function.update s.regs pipe (recirculate x.job.config port pkt (s.regs pipe)).1 }

/-- The state after a list of steps. -/
def streamRun (s : StreamState x.job.n) (labels : List (StreamLabel x.job.n)) :
    StreamState x.job.n :=
  labels.foldl (x.streamStep lossy) s

end Stream

/-- Nothing was sent yet. -/
def StreamState.initial {n : ℕ} (regs : Fin 4 → Registers) : StreamState n := { regs }

namespace StreamState

variable {n : ℕ} (s : StreamState n) (j id : ℕ) (tag : Tag n) (ty : PacketType) (out : Emission)

@[simp] theorem emit_log : (s.emit j id tag ty out).log = s.log ++ [(j, ⟨id, tag, ty, out⟩)] := by
  cases out <;> rfl

@[simp] theorem emit_regs : (s.emit j id tag ty out).regs = s.regs := by
  cases out <;> rfl

/-- A pass is nothing to the workers. -/
theorem emit_workers :
    (s.emit j id tag ty out).pos = s.pos ∧ (s.emit j id tag ty out).sent = s.sent ∧
      (s.emit j id tag ty out).answered = s.answered ∧
      (s.emit j id tag ty out).uplink = s.uplink := by
  cases out <;> exact ⟨rfl, rfl, rfl, rfl⟩

end StreamState

-- ---------------------------------------------------------------------------
-- Slots
-- ---------------------------------------------------------------------------

theorem Job.set_odd {job : Job} {k k' : ℕ} (hLt : k < k')
    (hOdd : (k' - k) % 2 = 1) : job.set k' = !job.set k := by
  unfold Job.set
  rcases Nat.mod_two_eq_zero_or_one k with h | h
  · simp [h, show k' % 2 = 1 by omega]
  · simp [h, show k' % 2 = 0 by omega]

namespace Stream

variable (x : Stream)

theorem slot_toNat {j : ℕ} (hj : j < x.ratio) : (x.slot j).toNat = x.job.slot.toNat + j := by
  have hFits := x.fits
  have hSlots : numSlots = 8192 := rfl
  unfold slot
  rw [BitVec.toNat_add, BitVec.toNat_ofNat]
  omega

variable {x}

theorem slot_inj {j j' : ℕ} (hj : j < x.ratio) (hj' : j' < x.ratio) (h : x.slot j = x.slot j') :
    j = j' := by
  have hNat := congrArg BitVec.toNat h
  rw [x.slot_toNat hj, x.slot_toNat hj'] at hNat
  omega

theorem lt_ratio {k j : ℕ} (hj : j < x.sizes k) : j < x.ratio := hj.trans_le (x.sizes_le k)

theorem packetOf_eq_some {k j : ℕ} {p : PoolIndex} (h : x.packetOf k p = some j) :
    j < x.sizes k ∧ p = x.pool k j :=
  ⟨List.mem_range.mp (List.mem_of_find?_eq_some h), of_decide_eq_true (List.find?_some h :)⟩

theorem qp_injective : Function.Injective x.qp := fun w w' h =>
  Fin.ext (qpIndex_switchQpn_inj (w.isLt.trans_le x.job.n_le_32) (w'.isLt.trans_le x.job.n_le_32)
    x.queue_lt h)

theorem ne_of_usesSlot {slot : SlotIndex} (h : ¬ x.usesSlot slot = true) {j : ℕ}
    (hj : j < x.ratio) : slot ≠ x.slot j := by
  intro hEq
  rw [usesSlot, List.any_eq_true] at h
  exact h ⟨j, List.mem_range.mpr hj, decide_eq_true hEq⟩

theorem ne_of_usesQp {qp : QueuePairIndex} (h : ¬ x.usesQp qp = true) (w : Fin x.job.n) :
    qp ≠ x.qp w := by
  intro hEq
  rw [usesQp, List.any_eq_true] at h
  exact h ⟨w, List.mem_finRange w, decide_eq_true hEq⟩

-- ---------------------------------------------------------------------------
-- Chunks
-- ---------------------------------------------------------------------------

variable (x)

/-- The message has a packet for slot `j`. -/
abbrev Uses (j k : ℕ) : Prop := j < x.sizes k

/-- The chunk that message `k` is for slot `j`: the number of messages before it that use
the slot. -/
def chunk (j k : ℕ) : ℕ := Nat.count (x.Uses j) k

/-- The job as seen from the slot of packet `j`. -/
noncomputable abbrev slotJob (j : Fin x.ratio) : Job :=
  { x.job with
    slot := x.slot j
    slot_lt := by
      have hFits := x.fits
      have hj := j.isLt
      rw [x.slot_toNat hj]
      omega
    firstSet := x.job.set (Nat.nth (x.Uses j) 0)
    last := fun c => decide (j + 1 = x.sizes (Nat.nth (x.Uses j) c)) }

variable {x}

theorem chunk_succ (j k : ℕ) :
    x.chunk j (k + 1) = x.chunk j k + (decide (j < x.sizes k)).toNat := by
  unfold chunk
  rw [Nat.count_succ]
  by_cases h : j < x.sizes k <;> simp [Uses, h]

theorem chunk_inj {j k k' : ℕ} (hk : j < x.sizes k) (hk' : j < x.sizes k')
    (h : x.chunk j k = x.chunk j k') : k = k' :=
  Nat.count_injective hk hk' h

theorem nth_chunk {j k : ℕ} (hk : j < x.sizes k) : Nat.nth (x.Uses j) (x.chunk j k) = k :=
  Nat.nth_count hk

/-- The message before that used the slot. -/
theorem exists_previous {j k : ℕ} (h : 0 < x.chunk j k) :
    ∃ k' < k, j < x.sizes k' ∧ (∀ i, k' < i → i < k → x.sizes i ≤ j) ∧
      x.chunk j k = x.chunk j k' + 1 := by
  induction k with
  | zero => exact absurd h (by simp [chunk])
  | succ k ih =>
    by_cases hk : j < x.sizes k
    · refine ⟨k, Nat.lt_succ_self k, hk, fun i hi hi' => absurd hi' (by omega), ?_⟩
      rw [chunk_succ, decide_eq_true hk]
      rfl
    · have hChunk : x.chunk j (k + 1) = x.chunk j k := by
        rw [chunk_succ, decide_eq_false hk]
        rfl
      obtain ⟨k', hLt, hUses, hSkip, hCount⟩ := ih (hChunk ▸ h)
      refine ⟨k', hLt.trans (Nat.lt_succ_self k), hUses, fun i hi hi' => ?_, hChunk ▸ hCount⟩
      rcases Nat.lt_succ_iff_lt_or_eq.mp hi' with hi' | rfl
      · exact hSkip i hi hi'
      · exact Nat.not_lt.mp hk

/-- **Chunks use the sets of a slot in turn.** -/
theorem chunk_set (hSets : x.SetsAlternate) (j : Fin x.ratio) {k : ℕ} (hk : j < x.sizes k) :
    (x.slotJob j).set (x.chunk j k) = x.job.set k := by
  induction k using Nat.strong_induction_on with
  | _ k ih =>
    rcases Nat.eq_zero_or_pos (x.chunk j k) with hZero | hPos
    · have hFirst : Nat.nth (x.Uses j) 0 = k := by rw [← hZero, nth_chunk hk]
      rw [hZero]
      simp [Job.set, hFirst]
    · obtain ⟨k', hLt, hUses, hSkip, hCount⟩ := exists_previous hPos
      have hOdd := hSets j k' k hLt hUses hk hSkip
      rw [hCount, Job.set_odd (Nat.lt_succ_self _) (by simp), ih k' hLt hUses,
        Job.set_odd hLt hOdd]

theorem chunk_pool (hSets : x.SetsAlternate) (j : Fin x.ratio) {k : ℕ} (hk : j < x.sizes k) :
    (x.slotJob j).pool (x.chunk j k) = x.pool k j := by
  rw [Job.pool, chunk_set hSets j hk]
  rfl

end Stream

-- ---------------------------------------------------------------------------
-- What a slot sees
-- ---------------------------------------------------------------------------

/-- The entries for packet `j`. -/
def pick {α β : Type} (f : α → β) (j : ℕ) (l : List (ℕ × α)) : List β :=
  l.filterMap fun x => if x.1 = j then some (f x.2) else none

section Pick

variable {α β : Type} (f : α → β) (j : ℕ)

@[simp] theorem pick_nil : pick f j [] = [] := rfl

@[simp] theorem pick_append (l l' : List (ℕ × α)) :
    pick f j (l ++ l') = pick f j l ++ pick f j l' := List.filterMap_append

variable {j}

@[simp] theorem pick_cons_self (a : α) (l : List (ℕ × α)) :
    pick f j ((j, a) :: l) = f a :: pick f j l := by
  simp [pick]

@[simp] theorem pick_cons_of_ne {i : ℕ} (h : i ≠ j) (a : α) (l : List (ℕ × α)) :
    pick f j ((i, a) :: l) = pick f j l := by
  simp [pick, h]

theorem pick_sublist {l l' : List (ℕ × α)} (h : l.Sublist l') :
    (pick f j l).Sublist (pick f j l') := h.filterMap _

variable {f}

theorem mem_pick {l : List (ℕ × α)} {b : β} : b ∈ pick f j l ↔ ∃ a, (j, a) ∈ l ∧ f a = b := by
  simp [pick]

theorem pick_update {n : ℕ} (u : Fin n → List (ℕ × α)) (w : Fin n) (l : List (ℕ × α)) :
    (fun w' => pick f j (Function.update u w l w')) =
      Function.update (fun w' => pick f j (u w')) w (pick f j l) := by
  funext w'
  by_cases hw : w' = w
  · subst hw
    simp
  · simp [hw]

end Pick

section InSlot

variable {n : ℕ} (c : ℕ → ℕ)

/-- The tag with the chunk of its message. -/
def Tag.inSlot (tag : Tag n) : Tag n := { tag with chunk := c tag.chunk }

def Flight.inSlot (f : Flight n) : Flight n := { f with tag := f.tag.inSlot c }

def Event.inSlot (e : Event n) : Event n := { e with tag := e.tag.inSlot c }

end InSlot

namespace Stream

variable (x : Stream)

/-- What slot `j` sees of a state. A worker is at the chunk of its message, or past it when
the packet for the slot was answered. -/
def project (j : ℕ) (s : StreamState x.job.n) : SlotState x.job.n where
  regs := s.regs
  pos w := x.chunk j (s.pos w) + (s.answered w j).toNat
  sent w := decide (j < s.sent w) && !s.answered w j
  uplink w := pick (Prod.map (x.chunk j) id) j (s.uplink w)
  recirc := pick (Flight.inSlot (x.chunk j)) j s.recirc
  downlink w := pick (Prod.map (x.chunk j) id) j (s.downlink w)
  log := pick (Event.inSlot (x.chunk j)) j s.log
  nextId := s.nextId j

variable {x} {s : StreamState x.job.n} {j : ℕ}

theorem project_emit_self (id : ℕ) (tag : Tag x.job.n) (ty : PacketType) (out : Emission) :
    x.project j (s.emit j id tag ty out) =
      (x.project j s).emit id (tag.inSlot (x.chunk j)) ty out := by
  cases out with
  | unicast port pkt =>
    simp only [StreamState.emit, SlotState.emit, project, pick_append, pick_cons_self, pick_nil]
    congr 1
    funext w
    split <;> simp [Tag.inSlot]
  | _ =>
    simp only [StreamState.emit, SlotState.emit, project, pick_append, pick_cons_self, pick_nil]
    rfl

theorem project_emit_of_ne {j' : ℕ} (h : j' ≠ j) (id : ℕ) (tag : Tag x.job.n) (ty : PacketType)
    (out : Emission) : x.project j (s.emit j' id tag ty out) = x.project j s := by
  cases out with
  | unicast port pkt =>
    simp only [StreamState.emit, project, pick_append, pick_cons_of_ne _ h, pick_nil,
      List.append_nil]
    congr 1
    funext w
    split <;> simp [h]
  | _ =>
    simp only [StreamState.emit, project, pick_append, pick_cons_of_ne _ h, pick_nil,
      List.append_nil]
    rfl

end Stream

end SwitchML
