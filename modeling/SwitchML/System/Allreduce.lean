import SwitchML.Control.Sender
import SwitchML.Protocol.InPlace

/-!
# SwitchML system — `allreduce_inplace` of a whole cluster

The threads of the client and the slots of the switch in one machine. Every worker has one
thread. What it posts is sent by the network card, from the words of the buffer that the work
request names, to the slot that its key names; what comes back is written to the buffer and uses
up a receive request, and the thread takes the immediate value for the completion of the slot
that the id of the request stands for. Nothing is lost, and no thread runs into a timeout.

Neither side knows of the other: the switch counts the chunks of a slot, the thread moves the
pointers of its slots and flips the set in their keys. They agree all the same, as long as
completions are taken for the right slots. With some numbers of slots one is not
(`Client.recvs_decode_iff`); then the slot it belongs to waits for ever, and the thread with it.

* `SlotAt` — the slot of a thread and the slot of the switch are at the same chunk of the buffer,
  or the reply to the chunk before was missed;
* `InStep.transmit_eq` — what the network card sends is the chunk that the slot of the switch is at;
* `InStep` — what is known of a cluster; `InStep.step` is the step lemma;
* `allreduce_returns` — when the loop of a thread ends, its buffer has the sums.
-/

namespace SwitchML

open scoped BigOperators

open Client (ThreadState SendWr Posted postNextSendWr)

-- ---------------------------------------------------------------------------
-- Clusters
-- ---------------------------------------------------------------------------

/-- A buffer that is reduced by new threads. Its length in bytes has 32 bits. -/
structure Cluster extends Buffer where
  firstSet_eq : firstSet = false
  packets_pos : 0 < packets
  short : 4 * (32 * toJob.slices * packets) < 2 ^ 32

structure ClusterState (n S : ℕ) where
  buffer : BufferState n S
  threads : Fin n → ThreadState S

inductive ClusterLabel (n S : ℕ) where
  -- the network card sends what was posted for a slot, with the other headers of `rp`
  | transmit (i : Fin S) (w : Fin n) (rp : RocePacket)
  -- the WRITE completion
  | written (i : Fin S) (w : Fin n) (timestamp : Client.Timestamp)
  | arrive (i : Fin S) (w : Fin n)
  | recirculate (i : Fin S) (position : ℕ)
  -- a reply is written to the buffer, and the thread gets the RECV completion
  | reply (i : Fin S) (w : Fin n)
  -- passes of packets of other jobs
  | otherArrival (port : PortId) (rp : RocePacket)
  | otherRecirculation (port : PortId) (pkt : Packet)

namespace Cluster

variable (c : Cluster)

/-- The flags of the client. -/
abbrev flags : Client.Flags where
  cores := 1
  slotsPerCore := c.slots
  messageSize := 4 * c.words
  packetSize := 4 * c.words

/-- The number of floats to reduce. -/
def length : ℕ := c.words * c.packets

/-- The packet that the network card makes of a work request, an RDMA WRITE with an immediate
value. Pointers count floats. -/
def packetOfWr (memory : ℕ → Significand) (wr : SendWr) (rp : RocePacket) : RocePacket :=
  { rp with
    opcode := .rdmaWriteOnlyImmediate
    reth :=
      { addr := BitVec.ofNat 64 (c.address + 4 * wr.remoteAddr)
        rKey := wr.rkey
        len := wr.length }
    payload := (List.range (wr.length.toNat / 128)).map fun j x =>
      memory (wr.addr + (32 * j + x.val)) }

def step (s : ClusterState c.n c.slots) :
    ClusterLabel c.n c.slots → ClusterState c.n c.slots
  | .transmit i w rp =>
    match (s.threads w).queuePairs i with
    | [] => s
    | x :: _ =>
      { s with
        buffer := s.buffer.on i (slotStep (c.slotJob i) .reliable (s.buffer.slots i)
          (.send w (c.packetOfWr (s.buffer.memory w) x.wr rp))) }
  | .written i w timestamp =>
    { s with
      threads := Function.update s.threads w
        (Client.handleWriteCompletion (s.threads w) ⟨i, ((s.threads w).sendWrs i).wrId, 0⟩
          timestamp) }
  | .arrive i w => { s with buffer := c.toBuffer.step s.buffer (.arrive i w) }
  | .recirculate i position =>
    { s with buffer := c.toBuffer.step s.buffer (.recirculate i position) }
  | .reply i w =>
    match (s.buffer.slots i).downlink w, (s.threads w).queuePairs i, (s.threads w).recvQueues i with
    | (_, pkt) :: _, x :: _, id :: _ =>
      { buffer := c.toBuffer.step s.buffer (.land i w)
        threads := Function.update s.threads w
          (Client.receive c.flags (s.threads w) i x
            ⟨i, id, setImmediate pkt.md.poolIndex pkt.exponents⟩) }
    | _, _, _ => s
  | .otherArrival port rp => { s with buffer := c.toBuffer.step s.buffer (.otherArrival port rp) }
  | .otherRecirculation port pkt =>
    { s with buffer := c.toBuffer.step s.buffer (.otherRecirculation port pkt) }

def run (s : ClusterState c.n c.slots) (labels : List (ClusterLabel c.n c.slots)) :
    ClusterState c.n c.slots :=
  labels.foldl c.step s

/-- `compute_thread_pointers` of a new thread. -/
def newThread : ThreadState c.slots :=
  Client.computeThreadPointers c.flags c.length 0 (Client.freshThread c.flags 0 0)

/-- All threads have called `post_initial_writes`. -/
def start (memory : Fin c.n → ℕ → Significand) : ClusterState c.n c.slots where
  buffer := c.toBuffer.start memory
  threads _ := Client.postInitialWrites c.flags c.newThread

end Cluster

-- ---------------------------------------------------------------------------
-- Keys
-- ---------------------------------------------------------------------------

/-- The key of a pool index. -/
def poolKey (p : PoolIndex) : Client.Rkey := p.zeroExtend 32

theorem poolKey_getLsbD (slot : SlotIndex) (σ : Bool) (k : ℕ) :
    (poolKey (PoolIndex.mk slot σ)).getLsbD k =
      (decide (k < 32) && if k = 0 then σ else slot.getLsbD (k - 1)) := by
  show (BitVec.setWidth 32 (slot ++ BitVec.ofBool σ)).getLsbD k = _
  rw [BitVec.getLsbD_setWidth, BitVec.getLsbD_append]
  cases k with
  | zero => simp
  | succ k => simp

/-- The thread flips the set of the key. -/
theorem poolKey_flip (slot : SlotIndex) (σ : Bool) :
    poolKey (PoolIndex.mk slot σ) ^^^ 1 = poolKey (PoolIndex.mk slot (!σ)) := by
  apply BitVec.eq_of_getLsbD_eq
  intro k hk
  rw [BitVec.getLsbD_xor, show (1 : BitVec 32) = 1#32 from rfl, BitVec.getLsbD_one,
    poolKey_getLsbD, poolKey_getLsbD]
  cases k with
  | zero => cases σ <;> rfl
  | succ k => simp

/-- The key of a new thread is that of set 1. -/
theorem freshKey {i : ℕ} (hi : i < numSlots) :
    BitVec.ofNat 32 (i * 2) ||| 1 = poolKey (PoolIndex.mk (BitVec.ofNat 14 i) true) := by
  have hNum : numSlots = 8192 := rfl
  apply BitVec.eq_of_getLsbD_eq
  intro k hk
  rw [BitVec.getLsbD_or, show (1 : BitVec 32) = 1#32 from rfl, BitVec.getLsbD_one,
    poolKey_getLsbD, BitVec.getLsbD_ofNat]
  cases k with
  | zero => simp
  | succ k =>
    have hHigh : ¬ k < 14 → i.testBit k = false := fun hk =>
      Nat.testBit_lt_two_pow (Nat.lt_of_lt_of_le (by omega : i < 2 ^ 14)
        (Nat.pow_le_pow_right (by decide) (by omega)))
    rw [BitVec.getLsbD_ofNat, Nat.testBit_succ, Nat.mul_div_cancel _ (by decide)]
    by_cases hk14 : k < 14 <;> simp [hk, hk14, hHigh]

/-- Keys of different slots are different. -/
theorem slot_eq_of_poolKey {slot slot' : SlotIndex} {σ σ' : Bool}
    (h : poolKey (PoolIndex.mk slot σ) = poolKey (PoolIndex.mk slot' σ')) : slot = slot' := by
  apply BitVec.eq_of_getLsbD_eq
  intro k hk
  have hBit := congrArg (BitVec.getLsbD · (k + 1)) h
  simp only [poolKey_getLsbD, Nat.add_sub_cancel, Nat.add_one_ne_zero, if_false,
    decide_eq_true (by omega : k + 1 < 32), Bool.true_and] at hBit
  exact hBit

theorem Job.poolKey_succ (job : Job) (k : ℕ) :
    poolKey (job.pool k) ^^^ 1 = poolKey (job.pool (k + 1)) := by
  have hSet : job.set (k + 1) = !job.set k := by
    rcases Nat.mod_two_eq_zero_or_one k with hk | hk <;>
      simp [Job.set, hk, Nat.add_mod]
  rw [Job.pool, Job.pool, poolKey_flip, hSet]

-- ---------------------------------------------------------------------------
-- The slots of a thread
-- ---------------------------------------------------------------------------

/-- The thread has not changed anything for slot `i`, but may have posted receive requests. -/
structure SameAt {S : ℕ} (th th' : ThreadState S) (i : Fin S) : Prop where
  stop : th'.threadEndPointer = th.threadEndPointer
  pointer : th'.pointers i = th.pointers i
  wr : th'.sendWrs i = th.sendWrs i
  queue : th'.queuePairs i = th.queuePairs i
  recvs : th.recvQueues i ≠ [] → th'.recvQueues i ≠ []

section Slots

variable (c : Cluster)

/-- The slot may post chunk `k`. -/
structure Ready (th : ThreadState c.slots) (i : Fin c.slots) (k : ℕ) : Prop where
  stop : th.threadEndPointer = c.length
  pointer : th.pointers i = c.words * c.packetOf i k
  rkey : (th.sendWrs i).rkey ^^^ 1 = poolKey ((c.slotJob i).pool k)
  queue : th.queuePairs i = []
  recvs : th.recvQueues i ≠ []

/-- The slot has posted chunk `k`, and the message is not among those that are answered. -/
structure Waits (th : ThreadState c.slots) (answered : List ℕ) (i : Fin c.slots) (k : ℕ) :
    Prop where
  inside : c.packetOf i k < c.packets
  stop : th.threadEndPointer = c.length
  pointer : th.pointers i = c.words * c.packetOf i (k + 1)
  addr : (th.sendWrs i).addr = c.words * c.packetOf i k
  remoteAddr : (th.sendWrs i).remoteAddr = c.words * c.packetOf i k
  length : (th.sendWrs i).length = BitVec.ofNat 32 (4 * c.words)
  rkey : (th.sendWrs i).rkey = poolKey ((c.slotJob i).pool k)
  unanswered : c.words * c.packetOf i k ∉ answered

/-- Where the slot of a thread is, if that of the switch is at the given chunk, which the worker
has sent or not. -/
inductive SlotAt (th : ThreadState c.slots) (answered : List ℕ) (i : Fin c.slots) :
    ℕ → Bool → Prop where
  -- the message is on the queue pair
  | waits {k : ℕ} {sent : Bool} (h : Waits c th answered i k)
      (hQueue : th.queuePairs i = [⟨th.sendWrs i, some (c.words * c.packetOf i k)⟩])
      (hRecvs : th.recvQueues i ≠ []) : SlotAt th answered i k sent
  -- the buffer ends before the chunk
  | done {k : ℕ} {sent : Bool} (h : Ready c th i k) (hEnd : c.packets ≤ c.packetOf i k) :
      SlotAt th answered i k sent
  -- the reply to the chunk before was taken for another slot
  | missed {k : ℕ} (h : Waits c th answered i k) (hQueue : th.queuePairs i = []) :
      SlotAt th answered i (k + 1) false

variable {c} {th th' : ThreadState c.slots} {answered answered' : List ℕ} {i : Fin c.slots} {k : ℕ}
  {sent : Bool}

theorem Ready.congr (h : Ready c th i k) (hSame : SameAt th th' i) : Ready c th' i k where
  stop := hSame.stop.trans h.stop
  pointer := hSame.pointer.trans h.pointer
  rkey := by rw [hSame.wr, h.rkey]
  queue := hSame.queue.trans h.queue
  recvs := hSame.recvs h.recvs

theorem Waits.congr (h : Waits c th answered i k)
    (hStop : th'.threadEndPointer = th.threadEndPointer)
    (hPointer : th'.pointers i = th.pointers i) (hWr : th'.sendWrs i = th.sendWrs i)
    (hAnswered : c.words * c.packetOf i k ∉ answered') : Waits c th' answered' i k where
  inside := h.inside
  stop := hStop.trans h.stop
  pointer := hPointer.trans h.pointer
  addr := by rw [hWr, h.addr]
  remoteAddr := by rw [hWr, h.remoteAddr]
  length := by rw [hWr, h.length]
  rkey := by rw [hWr, h.rkey]
  unanswered := hAnswered

/-- What the thread does for other slots. -/
theorem SlotAt.congr (h : SlotAt c th answered i k sent) (hSame : SameAt th th' i)
    (hAnswered : ∀ k, c.words * c.packetOf i k ∉ answered → c.words * c.packetOf i k ∉ answered') :
    SlotAt c th' answered' i k sent := by
  cases h with
  | waits h hQueue hRecvs =>
    refine .waits (h.congr hSame.stop hSame.pointer hSame.wr (hAnswered _ h.unanswered)) ?_
      (hSame.recvs hRecvs)
    rw [hSame.queue, hSame.wr, hQueue]
  | done h hEnd => exact .done (h.congr hSame) hEnd
  | missed h hQueue =>
    exact .missed (h.congr hSame.stop hSame.pointer hSame.wr (hAnswered _ h.unanswered))
      (hSame.queue.trans hQueue)

/-- `post_next_send_wr` is about one slot. -/
theorem sameAt_post {flags : Client.Flags} {i j : Fin flags.slotsPerCore}
    (th : ThreadState flags.slotsPerCore) (hj : j ≠ i) :
    SameAt th (postNextSendWr flags th i) j := by
  by_cases hLt : th.pointers i < th.threadEndPointer
  · rw [postNextSendWr, if_pos hLt]
    exact ⟨rfl, Function.update_of_ne hj _ _, Function.update_of_ne hj _ _,
      Function.update_of_ne hj _ _, id⟩
  · rw [postNextSendWr, if_neg hLt]
    exact ⟨rfl, rfl, rfl, rfl, id⟩

/-- A reply on queue pair `i`, before the thread looks for its slot. -/
theorem sameAt_popped {S : ℕ} {i j : Fin S} (th : ThreadState S) (j' : Fin S) (hj : j ≠ i) :
    SameAt th (((th.pop i).takeRecv i).postRecv j') j := by
  refine ⟨rfl, rfl, rfl, Function.update_of_ne hj _ _, fun hRecvs => ?_⟩
  simp only [ThreadState.postRecv, ThreadState.takeRecv, ThreadState.pop]
  by_cases hEq : j = j'
  · subst hEq
    simp
  · rwa [Function.update_of_ne hEq, Function.update_of_ne hj]

theorem Cluster.floatsPerMessage_eq (c : Cluster) : Client.floatsPerMessage c.flags = c.words :=
  Nat.mul_div_cancel_left _ (by decide)

theorem Cluster.wholeFloats (c : Cluster) : c.flags.WholeFloats :=
  ⟨Nat.mul_pos (by decide) Buffer.words_pos, Nat.dvd_mul_right _ _⟩

theorem Cluster.words_le (c : Cluster) : c.words ≤ 256 := by
  have hSlices : c.slices ≤ 8 := by
    rw [Job.slices, Job.pipes]
    split <;> decide
  have hWords : c.words = 32 * c.slices := rfl
  omega

theorem Cluster.slotOffsetsFit (c : Cluster) : c.flags.SlotOffsetsFit := by
  intro i hi
  have hSlots : i ≤ 8192 := (Nat.lt_of_lt_of_le hi c.slots_le).le
  have hMul : i * (4 * c.words) ≤ 8192 * (4 * 256) :=
    Nat.mul_le_mul hSlots (Nat.mul_le_mul_left 4 c.words_le)
  exact Nat.lt_of_le_of_lt hMul (by decide)

theorem Cluster.packetOf_succ (c : Cluster) (i : Fin c.slots) (k : ℕ) :
    c.words * c.packetOf i k + c.slots * c.words = c.words * c.packetOf i (k + 1) := by
  rw [Buffer.packetOf, Buffer.packetOf]
  ring

/-- A slot that posts is at the chunk it was to post. -/
theorem Ready.post (h : Ready c th i k) (hNew : c.words * c.packetOf i k ∉ answered) :
    SlotAt c (postNextSendWr c.flags th i) answered i k sent := by
  by_cases hInside : c.packetOf i k < c.packets
  · have hNext : (c.packetOf i k + 1) * c.words ≤ c.packets * c.words :=
      Nat.mul_le_mul_right _ hInside
    have hPos : 0 < c.words := Buffer.words_pos
    have hLength : c.length = c.packets * c.words := Nat.mul_comm _ _
    have hShort : 4 * c.length < 2 ^ 32 := c.short
    have hPointer : th.pointers i = c.packetOf i k * c.words := by
      rw [h.pointer, Nat.mul_comm]
    rw [Nat.add_mul, Nat.one_mul] at hNext
    have hLt : th.pointers i < th.threadEndPointer := by
      rw [h.stop]
      omega
    -- the rest of the buffer is not shorter than a message
    have hLong : ¬ (BitVec.ofNat 32 ((th.threadEndPointer - th.pointers i) *
        Client.sizeofFloat)).ult (BitVec.ofNat 32 c.flags.messageSize) = true := by
      rw [BitVec.ult, BitVec.toNat_ofNat, BitVec.toNat_ofNat, decide_eq_true_eq, h.stop, hPointer,
        Client.sizeofFloat, show c.flags.messageSize = 4 * c.words from rfl,
        Nat.mod_eq_of_lt (by omega), Nat.mod_eq_of_lt (by omega)]
      omega
    unfold postNextSendWr
    rw [if_pos hLt]
    dsimp only
    rw [if_neg hLong]
    refine .waits ⟨hInside, h.stop, ?_, ?_, ?_, ?_, ?_, hNew⟩ ?_ h.recvs
    · simp only [ThreadState.postSend, Function.update_self]
      rw [h.pointer, ← c.packetOf_succ i k,
        show 4 * c.words / Client.sizeofFloat = c.words from c.floatsPerMessage_eq]
    · simp [ThreadState.postSend, h.pointer]
    · simp [ThreadState.postSend, h.pointer]
    · simp [ThreadState.postSend]
    · simp only [ThreadState.postSend, Function.update_self]
      exact h.rkey
    · simp [ThreadState.postSend, h.queue, h.pointer]
  · have hSame : postNextSendWr c.flags th i = th := by
      unfold postNextSendWr
      rw [if_neg]
      rw [h.stop, h.pointer, Cluster.length]
      exact Nat.not_lt.mpr (Nat.mul_le_mul_left _ (Nat.not_lt.mp hInside))
    rw [hSame]
    exact .done h (Nat.not_lt.mp hInside)

/-- The reply to chunk `k` is there, and is taken for its slot. -/
theorem Waits.ready (h : Waits c th answered i k)
    (hQueue : th.queuePairs i = [⟨th.sendWrs i, some (c.words * c.packetOf i k)⟩]) :
    Ready c (((th.pop i).takeRecv i).postRecv i) i (k + 1) where
  stop := h.stop
  pointer := h.pointer
  rkey := by
    show (th.sendWrs i).rkey ^^^ 1 = _
    rw [h.rkey]
    exact Job.poolKey_succ (c.slotJob i) k
  queue := by simp [ThreadState.postRecv, ThreadState.takeRecv, ThreadState.pop, hQueue]
  recvs := by simp [ThreadState.postRecv]

/-- A slot has a key of its own. -/
theorem SlotAt.rkey (h : SlotAt c th answered i k sent) :
    ∃ σ, (th.sendWrs i).rkey = poolKey (PoolIndex.mk (c.slotJob i).slot σ) := by
  cases h with
  | waits h _ _ => exact ⟨_, h.rkey⟩
  | missed h _ => exact ⟨_, h.rkey⟩
  | done h hEnd =>
    refine ⟨!(c.slotJob i).set k, ?_⟩
    rw [← poolKey_flip]
    show _ = poolKey ((c.slotJob i).pool k) ^^^ 1
    rw [← h.rkey, BitVec.xor_assoc, BitVec.xor_self, BitVec.xor_zero]

/-- A thread takes a reply that has the key of the slot. -/
theorem isExpected_setImmediate (c : Cluster) (rkey : Client.Rkey) (p : PoolIndex)
    (exponents : ExponentsMd) :
    Client.isExpected c.flags rkey (setImmediate p exponents) = decide (poolKey p = rkey) := by
  have hOne : c.flags.messageSize / c.flags.packetSize = 1 :=
    Nat.div_self (Nat.mul_pos (by decide) Buffer.words_pos)
  have hMask : Client.poolIndexMessageMask c.flags = BitVec.allOnes 32 := by
    rw [Client.poolIndexMessageMask, hOne]
    decide
  rw [Client.isExpected, poolIndex_setImmediate, hMask, BitVec.and_allOnes]
  rfl

/-- A slot does not take a reply that is for another one. -/
theorem SlotAt.ignores (h : SlotAt c th answered i k sent) {j : Fin c.slots} (hj : j ≠ i) (k' : ℕ)
    (exponents : ExponentsMd) :
    Client.isExpected c.flags (th.sendWrs i).rkey
      (setImmediate ((c.slotJob j).pool k') exponents) = false := by
  obtain ⟨σ, hKey⟩ := h.rkey
  rw [isExpected_setImmediate, hKey, decide_eq_false_iff_not]
  exact fun hEq => Buffer.slotJob_slot_ne hj (slot_eq_of_poolKey hEq)

/-- The first messages of a new thread. -/
theorem ready_newThread (c : Cluster) (i : Fin c.slots) : Ready c c.newThread i 0 := by
  have hSize : c.flags.messageSize / c.flags.packetSize = 1 :=
    Nat.div_self (Nat.mul_pos (by decide) Buffer.words_pos)
  refine ⟨?_, ?_, ?_, rfl, (Client.recvsPosted_fresh c.flags 0 0).some i⟩
  · show Client.threadEndPointer c.flags c.length 0 = c.length
    rw [Client.threadEndPointer, Client.threadStartPointer, Client.startMessageIndex_zero,
      Nat.zero_mul, Nat.zero_div, Nat.zero_add, c.wholeFloats.pointer_eq,
      ← Client.startMessageIndex_succ]
    refine Nat.min_eq_right ((Client.length_le_totalMessages _ c.wholeFloats).trans_eq ?_)
    rw [← Client.startMessageIndex_cores c.flags c.length Nat.one_pos]
  · show Client.threadStartPointer c.flags c.length 0 + Client.slotOffset c.flags i = _
    rw [Client.threadStartPointer, Client.startMessageIndex_zero, Nat.zero_mul, Nat.zero_div,
      c.slotOffsetsFit.slotOffset_eq c.wholeFloats i, c.floatsPerMessage_eq, Buffer.packetOf]
    ring
  · show Client.shiftedPoolIndex c.flags (c.slots * 0 + i.val) ^^^ 1 = _
    rw [Client.shiftedPoolIndex, hSize, Nat.mul_zero, Nat.zero_add, Nat.mul_one,
      freshKey (Nat.lt_of_lt_of_le i.isLt c.slots_le), poolKey_flip, Job.pool, Job.set]
    simp [c.firstSet_eq]

theorem slotAt_start (c : Cluster) (i : Fin c.slots) :
    SlotAt c (Client.postInitialWrites c.flags c.newThread) [] i 0 false := by
  -- by induction over the slots that are still to post
  have hFold : ∀ (slots : List (Fin c.slots)) (th : ThreadState c.slots), slots.Nodup →
      (∀ i ∈ slots, Ready c th i 0) → (∀ i ∉ slots, SlotAt c th [] i 0 false) →
      ∀ i, SlotAt c (slots.foldl (postNextSendWr c.flags) th) [] i 0 false := by
    intro slots
    induction slots with
    | nil => exact fun th _ _ hDone i => hDone i (List.not_mem_nil)
    | cons j slots ih =>
      intro th hNodup hReady hDone
      obtain ⟨hj, hNodup⟩ := List.nodup_cons.mp hNodup
      refine ih _ hNodup (fun i hi => ?_) (fun i hi => ?_)
      · exact (hReady i (List.mem_cons_of_mem _ hi)).congr
          (@sameAt_post c.flags j i th (by rintro rfl; exact hj hi))
      · by_cases hij : i = j
        · subst hij
          exact (hReady i List.mem_cons_self).post List.not_mem_nil
        · exact (hDone i (by simp [hij, hi])).congr (@sameAt_post c.flags j i th hij)
            fun _ h => h
  exact hFold _ _ (List.nodup_finRange _) (fun i _ => ready_newThread c i)
    (fun i hi => absurd (List.mem_finRange i) hi) i

end Slots

-- ---------------------------------------------------------------------------
-- Steps
-- ---------------------------------------------------------------------------

section Machine

variable {c : Cluster} {memory : Fin c.n → ℕ → Significand} {s : ClusterState c.n c.slots}

/-- The network card sends the chunk that the slot is at. -/
theorem Waits.packetOfWr {th : ThreadState c.slots} {answered : List ℕ} {i : Fin c.slots} {k : ℕ}
    (h : Waits c th answered i k) (memory : ℕ → Significand) (rp : RocePacket) :
    c.packetOfWr memory (th.sendWrs i) rp = c.fill memory i k rp := by
  have hSlices : (BitVec.ofNat 32 (4 * c.words)).toNat / 128 = c.slices := by
    have hWords : c.words = 32 * c.slices := rfl
    have hLe := c.words_le
    rw [BitVec.toNat_ofNat, Nat.mod_eq_of_lt (by omega)]
    omega
  rw [Cluster.packetOfWr, Buffer.fill, h.addr, h.remoteAddr, h.length, h.rkey, hSlices]
  rfl

/-- The messages of a thread. -/
def Cluster.stop (c : Cluster) : ℕ := Client.endMessageIndex c.flags c.length 0

/-- What is known of a cluster. -/
structure InStep (c : Cluster) (memory : Fin c.n → ℕ → Significand)
    (s : ClusterState c.n c.slots) : Prop where
  inPlace : InPlace c.toBuffer memory s.buffer
  count : ∀ w, Client.ThreadInv c.flags 0 c.stop (s.threads w)
  slot : ∀ w i, SlotAt c (s.threads w) (s.threads w).answered i ((s.buffer.slots i).pos w)
    ((s.buffer.slots i).sent w)

theorem inStep_start (c : Cluster) (memory : Fin c.n → ℕ → Significand) :
    InStep c memory (c.start memory) where
  inPlace := inPlace_start c.toBuffer memory
  count _ := by
    have hInv := Client.threadInv_compute c.wholeFloats c.slotOffsetsFit
      (.inl (Client.startMessageIndex_zero c.flags c.length)) (Client.freshThread c.flags 0 0)
    rw [Client.startMessageIndex_zero] at hInv
    exact hInv.postInitialWrites c.wholeFloats.floatsPerMessage_pos
  slot _ i := by
    have hNone : (Client.postInitialWrites c.flags c.newThread).answered = [] := by
      unfold Client.postInitialWrites
      have hFold : ∀ (slots : List (Fin c.slots)) (th : ThreadState c.slots),
          (slots.foldl (postNextSendWr c.flags) th).answered = th.answered := by
        intro slots
        induction slots with
        | nil => exact fun _ => rfl
        | cons j slots ih =>
          exact fun th => (ih _).trans (@Client.postNextSendWr_answered c.flags th j)
      exact hFold _ _
    show SlotAt c (Client.postInitialWrites c.flags c.newThread)
      (Client.postInitialWrites c.flags c.newThread).answered i 0 false
    rw [hNone]
    exact slotAt_start c i

/-- Steps that no thread sees and that answer nothing. -/
theorem InStep.quiet (h : InStep c memory s) {buffer : BufferState c.n c.slots}
    (hInPlace : InPlace c.toBuffer memory buffer)
    (hProgress : ∀ i, (buffer.slots i).progress = (s.buffer.slots i).progress) :
    InStep c memory { s with buffer } where
  inPlace := hInPlace
  count := h.count
  slot w i := by
    have hPos : (buffer.slots i).pos = (s.buffer.slots i).pos := congrArg Prod.fst (hProgress i)
    have hSent : (buffer.slots i).sent = (s.buffer.slots i).sent := congrArg Prod.snd (hProgress i)
    show SlotAt c (s.threads w) _ i ((buffer.slots i).pos w) ((buffer.slots i).sent w)
    rw [hPos, hSent]
    exact h.slot w i

/-- What the network card sends is the chunk that the slot of the switch is at. -/
theorem InStep.transmit_eq (h : InStep c memory s) {i : Fin c.slots} {w : Fin c.n} {x : Posted}
    {rest : List Posted} (hQueue : (s.threads w).queuePairs i = x :: rest) (rp : RocePacket) :
    s.buffer.on i (slotStep (c.slotJob i) .reliable (s.buffer.slots i)
        (.send w (c.packetOfWr (s.buffer.memory w) x.wr rp))) =
      c.toBuffer.step s.buffer (.send i w rp) := by
  have hSlot := h.slot w i
  generalize hk : (s.buffer.slots i).pos w = k at hSlot
  generalize (s.buffer.slots i).sent w = sent at hSlot
  cases hSlot with
  | waits hWaits hPosted _ =>
    obtain ⟨rfl, -⟩ := List.cons.inj (hQueue.symm.trans hPosted)
    simp only [Buffer.step]
    rw [hk, if_pos hWaits.inside, hWaits.packetOfWr]
  | done hReady _ =>
    rw [hReady.queue] at hQueue
    cases hQueue
  | missed _ hEmpty =>
    rw [hEmpty] at hQueue
    cases hQueue

theorem InStep.transmit (h : InStep c memory s) (i : Fin c.slots) (w : Fin c.n)
    (rp : RocePacket) : InStep c memory (c.step s (.transmit i w rp)) := by
  simp only [Cluster.step]
  cases hQueue : (s.threads w).queuePairs i with
  | nil => exact h
  | cons x rest =>
    dsimp only
    rw [h.transmit_eq hQueue rp]
    refine ⟨h.inPlace.send i w rp, h.count, fun w' j => ?_⟩
    obtain ⟨hPos, hSent⟩ := Buffer.send_progress s.buffer i w rp j w'
    have hSlot := h.slot w' j
    dsimp only
    rw [hPos]
    by_cases hHere : j = i ∧ w' = w
    · -- only slots with a message on their queue pair send
      obtain ⟨rfl, rfl⟩ := hHere
      generalize (s.buffer.slots j).pos w' = k at hSlot ⊢
      generalize (s.buffer.slots j).sent w' = sent at hSlot
      cases hSlot with
      | waits hWaits hPosted hRecvs => exact .waits hWaits hPosted hRecvs
      | done hReady hEnd => exact .done hReady hEnd
      | missed _ hEmpty =>
        rw [hEmpty] at hQueue
        cases hQueue
    · rw [hSent hHere]
      exact hSlot

theorem InStep.arrive (h : InStep c memory s) (i : Fin c.slots) (w : Fin c.n) :
    InStep c memory (c.step s (.arrive i w)) :=
  h.quiet (h.inPlace.arrive i w) (Buffer.arrive_progress s.buffer i w)

theorem InStep.recirculate (h : InStep c memory s) (i : Fin c.slots) (position : ℕ) :
    InStep c memory (c.step s (.recirculate i position)) :=
  h.quiet (h.inPlace.recirculate i position) (Buffer.recirculate_progress s.buffer i position)

theorem InStep.written (h : InStep c memory s) (i : Fin c.slots) (w : Fin c.n)
    (timestamp : Client.Timestamp) : InStep c memory (c.step s (.written i w timestamp)) where
  inPlace := h.inPlace
  count w' := by
    show Client.ThreadInv c.flags 0 c.stop (Function.update s.threads w _ w')
    by_cases hw : w' = w
    · subst hw
      rw [Function.update_self]
      exact { h.count w' with }
    · rw [Function.update_of_ne hw]
      exact h.count w'
  slot w' j := by
    show SlotAt c (Function.update s.threads w _ w') (Function.update s.threads w _ w').answered j
      _ _
    by_cases hw : w' = w
    · subst hw
      rw [Function.update_self]
      exact (h.slot w' j).congr ⟨rfl, rfl, rfl, rfl, id⟩ fun _ h => h
    · rw [Function.update_of_ne hw]
      exact h.slot w' j

section Reply

variable {th : ThreadState c.slots} {i : Fin c.slots} {k : ℕ} {wc : Client.Wc c.slots}

/-- The thread after a reply that is taken for its slot. -/
theorem receive_taken {x : Posted} {p : ℕ} (hMessage : x.message = some p) (hSlot : wc.qpIndex = i)
    (hTakes : Client.isExpected c.flags (th.sendWrs i).rkey wc.immData = true) :
    Client.receive c.flags th i x wc =
      { postNextSendWr c.flags (((th.pop i).takeRecv i).postRecv i) i with
        outstandingOperations := (postNextSendWr c.flags
          (((th.pop i).takeRecv i).postRecv i) i).outstandingOperations - 1
        answered := th.answered ++ [p] } := by
  have hSame : Client.isExpected c.flags ((((th.pop i).takeRecv i).postRecv i).sendWrs i).rkey
    wc.immData = true := hTakes
  unfold Client.receive Client.handleRecvCompletion Client.answers
  dsimp only
  rw [hSlot, if_pos hSame, if_pos hTakes, hMessage]
  rfl

/-- The thread after a reply that no slot waits for. -/
theorem receive_missed {x : Posted}
    (hIgnores : Client.isExpected c.flags (th.sendWrs wc.qpIndex).rkey wc.immData = false) :
    Client.receive c.flags th i x wc =
      { ((th.pop i).takeRecv i).postRecv wc.qpIndex with answered := th.answered } := by
  have hSame : ¬ Client.isExpected c.flags ((((th.pop i).takeRecv i).postRecv wc.qpIndex).sendWrs
    wc.qpIndex).rkey wc.immData = true := by
    rw [Bool.not_eq_true]
    exact hIgnores
  unfold Client.receive Client.handleRecvCompletion Client.answers
  dsimp only
  rw [if_neg hSame, if_neg (by simp [hIgnores]), List.append_nil]

/-- **A reply to the message of a slot.** The slot goes on to the next chunk, or it misses the
reply; all other slots stay where they are. -/
theorem Waits.receive (hInv : Client.ThreadInv c.flags 0 c.stop th)
    (hWaits : Waits c th th.answered i k)
    (hQueue : th.queuePairs i = [⟨th.sendWrs i, some (c.words * c.packetOf i k)⟩])
    {k' : Fin c.slots → ℕ} {sent : Fin c.slots → Bool}
    (hSlots : ∀ j, SlotAt c th th.answered j (k' j) (sent j)) {exponents : ExponentsMd}
    (hReply : wc.immData = setImmediate ((c.slotJob i).pool k) exponents) :
    let th' := Client.receive c.flags th i
      ⟨th.sendWrs i, some (c.words * c.packetOf i k)⟩ wc
    Client.ThreadInv c.flags 0 c.stop th' ∧ SlotAt c th' th'.answered i (k + 1) false ∧
      ∀ j, j ≠ i → SlotAt c th' th'.answered j (k' j) (sent j) := by
  intro th'
  have hMem : (⟨th.sendWrs i, some (c.words * c.packetOf i k)⟩ : Posted) ∈ th.queuePairs i := by
    rw [hQueue]
    exact List.mem_cons_self
  have hCount : Client.ThreadInv c.flags 0 c.stop th' :=
    hInv.receive c.wholeFloats.floatsPerMessage_pos hMem fun _ => ⟨_, rfl, hWaits.unanswered⟩
  refine ⟨hCount, ?_⟩
  by_cases hSlot : wc.qpIndex = i
  · have hTakes : Client.isExpected c.flags (th.sendWrs i).rkey wc.immData = true := by
      rw [hReply, isExpected_setImmediate, hWaits.rkey, decide_eq_true rfl]
    have hEq : th' = _ := receive_taken rfl hSlot hTakes
    have hPos : 0 < c.words := Buffer.words_pos
    -- the next chunk is not posted yet, and other chunks are other messages
    have hNext : c.words * c.packetOf i (k + 1) ∉ th.answered ++ [c.words * c.packetOf i k] := by
      intro hIn
      rcases List.mem_append.mp hIn with hIn | hIn
      · rw [← hWaits.pointer] at hIn
        exact hInv.pointer_notMem i (hInv.answered_mem _ hIn)
      · have hSame := Nat.eq_of_mul_eq_mul_left hPos (List.mem_singleton.mp hIn)
        have hChunk := congrArg (· / c.slots) hSame
        simp only [Buffer.packetOf_div] at hChunk
        omega
    have hOther : ∀ j, j ≠ i → ∀ m, c.words * c.packetOf j m ∉ th.answered →
        c.words * c.packetOf j m ∉ th.answered ++ [c.words * c.packetOf i k] := by
      intro j hj m hm hIn
      rcases List.mem_append.mp hIn with hIn | hIn
      · exact hm hIn
      · have hSame := Nat.eq_of_mul_eq_mul_left hPos (List.mem_singleton.mp hIn)
        have hSlots := congrArg (· % c.slots) hSame
        simp only [Buffer.packetOf_mod] at hSlots
        exact hj (Fin.ext hSlots)
    rw [hEq]
    refine ⟨?_, fun j hj => ?_⟩
    · exact ((hWaits.ready hQueue).post hNext).congr ⟨rfl, rfl, rfl, rfl, id⟩ fun _ h => h
    · have hPost := @sameAt_post c.flags i j (((th.pop i).takeRecv i).postRecv i) hj
      have hPop := sameAt_popped th i hj
      exact (hSlots j).congr ⟨hPost.stop.trans hPop.stop, hPost.pointer.trans hPop.pointer,
        hPost.wr.trans hPop.wr, hPost.queue.trans hPop.queue, fun h => hPost.recvs (hPop.recvs h)⟩
        (hOther j hj)
  · have hIgnores : Client.isExpected c.flags (th.sendWrs wc.qpIndex).rkey wc.immData = false := by
      rw [hReply]
      exact (hSlots wc.qpIndex).ignores (Ne.symm hSlot) k exponents
    have hEq : th' = _ := receive_missed hIgnores
    rw [hEq]
    refine ⟨.missed (hWaits.congr rfl rfl rfl hWaits.unanswered) ?_, fun j hj => ?_⟩
    · simp [ThreadState.postRecv, ThreadState.takeRecv, ThreadState.pop, hQueue]
    · have hPop := sameAt_popped th wc.qpIndex hj
      exact (hSlots j).congr ⟨hPop.stop, hPop.pointer, hPop.wr, hPop.queue, hPop.recvs⟩ fun _ h => h

end Reply

/-- The switch goes on to the next chunk of the slot, and so does the thread, or it misses the
reply. -/
theorem InStep.reply (h : InStep c memory s) (i : Fin c.slots) (w : Fin c.n) :
    InStep c memory (c.step s (.reply i w)) := by
  simp only [Cluster.step]
  split
  swap
  · exact h
  next k pkt downs x posts id ids hDown hPosts hIds =>
  obtain ⟨rfl, hSent, hPool, ⟨v, rp, hSends, -⟩, -⟩ :=
    (h.inPlace.served i).reply (by rw [hDown]; exact List.mem_cons_self)
  have hSlot := h.slot w i
  rw [hSent] at hSlot
  generalize hk : (s.buffer.slots i).pos w = k at hSlot hSends hPool
  cases hSlot with
  | done hReady hEnd => exact absurd hSends.inside (Nat.not_lt.mpr hEnd)
  | waits hWaits hQueue hRecvs =>
    obtain ⟨rfl, -⟩ := List.cons.inj (hPosts.symm.trans hQueue)
    have hReply : (⟨i, id, setImmediate pkt.md.poolIndex pkt.exponents⟩ :
        Client.Wc c.slots).immData = setImmediate ((c.slotJob i).pool k) pkt.exponents := by
      rw [hPool]
    obtain ⟨hCount, hHere, hOthers⟩ := hWaits.receive (h.count w) hQueue (h.slot w) hReply
    generalize Client.receive c.flags (s.threads w) i _ _ = th at hCount hHere hOthers ⊢
    refine ⟨h.inPlace.land i w, fun w' => ?_, fun w' j => ?_⟩
    · show Client.ThreadInv c.flags 0 c.stop (Function.update s.threads w th w')
      by_cases hw : w' = w
      · subst hw
        rwa [Function.update_self]
      · rw [Function.update_of_ne hw]
        exact h.count w'
    · have hProgress := h.inPlace.land_progress hDown j
      show SlotAt c (Function.update s.threads w th w') (Function.update s.threads w th w').answered
        j (((c.toBuffer.step s.buffer (.land i w)).slots j).progress.1 w')
        (((c.toBuffer.step s.buffer (.land i w)).slots j).progress.2 w')
      rw [hProgress]
      by_cases hw : w' = w
      · subst hw
        rw [Function.update_self]
        by_cases hj : j = i
        · subst hj
          rw [if_pos rfl]
          dsimp only
          rw [Function.update_self, Function.update_self, hk]
          exact hHere
        · rw [if_neg hj]
          exact hOthers j hj
      · rw [Function.update_of_ne hw]
        by_cases hj : j = i
        · subst hj
          rw [if_pos rfl]
          dsimp only
          rw [Function.update_of_ne hw, Function.update_of_ne hw]
          exact h.slot w' j
        · rw [if_neg hj]
          exact h.slot w' j

/-- **Step lemma.** -/
theorem InStep.step (h : InStep c memory s) (label : ClusterLabel c.n c.slots) :
    InStep c memory (c.step s label) := by
  cases label with
  | transmit i w rp => exact h.transmit i w rp
  | written i w timestamp => exact h.written i w timestamp
  | arrive i w => exact h.arrive i w
  | recirculate i position => exact h.recirculate i position
  | reply i w => exact h.reply i w
  | otherArrival port rp =>
    exact h.quiet (h.inPlace.otherArrival port rp) (Buffer.otherArrival_progress s.buffer port rp)
  | otherRecirculation port pkt =>
    exact h.quiet (h.inPlace.otherRecirculation port pkt)
      (Buffer.otherRecirculation_progress s.buffer port pkt)

theorem InStep.run (h : InStep c memory s) (labels : List (ClusterLabel c.n c.slots)) :
    InStep c memory (c.run s labels) := by
  induction labels generalizing s with
  | nil => exact h
  | cons label labels ih => exact ih (h.step label)

-- ---------------------------------------------------------------------------
-- The end of a reduction
-- ---------------------------------------------------------------------------

/-- A thread that has nothing outstanding has posted all its messages, and all are answered. -/
theorem InStep.complete (h : InStep c memory s) {w : Fin c.n}
    (hDone : (s.threads w).outstandingOperations ≤ 0) {m : ℕ} (hm : m < c.packets) :
    c.words * m ∈ (s.threads w).posted ∧ c.words * m ∈ (s.threads w).answered := by
  have hStop : m < c.stop := by
    have hTotal : c.stop = Client.totalMessages c.flags c.length := by
      rw [Cluster.stop, ← Client.startMessageIndex_succ,
        ← Client.startMessageIndex_cores c.flags c.length Nat.one_pos]
    have hLength := Client.length_le_totalMessages c.length c.wholeFloats
    rw [← hTotal, c.floatsPerMessage_eq, Cluster.length, Nat.mul_comm c.stop] at hLength
    exact Nat.lt_of_lt_of_le hm (Nat.le_of_mul_le_mul_left hLength Buffer.words_pos)
  have hAll := (h.count w).all_done (Nat.zero_le _) hDone (Nat.zero_le m) hStop
  rwa [c.floatsPerMessage_eq, Nat.mul_comm m] at hAll

/-- The worker of such a thread has the replies to all packets. -/
theorem InStep.answered (h : InStep c memory s) {w : Fin c.n}
    (hDone : (s.threads w).outstandingOperations ≤ 0) {m : ℕ} (hm : m < c.packets) :
    s.buffer.Answered w m := by
  obtain ⟨i₀, -⟩ := (h.count w).posted_mem _ (h.complete hDone hm).1
  refine ⟨⟨m % c.slots, Nat.mod_lt m i₀.pos⟩, rfl, ?_⟩
  generalize hi : (⟨m % c.slots, Nat.mod_lt m i₀.pos⟩ : Fin c.slots) = i
  have hSlot := h.slot w i
  generalize (s.buffer.slots i).pos w = k at hSlot ⊢
  generalize (s.buffer.slots i).sent w = sent at hSlot
  cases hSlot with
  | waits hWaits _ _ => exact absurd (h.complete hDone hWaits.inside).2 hWaits.unanswered
  | missed hWaits _ => exact absurd (h.complete hDone hWaits.inside).2 hWaits.unanswered
  | done _ hEnd =>
    by_contra hNot
    have hMod : m % c.slots = i := by rw [← hi]
    have hPacket : m = c.packetOf i (m / c.slots) := Buffer.eq_packetOf hMod rfl
    have hLe : c.packetOf i k ≤ c.packetOf i (m / c.slots) :=
      Nat.add_le_add_left (Nat.mul_le_mul_right _ (Nat.not_lt.mp hNot)) _
    omega

end Machine

/-- **An allreduce that returns has the sums.** Take any run of a cluster in which nothing is
lost, with any interleaving of the threads, the network cards and the passes in the four pipes,
those of other jobs among them.
When the loop of a worker's thread ends, every float of its buffer is the sum of what all workers
had there at the start, although the others may still be busy; and nothing but the buffer is
written. -/
theorem allreduce_returns (c : Cluster) (memory : Fin c.n → ℕ → Significand)
    (labels : List (ClusterLabel c.n c.slots)) (w : Fin c.n)
    (hDone : ((c.run (c.start memory) labels).threads w).outstandingOperations ≤ 0) (p : ℕ) :
    (c.run (c.start memory) labels).buffer.memory w p =
      if p < c.length then ∑ v, memory v p else memory w p := by
  have h := (inStep_start c memory).run labels
  rw [h.inPlace.memory w p]
  by_cases hp : p < c.length
  · rw [if_pos hp, if_pos (h.answered hDone (Nat.div_lt_of_lt_mul hp))]
  · rw [if_neg hp, if_neg fun hAnswered => hp (h.inPlace.lt_of_answered hAnswered)]

theorem pair_le_maxNumWorkers : 2 ≤ 32 := by decide

theorem two_le_numSlots : 2 ≤ numSlots := by decide

theorem threePackets_fit :
    0 + 4 * (32 * (Job.plain 2 Nat.two_pos pair_le_maxNumWorkers false).slices * 3) ≤ 2 ^ 64 := by
  decide

theorem threePackets_short :
    4 * (32 * (Job.plain 2 Nat.two_pos pair_le_maxNumWorkers false).slices * 3) < 2 ^ 32 := by
  decide

/-- Two workers with two slots and three packets of 64 floats: the first slot is used twice. -/
def pairCluster : Cluster where
  toJob := Job.plain 2 Nat.two_pos pair_le_maxNumWorkers false
  slots := 2
  slots_le := two_le_numSlots
  address := 0
  packets := 3
  fits := threePackets_fit
  firstSet_eq := rfl
  packets_pos := Nat.succ_pos 2
  short := threePackets_short

def pairMemory (w : Fin 2) (p : ℕ) : Significand := BitVec.ofNat 32 (1000 * w + p)

/-- The workers and the slots. -/
def pairFirst : Fin 2 := ⟨0, Nat.two_pos⟩

def pairSecond : Fin 2 := ⟨1, Nat.one_lt_two⟩

/-- Worker 0 has the replies to all packets, worker 1 has looked at the first only. -/
def pairLabels : List (ClusterLabel 2 2) :=
  [.transmit pairFirst pairFirst (plainPacket 0 2 0), .written pairFirst pairFirst 0,
    .transmit pairSecond pairFirst (plainPacket 0 2 0),
    .transmit pairFirst pairSecond (plainPacket 1 2 0),
    .transmit pairSecond pairSecond (plainPacket 1 2 0),
    -- the slots fill up in turn, and each worker goes on when it has the reply
    .arrive pairFirst pairSecond, .arrive pairSecond pairFirst, .arrive pairFirst pairFirst,
    .recirculate pairFirst 0, .reply pairFirst pairFirst,
    .transmit pairFirst pairFirst (plainPacket 0 2 0), .arrive pairSecond pairSecond,
    .arrive pairFirst pairFirst, .reply pairFirst pairSecond,
    .transmit pairFirst pairSecond (plainPacket 1 2 0), .recirculate pairSecond 0,
    .reply pairSecond pairFirst, .arrive pairFirst pairSecond, .recirculate pairFirst 0,
    .reply pairFirst pairFirst]

def pairReduction : ClusterState 2 2 := pairCluster.run (pairCluster.start pairMemory) pairLabels

/-- The thread of worker 0 is done, and that of worker 1 is not. Floats 3, 70 and 150 were in
packets 0, 1 and 2; float 200 is not in the buffer. -/
theorem allreduce_returns_pair :
    (pairReduction.threads pairFirst).outstandingOperations ≤ 0 ∧
      0 < (pairReduction.threads pairSecond).outstandingOperations ∧
      (∀ p ∈ [3, 70, 150], pairReduction.buffer.memory pairFirst p = ∑ v, pairMemory v p) ∧
      pairReduction.buffer.memory pairFirst 200 = pairMemory pairFirst 200 := by
  have hDone : (pairReduction.threads pairFirst).outstandingOperations ≤ 0 := by decide +kernel
  have hBusy : 0 < (pairReduction.threads pairSecond).outstandingOperations := by decide +kernel
  have h := allreduce_returns pairCluster pairMemory pairLabels pairFirst hDone
  refine ⟨hDone, hBusy, fun p hp => ?_, (h 200).trans (if_neg (by decide))⟩
  have hInside : ∀ p ∈ [3, 70, 150], p < pairCluster.length := by decide
  exact (h p).trans (if_pos (hInside p hp))

end SwitchML
