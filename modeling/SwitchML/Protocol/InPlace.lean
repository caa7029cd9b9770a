import SwitchML.Protocol.Receiving
import SwitchML.Protocol.Replies

/-!
# SwitchML protocol — a reduction in place

`allreduce_inplace` has one buffer: a slot sends its next packet from the words of the buffer,
and the network card writes the reply to the address that the switch has put into it. The slots
of a job work on different packets of the buffer at the same time, and all of them share the
registers of the switch, with each other and with the slots of other jobs. Here the slots of a
job and the buffers of its workers are one machine.
Messages have one packet each; nothing is lost or sent again.

A word that is overwritten too early would be sent with the wrong value, and a reply with the
wrong address would destroy another part of the buffer. Neither happens:

* `InPlace` — what is known of a reduction; `InPlace.step` is the step lemma;
* `allreduce_in_place` — at any time, a word of a worker's buffer is still its own, or it
  is the sum over all workers if the worker has the reply to the word's packet.
-/

namespace SwitchML

open scoped BigOperators

-- ---------------------------------------------------------------------------
-- Buffers
-- ---------------------------------------------------------------------------

/-- A job whose workers reduce a buffer of `packets` packets with the first `slots` slots of the
switch. The buffer is at the same address on all workers. -/
structure Buffer extends Job where
  slots : ℕ
  slots_le : slots ≤ numSlots
  address : ℕ
  packets : ℕ
  fits : address + 4 * (32 * toJob.slices * packets) ≤ 2 ^ 64

theorem slot_lt_numSlots {S : ℕ} (hS : S ≤ numSlots) (i : Fin S) :
    (BitVec.ofNat 14 i.val).toNat < numSlots := by
  have hNum : numSlots = 8192 := rfl
  have hi := i.isLt
  rw [BitVec.toNat_ofNat, Nat.mod_eq_of_lt (by omega)]
  omega

theorem mod_32_lt (p : ℕ) : p % 32 < 32 := Nat.mod_lt _ (by decide)

namespace Buffer

variable (b : Buffer)

/-- The job as slot `i` sees it. -/
abbrev slotJob (i : Fin b.slots) : Job :=
  { b.toJob with
    slot := BitVec.ofNat 14 i.val
    slot_lt := slot_lt_numSlots b.slots_le i
    last := fun _ => true }

/-- The words of a packet. -/
def words : ℕ := 32 * b.slices

/-- The packet of the buffer that is chunk `k` of slot `i`. -/
def packetOf (i : Fin b.slots) (k : ℕ) : ℕ := i + k * b.slots

/-- The address of a packet. -/
def addressOf (m : ℕ) : BitVec 64 := BitVec.ofNat 64 (b.address + 4 * (b.words * m))

/-- The word of the buffer at an address. -/
def wordAt (addr : BitVec 64) : ℕ := (addr.toNat - b.address) / 4

/-- A packet of the buffer, as it is sent. -/
def read (memory : ℕ → Significand) (m : ℕ) : List Data :=
  (List.range b.slices).map fun j x => memory (b.words * m + (32 * j + x.val))

end Buffer

/-- The network card writes a payload to the words from `start` on. -/
def writePayload (memory : ℕ → Significand) (start : ℕ) (payload : List Data) (p : ℕ) :
    Significand :=
  if start ≤ p then
    match payload[(p - start) / 32]? with
    | some data => data ⟨(p - start) % 32, mod_32_lt _⟩
    | none => memory p
  else memory p

-- ---------------------------------------------------------------------------
-- The machine
-- ---------------------------------------------------------------------------

/-- The slots have the same registers. -/
structure BufferState (n S : ℕ) where
  slots : Fin S → SlotState n
  memory : Fin n → ℕ → Significand

inductive BufferLabel (n S : ℕ) where
  -- a worker sends the next packet of a slot, with the headers of `rp`
  | send (i : Fin S) (w : Fin n) (rp : RocePacket)
  | arrive (i : Fin S) (w : Fin n)
  | recirculate (i : Fin S) (position : ℕ)
  -- the next reply for a slot is written to the buffer of a worker
  | land (i : Fin S) (w : Fin n)
  -- passes of packets of other jobs
  | otherArrival (port : PortId) (rp : RocePacket)
  | otherRecirculation (port : PortId) (pkt : Packet)

/-- Slot `i` makes a step to `t`. -/
def BufferState.on {n S : ℕ} (s : BufferState n S) (i : Fin S) (t : SlotState n) :
    BufferState n S :=
  { s with slots := fun j => if j = i then t else { s.slots j with regs := t.regs } }

/-- Worker `w` has the reply to packet `m` of the buffer. -/
def BufferState.Answered {n S : ℕ} (s : BufferState n S) (w : Fin n) (m : ℕ) : Prop :=
  ∃ i : Fin S, m % S = i.val ∧ m / S < (s.slots i).pos w

instance {n S : ℕ} (s : BufferState n S) (w : Fin n) (m : ℕ) : Decidable (s.Answered w m) :=
  inferInstanceAs (Decidable (∃ i : Fin S, m % S = i.val ∧ m / S < (s.slots i).pos w))

namespace Buffer

variable (b : Buffer)

/-- The packet that worker `w` sends for chunk `k` of slot `i`. -/
def fill (memory : ℕ → Significand) (i : Fin b.slots) (k : ℕ) (rp : RocePacket) : RocePacket :=
  { rp with
    opcode := .rdmaWriteOnlyImmediate
    reth :=
      { addr := b.addressOf (b.packetOf i k)
        rKey := ((b.slotJob i).pool k).zeroExtend 32
        len := BitVec.ofNat 32 (4 * b.words) }
    payload := b.read memory (b.packetOf i k) }

/-- A step that all slots see. -/
def all (s : BufferState b.n b.slots) (label : SlotLabel b.n) : BufferState b.n b.slots :=
  { s with slots := fun i => slotStep (b.slotJob i) .reliable (s.slots i) label }

/-- Other jobs have other slots. -/
def step (s : BufferState b.n b.slots) : BufferLabel b.n b.slots → BufferState b.n b.slots
  | .send i w rp =>
    let k := (s.slots i).pos w
    if b.packetOf i k < b.packets then
      s.on i (slotStep (b.slotJob i) .reliable (s.slots i)
        (.send w (b.fill (s.memory w) i k rp)))
    else s
  | .arrive i w => s.on i (slotStep (b.slotJob i) .reliable (s.slots i) (.arrive w))
  | .recirculate i position =>
    s.on i (slotStep (b.slotJob i) .reliable (s.slots i) (.recirculate position))
  | .land i w =>
    match (s.slots i).downlink w with
    | [] => s
    | (_, pkt) :: _ =>
      { s.on i (slotStep (b.slotJob i) .reliable (s.slots i) (.deliver w)) with
        memory := Function.update s.memory w
          (writePayload (s.memory w) (b.wordAt pkt.rdmaMd.addr) pkt.payload) }
  | .otherArrival port rp =>
    if ∀ i, (receivedPoolIndex (b.slotJob i).config.workers rp
        ((s.slots i).regs (pipeOf port))).map PoolIndex.slot ≠ some (b.slotJob i).slot then
      b.all s (.otherArrival port rp)
    else s
  | .otherRecirculation port pkt =>
    if ∀ i, pkt.md.poolIndex.slot ≠ (b.slotJob i).slot then
      b.all s (.otherRecirculation port pkt)
    else s

def run (s : BufferState b.n b.slots) (labels : List (BufferLabel b.n b.slots)) :
    BufferState b.n b.slots :=
  labels.foldl b.step s

/-- Nothing was sent yet. -/
def start (memory : Fin b.n → ℕ → Significand) : BufferState b.n b.slots where
  slots _ := .initial
  memory := memory

end Buffer

-- ---------------------------------------------------------------------------
-- Packets of the buffer
-- ---------------------------------------------------------------------------

section Layout

variable {b : Buffer}

theorem Buffer.words_pos : 0 < b.words := by
  have hSlices : 0 < b.slices := by
    have := b.pipes_pos
    rw [Job.slices]
    omega
  rw [Buffer.words]
  omega

theorem Buffer.packetOf_mod (i : Fin b.slots) (k : ℕ) : b.packetOf i k % b.slots = i := by
  rw [Buffer.packetOf, Nat.add_mul_mod_self_right, Nat.mod_eq_of_lt i.isLt]

theorem Buffer.packetOf_div (i : Fin b.slots) (k : ℕ) : b.packetOf i k / b.slots = k := by
  rw [Buffer.packetOf, Nat.add_mul_div_right _ _ (Nat.zero_lt_of_lt i.isLt),
    Nat.div_eq_of_lt i.isLt, Nat.zero_add]

theorem Buffer.eq_packetOf {m k : ℕ} {i : Fin b.slots} (hMod : m % b.slots = i)
    (hDiv : m / b.slots = k) : m = b.packetOf i k := by
  rw [Buffer.packetOf, ← hMod, ← hDiv, Nat.mul_comm]
  exact (Nat.mod_add_div m b.slots).symm

theorem Buffer.wordAt_addressOf {m : ℕ} (hm : m < b.packets) :
    b.wordAt (b.addressOf m) = b.words * m := by
  have hLt : b.words * m < b.words * b.packets := Nat.mul_lt_mul_of_pos_left hm b.words_pos
  have hFits : b.address + 4 * (b.words * b.packets) ≤ 2 ^ 64 := b.fits
  rw [Buffer.wordAt, Buffer.addressOf, BitVec.toNat_ofNat, Nat.mod_eq_of_lt (by omega)]
  omega

theorem Buffer.slotJob_slot_ne {i j : Fin b.slots} (hij : i ≠ j) :
    (b.slotJob i).slot ≠ (b.slotJob j).slot := by
  intro hEq
  have hNum : numSlots = 8192 := rfl
  have hLe := b.slots_le
  have hi := i.isLt
  have hj := j.isLt
  have hNat := congrArg BitVec.toNat hEq
  simp only [BitVec.toNat_ofNat] at hNat
  rw [Nat.mod_eq_of_lt (by omega), Nat.mod_eq_of_lt (by omega)] at hNat
  exact hij (Fin.ext hNat)

/-- A payload of a whole packet covers the words of the packet and no others. -/
theorem writePayload_packet {memory : ℕ → Significand} {value : ℕ → Significand} {m p : ℕ} :
    writePayload memory (b.words * m) (b.read value m) p =
      if p / b.words = m then value p else memory p := by
  have hPos := b.words_pos
  have hWords : b.words = 32 * b.slices := rfl
  have hSplit := Nat.div_add_mod p b.words
  have hMod := Nat.mod_lt p hPos
  by_cases hIn : p / b.words = m
  · subst hIn
    have hSlice : (p - b.words * (p / b.words)) / 32 < b.slices := by omega
    rw [if_pos rfl, writePayload, if_pos (by omega), Buffer.read, List.getElem?_map,
      List.getElem?_range hSlice]
    show value (b.words * (p / b.words) + (32 * ((p - b.words * (p / b.words)) / 32) +
      (p - b.words * (p / b.words)) % 32)) = value p
    congr 1
    omega
  · rw [if_neg hIn, writePayload]
    split
    · next hLe =>
      have hOut : b.slices ≤ (p - b.words * m) / 32 := by
        have hNext : m + 1 ≤ p / b.words := by
          have hLe' : m ≤ p / b.words := (Nat.le_div_iff_mul_le hPos).mpr (by
            rw [Nat.mul_comm]
            exact hLe)
          omega
        have hMul : b.words * (m + 1) ≤ p :=
          (Nat.mul_le_mul_left _ hNext).trans (Nat.mul_div_le p b.words)
        rw [Nat.mul_add, Nat.mul_one] at hMul
        omega
      rw [Buffer.read, List.getElem?_eq_none (by simpa using hOut)]
    · rfl

end Layout

-- ---------------------------------------------------------------------------
-- Steps
-- ---------------------------------------------------------------------------

section Positions

variable {job : Job}

theorem arriveStep_progress (s : SlotState job.n) (w : Fin job.n) :
    (arriveStep job s w).progress = s.progress := by
  unfold arriveStep SlotState.progress
  repeat' split
  all_goals first
    | rfl
    | rw [SlotState.emit_pos, SlotState.emit_sent]

theorem recirculateStep_progress (d : Discipline) (s : SlotState job.n) (i : ℕ) :
    (recirculateStep job d s i).progress = s.progress := by
  unfold recirculateStep SlotState.progress
  repeat' split
  all_goals first
    | rfl
    | rw [SlotState.emit_pos, SlotState.emit_sent]

/-- A pass of a packet that is not for the slot. -/
theorem otherArrival_eq {d : Discipline} {s : SlotState job.n} {port : PortId} {rp : RocePacket}
    (hMiss : (receivedPoolIndex job.config.workers rp (s.regs (pipeOf port))).map PoolIndex.slot ≠
      some job.slot) :
    slotStep job d s (.otherArrival port rp) =
      { s with
        regs := Function.update s.regs (pipeOf port)
          (receiveRoce job.config {} port rp (s.regs (pipeOf port))).1 } := by
  simp only [slotStep]
  split
  · next p hSome =>
    rw [if_neg]
    intro hEq
    exact hMiss (by rw [hSome, Option.map_some, hEq])
  · rfl

theorem otherRecirculation_eq {d : Discipline} {s : SlotState job.n} {port : PortId} {pkt : Packet}
    (hMiss : pkt.md.poolIndex.slot ≠ job.slot) :
    slotStep job d s (.otherRecirculation port pkt) =
      { s with
        regs := Function.update s.regs (pipeOf port)
          (recirculate job.config port pkt (s.regs (pipeOf port))).1 } := by
  simp only [slotStep]
  rw [if_neg hMiss]

end Positions

/-- What a worker sends for chunk `k` of slot `i`, if its buffer has this content. -/
structure Buffer.Sends (b : Buffer) (memory : Fin b.n → ℕ → Significand) (i : Fin b.slots)
    (w : Fin b.n) (k : ℕ) (rp : RocePacket) : Prop where
  inside : b.packetOf i k < b.packets
  payload : rp.payload = b.read (memory w) (b.packetOf i k)
  addr : rp.reth.addr = b.addressOf (b.packetOf i k)
  rKey : rp.reth.rKey = ((b.slotJob i).pool k).zeroExtend 32
  opcode : rp.opcode = .rdmaWriteOnlyImmediate

/-- A reduction of a buffer that had the content `memory`. What is on the way is from this
content, also where it is overwritten by now. -/
structure InPlace (b : Buffer) (memory : Fin b.n → ℕ → Significand)
    (s : BufferState b.n b.slots) : Prop where
  served : ∀ i, Served (b.slotJob i) (b.Sends memory i) (s.slots i)
  regs : ∀ i j, (s.slots i).regs = (s.slots j).regs
  inside : ∀ w m, s.Answered w m → m < b.packets
  memory : ∀ w p, s.memory w p =
    if s.Answered w (p / b.words) then ∑ v, memory v p else memory w p

section Reduction

variable {b : Buffer} {memory : Fin b.n → ℕ → Significand} {s : BufferState b.n b.slots}

theorem inPlace_start (b : Buffer) (memory : Fin b.n → ℕ → Significand) :
    InPlace b memory (b.start memory) where
  served i := served_initial _ _
  regs _ _ := rfl
  inside := by
    rintro w m ⟨i, -, hLt⟩
    exact absurd hLt (Nat.not_lt_zero _)
  memory w p := by
    rw [if_neg]
    · rfl
    · rintro ⟨i, -, hLt⟩
      exact absurd hLt (Nat.not_lt_zero _)

/-- A step of one slot keeps what is known of the others. -/
theorem InPlace.served_on (h : InPlace b memory s) {i : Fin b.slots} {t : SlotState b.n}
    (hServed : Served (b.slotJob i) (b.Sends memory i) t)
    (hFrame : ∀ j, i ≠ j → ∀ x, SameSlot (b.slotJob j).slot ((s.slots i).regs x) (t.regs x))
    (j : Fin b.slots) : Served (b.slotJob j) (b.Sends memory j) ((s.on i t).slots j) := by
  by_cases hj : j = i
  · subst hj
    simpa only [BufferState.on, if_pos] using hServed
  · simp only [BufferState.on, if_neg hj]
    refine (h.served j).stay fun x => ?_
    rw [h.regs j i]
    exact hFrame j (Ne.symm hj) x

theorem BufferState.on_regs (s : BufferState b.n b.slots) (i j j' : Fin b.slots)
    (t : SlotState b.n) : ((s.on i t).slots j).regs = ((s.on i t).slots j').regs := by
  have hAll : ∀ j, ((s.on i t).slots j).regs = t.regs := by
    intro j
    simp only [BufferState.on]
    split <;> rfl
  rw [hAll j, hAll j']

theorem BufferState.on_progress (s : BufferState b.n b.slots) (i j : Fin b.slots)
    (t : SlotState b.n) :
    ((s.on i t).slots j).progress = if j = i then t.progress else (s.slots j).progress := by
  simp only [BufferState.on]
  split <;> rfl

theorem BufferState.on_pos (s : BufferState b.n b.slots) (i j : Fin b.slots)
    (t : SlotState b.n) :
    ((s.on i t).slots j).pos = if j = i then t.pos else (s.slots j).pos := by
  simp only [BufferState.on]
  split <;> rfl

/-- The worker has sent the chunk that it is at. -/
theorem Buffer.send_progress (s : BufferState b.n b.slots) (i : Fin b.slots) (w : Fin b.n)
    (rp : RocePacket) (j : Fin b.slots) (w' : Fin b.n) :
    ((b.step s (.send i w rp)).slots j).pos = (s.slots j).pos ∧
      (¬ (j = i ∧ w' = w) →
        ((b.step s (.send i w rp)).slots j).sent w' = (s.slots j).sent w') := by
  simp only [Buffer.step, slotStep, BufferState.on]
  split
  · by_cases hj : j = i
    · subst hj
      simp only [if_true, true_and]
      split
      · exact ⟨rfl, fun hw => Function.update_of_ne hw _ _⟩
      · exact ⟨rfl, fun _ => rfl⟩
    · simp [hj]
  · exact ⟨rfl, fun _ => rfl⟩

theorem Buffer.arrive_progress (s : BufferState b.n b.slots) (i : Fin b.slots) (w : Fin b.n)
    (j : Fin b.slots) : ((b.step s (.arrive i w)).slots j).progress = (s.slots j).progress := by
  simp only [Buffer.step, slotStep]
  rw [BufferState.on_progress, @arriveStep_progress (b.slotJob i)]
  split
  · next hj => rw [hj]
  · rfl

theorem Buffer.recirculate_progress (s : BufferState b.n b.slots) (i : Fin b.slots) (position : ℕ)
    (j : Fin b.slots) :
    ((b.step s (.recirculate i position)).slots j).progress = (s.slots j).progress := by
  simp only [Buffer.step, slotStep]
  rw [BufferState.on_progress, @recirculateStep_progress (b.slotJob i)]
  split
  · next hj => rw [hj]
  · rfl

theorem Buffer.otherArrival_progress (s : BufferState b.n b.slots) (port : PortId)
    (rp : RocePacket) (j : Fin b.slots) :
    ((b.step s (.otherArrival port rp)).slots j).progress = (s.slots j).progress := by
  simp only [Buffer.step]
  split
  · next hMiss => simp only [Buffer.all, otherArrival_eq (hMiss j), SlotState.progress]
  · rfl

theorem Buffer.otherRecirculation_progress (s : BufferState b.n b.slots) (port : PortId)
    (pkt : Packet) (j : Fin b.slots) :
    ((b.step s (.otherRecirculation port pkt)).slots j).progress = (s.slots j).progress := by
  simp only [Buffer.step]
  split
  · next hMiss =>
    have hMiss : pkt.md.poolIndex.slot ≠ (b.slotJob j).slot := hMiss j
    simp only [Buffer.all, otherRecirculation_eq hMiss, SlotState.progress]
  · rfl

/-- Steps that answer nothing. -/
theorem InPlace.quiet (h : InPlace b memory s) {i : Fin b.slots} {t : SlotState b.n}
    (hServed : Served (b.slotJob i) (b.Sends memory i) t)
    (hFrame : ∀ j, i ≠ j → ∀ x, SameSlot (b.slotJob j).slot ((s.slots i).regs x) (t.regs x))
    (hPos : t.pos = (s.slots i).pos) : InPlace b memory (s.on i t) := by
  have hAnswered : ∀ w m, (s.on i t).Answered w m ↔ s.Answered w m := by
    intro w m
    refine exists_congr fun j => and_congr_right fun _ => ?_
    rw [BufferState.on_pos]
    split
    · next hj => rw [hj, hPos]
    · rfl
  refine ⟨h.served_on hServed hFrame, fun j j' => s.on_regs i j j' t, fun w m hm => ?_,
    fun w p => ?_⟩
  · exact h.inside w m ((hAnswered w m).mp hm)
  · simp only [hAnswered]
    exact h.memory w p

/-- Passes of packets of other jobs. -/
theorem InPlace.all (h : InPlace b memory s) {label : SlotLabel b.n}
    (pass : (Fin 4 → Registers) → Fin 4 → Registers) (hLabel : ∀ w rp, label ≠ .send w rp)
    (hStep : ∀ i, slotStep (b.slotJob i) .reliable (s.slots i) label =
      { s.slots i with regs := pass (s.slots i).regs }) :
    InPlace b memory (b.all s label) where
  served i := (h.served i).step label fun w rp hSend => absurd hSend (hLabel w rp)
  regs i j := by
    simp only [Buffer.all, hStep, h.regs i j]
  inside w m hm := by
    simp only [BufferState.Answered, Buffer.all, hStep] at hm
    exact h.inside w m hm
  memory w p := by
    simp only [BufferState.Answered, Buffer.all, hStep]
    exact h.memory w p

theorem InPlace.otherArrival (h : InPlace b memory s) (port : PortId) (rp : RocePacket) :
    InPlace b memory (b.step s (.otherArrival port rp)) := by
  simp only [Buffer.step]
  split
  · next hMiss =>
    exact h.all (fun regs => Function.update regs (pipeOf port)
      (receiveRoce b.config {} port rp (regs (pipeOf port))).1) (fun _ _ => nofun)
      fun i => otherArrival_eq (hMiss i)
  · exact h

theorem InPlace.otherRecirculation (h : InPlace b memory s) (port : PortId) (pkt : Packet) :
    InPlace b memory (b.step s (.otherRecirculation port pkt)) := by
  simp only [Buffer.step]
  split
  · next hMiss =>
    exact h.all (fun regs => Function.update regs (pipeOf port)
      (SwitchML.recirculate b.config port pkt (regs (pipeOf port))).1) (fun _ _ => nofun)
      fun i => otherRecirculation_eq (hMiss i)
  · exact h

/-- The words of a packet that is not answered are still the worker's own. -/
theorem InPlace.read_next (h : InPlace b memory s) (i : Fin b.slots) (w : Fin b.n) :
    b.read (s.memory w) (b.packetOf i ((s.slots i).pos w)) =
      b.read (memory w) (b.packetOf i ((s.slots i).pos w)) := by
  refine List.map_congr_left fun j hj => funext fun x => ?_
  have hOffset : 32 * j + x.val < b.words := by
    have hj := List.mem_range.mp hj
    have hx := x.isLt
    rw [Buffer.words]
    omega
  have hPacket : (b.words * b.packetOf i ((s.slots i).pos w) + (32 * j + x.val)) / b.words =
      b.packetOf i ((s.slots i).pos w) := by
    rw [Nat.mul_add_div b.words_pos, Nat.div_eq_of_lt hOffset, Nat.add_zero]
  rw [h.memory, hPacket, if_neg]
  rintro ⟨i', hMod, hLt⟩
  rw [Buffer.packetOf_mod] at hMod
  rw [← Fin.ext hMod, Buffer.packetOf_div] at hLt
  exact Nat.lt_irrefl _ hLt

theorem InPlace.send (h : InPlace b memory s) (i : Fin b.slots) (w : Fin b.n) (rp : RocePacket) :
    InPlace b memory (b.step s (.send i w rp)) := by
  simp only [Buffer.step]
  split
  · next hInside =>
    refine h.quiet ((h.served i).step _ ?_) (fun j _ x => ?_) ?_
    · rintro w' rp' hLabel -
      cases hLabel
      exact ⟨hInside, h.read_next i w, rfl, rfl, rfl⟩
    · simp only [slotStep]
      split <;> exact SameSlot.refl _ _
    · simp only [slotStep]
      split <;> rfl
  · exact h

theorem InPlace.arrive (h : InPlace b memory s) (i : Fin b.slots) (w : Fin b.n) :
    InPlace b memory (b.step s (.arrive i w)) := by
  have hServed : Served (b.slotJob i) (b.Sends memory i) (arriveStep (b.slotJob i) (s.slots i) w) :=
    (h.served i).arrive w
  have hFrame : ∀ j, i ≠ j → ∀ x, SameSlot (b.slotJob j).slot ((s.slots i).regs x)
      ((arriveStep (b.slotJob i) (s.slots i) w).regs x) :=
    fun j hij => @arriveStep_frame (b.slotJob i) _ _ (Buffer.slotJob_slot_ne hij) w
  have hPos : (arriveStep (b.slotJob i) (s.slots i) w).pos = (s.slots i).pos :=
    congrArg Prod.fst (@arriveStep_progress (b.slotJob i) _ w)
  simp only [Buffer.step, slotStep]
  generalize arriveStep (b.slotJob i) (s.slots i) w = t at hServed hFrame hPos ⊢
  exact h.quiet hServed hFrame hPos

theorem InPlace.recirculate (h : InPlace b memory s) (i : Fin b.slots) (position : ℕ) :
    InPlace b memory (b.step s (.recirculate i position)) := by
  obtain ⟨a, hSim⟩ := (h.served i).sim
  have hServed : Served (b.slotJob i) (b.Sends memory i)
      (recirculateStep (b.slotJob i) .reliable (s.slots i) position) :=
    (h.served i).recirculate position
  have hFrame : ∀ j, i ≠ j → ∀ x, SameSlot (b.slotJob j).slot ((s.slots i).regs x)
      ((recirculateStep (b.slotJob i) .reliable (s.slots i) position).regs x) :=
    fun j hij => recirculateStep_frame (Buffer.slotJob_slot_ne hij) hSim.wellFormed position
  have hPos : (recirculateStep (b.slotJob i) .reliable (s.slots i) position).pos =
      (s.slots i).pos := congrArg Prod.fst (recirculateStep_progress _ _ position)
  simp only [Buffer.step, slotStep]
  generalize recirculateStep (b.slotJob i) .reliable (s.slots i) position = t
    at hServed hFrame hPos ⊢
  exact h.quiet hServed hFrame hPos

/-- The sums of packets of a buffer are a packet of the sums. -/
theorem Buffer.read_sum (b : Buffer) (memory : Fin b.n → ℕ → Significand) (m : ℕ)
    {rps : Fin b.n → RocePacket} (hRps : ∀ v, (rps v).payload = b.read (memory v) m) :
    ((List.range b.slices).map fun j x => ∑ v, (rps v).payload.getD j (fun _ => 0) x) =
      b.read (fun p => ∑ v, memory v p) m := by
  refine List.map_congr_left fun j hj => funext fun x => Finset.sum_congr rfl fun v _ => ?_
  rw [hRps v, Buffer.read, List.getD_eq_getElem?_getD, List.getElem?_map,
    List.getElem?_range (List.mem_range.mp hj)]
  rfl

/-- One more packet is answered. -/
theorem BufferState.answered_on {i : Fin b.slots} {w : Fin b.n} {t : SlotState b.n}
    (hPos : t.pos = Function.update (s.slots i).pos w ((s.slots i).pos w + 1)) (w' : Fin b.n)
    (m : ℕ) : (s.on i t).Answered w' m ↔
      s.Answered w' m ∨ w' = w ∧ m = b.packetOf i ((s.slots i).pos w) := by
  have hNew : ∀ j, ((s.on i t).slots j).pos w' =
      if j = i ∧ w' = w then (s.slots j).pos w' + 1 else (s.slots j).pos w' := by
    intro j
    rw [BufferState.on_pos]
    by_cases hj : j = i
    · subst hj
      by_cases hw : w' = w
      · subst hw
        rw [if_pos rfl, if_pos ⟨rfl, rfl⟩, hPos, Function.update_self]
      · rw [if_pos rfl, if_neg fun h => hw h.2, hPos, Function.update_of_ne hw]
    · rw [if_neg hj, if_neg fun h => hj h.1]
  constructor
  · rintro ⟨j, hMod, hLt⟩
    rw [hNew] at hLt
    split at hLt
    · next hHere =>
      obtain ⟨rfl, rfl⟩ := hHere
      rcases Nat.lt_succ_iff_lt_or_eq.mp hLt with hLt | hEq
      · exact .inl ⟨j, hMod, hLt⟩
      · exact .inr ⟨rfl, b.eq_packetOf hMod hEq⟩
    · exact .inl ⟨j, hMod, hLt⟩
  · rintro (⟨j, hMod, hLt⟩ | ⟨rfl, rfl⟩)
    · refine ⟨j, hMod, ?_⟩
      rw [hNew]
      split <;> omega
    · refine ⟨i, Buffer.packetOf_mod _ _, ?_⟩
      rw [hNew, if_pos ⟨rfl, rfl⟩, Buffer.packetOf_div]
      exact Nat.lt_succ_self _

/-- A reply is written to the packet that it answers. -/
theorem InPlace.land (h : InPlace b memory s) (i : Fin b.slots) (w : Fin b.n) :
    InPlace b memory (b.step s (.land i w)) := by
  simp only [Buffer.step]
  cases hDown : (s.slots i).downlink w with
  | nil => exact h
  | cons x rest =>
    obtain ⟨k, pkt⟩ := x
    obtain ⟨rfl, -, -, ⟨v, rp, hSends, hAddr⟩, rps, hRps, hPayload⟩ :=
      (h.served i).reply (by rw [hDown]; exact List.mem_cons_self)
    have hPos : (deliverStep (b.slotJob i) .reliable (s.slots i) w).pos = _ :=
      congrArg Prod.fst ((h.served i).deliver_progress hDown)
    have hRegs := @deliverStep_regs (b.slotJob i) .reliable (s.slots i) w
    have hServed := (h.served i).deliver w
    simp only [slotStep]
    generalize deliverStep (b.slotJob i) .reliable (s.slots i) w = t at hPos hRegs hServed ⊢
    have hAnswered := BufferState.answered_on hPos
    have hInside := hSends.inside
    rw [hAddr, hSends.addr, Buffer.wordAt_addressOf hInside,
      hPayload.trans (b.read_sum memory _ fun v => (hRps v).payload)]
    refine ⟨h.served_on hServed fun j _ x => ?_, fun j j' => s.on_regs i j j' t,
      fun w' m hm => ?_, fun w' p => ?_⟩
    · rw [hRegs]
      exact SameSlot.refl _ _
    · rcases (hAnswered w' m).mp hm with hm | ⟨-, rfl⟩
      · exact h.inside w' m hm
      · exact hInside
    · show Function.update s.memory w _ w' p =
        if (s.on i t).Answered w' (p / b.words) then _ else _
      simp only [hAnswered]
      by_cases hw : w' = w
      · subst hw
        rw [Function.update_self, writePayload_packet]
        by_cases hp : p / b.words = b.packetOf i ((s.slots i).pos w')
        · rw [if_pos hp, if_pos (.inr ⟨rfl, hp⟩)]
        · simp only [hp, and_false, or_false, if_false]
          exact h.memory w' p
      · rw [Function.update_of_ne hw]
        simp only [hw, false_and, or_false]
        exact h.memory w' p

theorem InPlace.land_progress (h : InPlace b memory s) {i : Fin b.slots} {w : Fin b.n}
    {x : ℕ × Packet} {rest : List (ℕ × Packet)} (hDown : (s.slots i).downlink w = x :: rest)
    (j : Fin b.slots) :
    ((b.step s (.land i w)).slots j).progress =
      if j = i then
        (Function.update (s.slots i).pos w ((s.slots i).pos w + 1),
          Function.update (s.slots i).sent w false)
      else (s.slots j).progress := by
  rw [← (h.served i).deliver_progress hDown]
  simp only [Buffer.step, hDown, slotStep]
  exact BufferState.on_progress s i j _

/-- **Step lemma.** -/
theorem InPlace.step (h : InPlace b memory s) (label : BufferLabel b.n b.slots) :
    InPlace b memory (b.step s label) := by
  cases label with
  | send i w rp => exact h.send i w rp
  | arrive i w => exact h.arrive i w
  | recirculate i position => exact h.recirculate i position
  | land i w => exact h.land i w
  | otherArrival port rp => exact h.otherArrival port rp
  | otherRecirculation port pkt => exact h.otherRecirculation port pkt

theorem InPlace.run (h : InPlace b memory s) (labels : List (BufferLabel b.n b.slots)) :
    InPlace b memory (b.run s labels) := by
  induction labels generalizing s with
  | nil => exact h
  | cons label labels ih => exact ih (h.step label)

/-- Only packets of the buffer are answered. -/
theorem InPlace.lt_of_answered (h : InPlace b memory s) {w : Fin b.n} {p : ℕ}
    (hAnswered : s.Answered w (p / b.words)) : p < b.words * b.packets := by
  rw [Nat.mul_comm]
  exact (Nat.div_lt_iff_lt_mul b.words_pos).mp (h.inside w _ hAnswered)

/-- **The slots of a reduction do not disturb each other, and nobody overwrites what is still to
be sent.** In every run, with 256-byte or 1024-byte packets, a worker's word is the sum of the
words that all workers had at the start as soon as the worker has the reply to its packet, and is
as it was at the start before. What is not part of the buffer is never written. -/
theorem allreduce_in_place (b : Buffer) (memory : Fin b.n → ℕ → Significand)
    (labels : List (BufferLabel b.n b.slots)) (w : Fin b.n) (p : ℕ) :
    let s := b.run (b.start memory) labels
    s.memory w p =
      if p < b.words * b.packets ∧ s.Answered w (p / b.words) then ∑ v, memory v p
      else memory w p := by
  intro s
  have h : InPlace b memory s := (inPlace_start b memory).run labels
  rw [h.memory w p]
  by_cases hAnswered : s.Answered w (p / b.words)
  · rw [if_pos hAnswered, if_pos ⟨h.lt_of_answered hAnswered, hAnswered⟩]
  · rw [if_neg hAnswered, if_neg fun hBoth => hAnswered hBoth.2]

end Reduction

end SwitchML
