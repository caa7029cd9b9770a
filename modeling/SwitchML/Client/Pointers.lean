import Mathlib.Order.CompletePartialOrder
import Mathlib.Order.SuccPred.IntervalSucc
import Mathlib.Data.Nat.SuccPred
import Mathlib.Tactic.Ring

/-!
# SwitchML client — the ranges of the threads

`compute_thread_pointers` cuts the buffer of a reduction into messages and hands each
thread a run of consecutive messages. Pointers are offsets from `src_buffer`, in floats.

* `startMessageIndex_succ`, `startMessageIndex_cores` — the message indices of the threads
  follow each other and end with the last message;
* `thread_ranges_partition` — the ranges of the pointers cut the buffer up in the same way
  if and only if there are at most two threads or at most two messages;
  `thread_ranges_overlap` is a reduction with three of each.
-/

namespace SwitchML.Client

-- ---------------------------------------------------------------------------
-- `compute_thread_pointers`
-- ---------------------------------------------------------------------------

/-- The command line flags that the threads read. -/
structure Flags where
  cores : ℕ
  slotsPerCore : ℕ
  messageSize : ℕ
  packetSize : ℕ

def sizeofFloat : ℕ := 4

section Pointers

variable (flags : Flags) (length : ℕ) (threadId : ℕ)

/-- The number of messages. With a `length` of 0 this is one message, also in C++, where
`-1 / message_size` is 0. -/
def totalMessages : ℕ := (length * sizeofFloat - 1) / flags.messageSize + 1

def baseMessagesPerThread : ℕ := totalMessages flags length / flags.cores

def adjustment : ℕ := totalMessages flags length % flags.cores

def adjustedMessagesPerThread : ℕ :=
  baseMessagesPerThread flags length + if threadId < adjustment flags length then 1 else 0

def startMessageIndex : ℕ :=
  threadId * baseMessagesPerThread flags length + min threadId (adjustment flags length)

def endMessageIndex : ℕ :=
  startMessageIndex flags length threadId + adjustedMessagesPerThread flags length threadId

def threadStartPointer : ℕ :=
  startMessageIndex flags length threadId * flags.messageSize / sizeofFloat

def threadEndPointer : ℕ :=
  min (threadStartPointer flags length threadId +
    endMessageIndex flags length threadId * flags.messageSize / sizeofFloat) length

/-- `i * FLAGS_message_size / sizeof(float)`, from the start of the thread to slot `i`. The
product is an `int`; for the division by a `size_t` it is extended to 64 bits. -/
def slotOffset (i : ℕ) : ℕ :=
  ((BitVec.ofNat 32 (i * flags.messageSize)).signExtend 64).toNat / sizeofFloat

/-- The floats that a thread sends. -/
def threadRange : Set ℕ :=
  Set.Ico (threadStartPointer flags length threadId) (threadEndPointer flags length threadId)

/-- The floats of the messages that a thread is to send; the last message of the buffer is
cut off. -/
def messageRange : Set ℕ :=
  Set.Ico (startMessageIndex flags length threadId * flags.messageSize / sizeofFloat)
    (min (endMessageIndex flags length threadId * flags.messageSize / sizeofFloat) length)

end Pointers

-- ---------------------------------------------------------------------------
-- Message indices
-- ---------------------------------------------------------------------------

section Indices

variable (flags : Flags) (length : ℕ)

@[simp] theorem startMessageIndex_zero : startMessageIndex flags length 0 = 0 := by
  simp [startMessageIndex]

/-- A thread ends where the next one starts. -/
theorem startMessageIndex_succ (t : ℕ) :
    startMessageIndex flags length (t + 1) = endMessageIndex flags length t := by
  unfold endMessageIndex startMessageIndex adjustedMessagesPerThread
  rw [Nat.add_mul, Nat.one_mul]
  split <;> omega

theorem startMessageIndex_mono : Monotone (startMessageIndex flags length) :=
  monotone_nat_of_le_succ fun t => by
    rw [startMessageIndex_succ]
    exact Nat.le_add_right _ _

/-- The last thread ends with the last message. -/
theorem startMessageIndex_cores (hCores : 0 < flags.cores) :
    startMessageIndex flags length flags.cores = totalMessages flags length := by
  have hLt : adjustment flags length < flags.cores := Nat.mod_lt _ hCores
  unfold startMessageIndex
  rw [Nat.min_eq_right (Nat.le_of_lt hLt)]
  exact Nat.div_add_mod _ _

theorem endMessageIndex_le {t : ℕ} (ht : t < flags.cores) :
    endMessageIndex flags length t ≤ totalMessages flags length := by
  rw [← startMessageIndex_succ, ← startMessageIndex_cores flags length (Nat.zero_lt_of_lt ht)]
  exact startMessageIndex_mono flags length ht

/-- While there are messages left, a thread gets one. -/
theorem adjustedMessagesPerThread_pos {t : ℕ} (ht : t < totalMessages flags length) :
    0 < adjustedMessagesPerThread flags length t := by
  have hSplit : flags.cores * baseMessagesPerThread flags length + adjustment flags length =
    totalMessages flags length := Nat.div_add_mod _ _
  unfold adjustedMessagesPerThread
  rcases Nat.eq_zero_or_pos (baseMessagesPerThread flags length) with hZero | hPos
  · rw [hZero, Nat.mul_zero, Nat.zero_add] at hSplit
    rw [hSplit, if_pos ht]
    omega
  · omega

theorem le_startMessageIndex {t : ℕ} (ht : t ≤ totalMessages flags length) :
    t ≤ startMessageIndex flags length t := by
  induction t with
  | zero => exact Nat.zero_le _
  | succ t ih =>
    have hPos := adjustedMessagesPerThread_pos flags length ht
    rw [startMessageIndex_succ, endMessageIndex]
    have := ih (Nat.le_of_succ_le ht)
    omega

end Indices

-- ---------------------------------------------------------------------------
-- Pointers
-- ---------------------------------------------------------------------------

def floatsPerMessage (flags : Flags) : ℕ := flags.messageSize / sizeofFloat

/-- What the message size has to be for messages to hold whole floats. -/
structure Flags.WholeFloats (flags : Flags) : Prop where
  pos : 0 < flags.messageSize
  dvd : sizeofFloat ∣ flags.messageSize

/-- The offsets of the slots are computed without overflow. Where the product overflows, the
program has no defined behaviour. -/
def Flags.SlotOffsetsFit (flags : Flags) : Prop :=
  ∀ i < flags.slotsPerCore, i * flags.messageSize < 2 ^ 31

instance (flags : Flags) : Decidable flags.SlotOffsetsFit :=
  inferInstanceAs (Decidable (∀ i < flags.slotsPerCore, i * flags.messageSize < 2 ^ 31))

section Ranges

variable {flags : Flags} {length : ℕ}

theorem Flags.WholeFloats.pointer_eq (h : flags.WholeFloats) (k : ℕ) :
    k * flags.messageSize / sizeofFloat = k * floatsPerMessage flags :=
  Nat.mul_div_assoc k h.dvd

theorem Flags.WholeFloats.messageSize_eq (h : flags.WholeFloats) :
    flags.messageSize = sizeofFloat * floatsPerMessage flags :=
  (Nat.mul_div_cancel' h.dvd).symm

theorem Flags.WholeFloats.floatsPerMessage_pos (h : flags.WholeFloats) :
    0 < floatsPerMessage flags := by
  have hPos := h.pos
  rw [h.messageSize_eq, sizeofFloat] at hPos
  omega

theorem Flags.SlotOffsetsFit.slotOffset_eq (hFit : flags.SlotOffsetsFit)
    (hWhole : flags.WholeFloats) (i : Fin flags.slotsPerCore) :
    slotOffset flags i = i * floatsPerMessage flags := by
  have hLt : i * flags.messageSize < 2 ^ 31 := hFit i i.isLt
  have hNat : (BitVec.ofNat 32 (i * flags.messageSize)).toNat = i * flags.messageSize := by
    rw [BitVec.toNat_ofNat, Nat.mod_eq_of_lt (by omega)]
  have hMsb : (BitVec.ofNat 32 (i * flags.messageSize)).msb = false := by
    rw [BitVec.msb_eq_false_iff_two_mul_lt, hNat]
    omega
  rw [slotOffset, BitVec.signExtend_eq_setWidth_of_msb_false hMsb, BitVec.toNat_setWidth, hNat,
    Nat.mod_eq_of_lt (by omega), hWhole.pointer_eq]

/-- The messages cover the buffer, and the last one is not empty. -/
theorem length_le_totalMessages (length : ℕ) (h : flags.WholeFloats) :
    length ≤ totalMessages flags length * floatsPerMessage flags := by
  have hLt : length * sizeofFloat - 1 < flags.messageSize * totalMessages flags length :=
    Nat.lt_mul_div_succ _ h.pos
  rw [h.messageSize_eq, Nat.mul_assoc, Nat.mul_comm (floatsPerMessage flags), sizeofFloat] at hLt
  omega

theorem lt_length_of_lt_totalMessages (h : flags.WholeFloats) (hLength : 0 < length) {k : ℕ}
    (hk : k < totalMessages flags length) : k * floatsPerMessage flags < length := by
  have hLe : k ≤ (length * sizeofFloat - 1) / flags.messageSize := Nat.lt_succ_iff.mp hk
  rw [Nat.le_div_iff_mul_le h.pos, h.messageSize_eq, Nat.mul_left_comm, sizeofFloat] at hLe
  omega

/-- Where the messages of thread `t` start, or the end of the buffer. -/
def cut (flags : Flags) (length t : ℕ) : ℕ :=
  min (startMessageIndex flags length t * floatsPerMessage flags) length

theorem cut_mono : Monotone (cut flags length) := fun _ _ hLe =>
  min_le_min_right _ (Nat.mul_le_mul_right _ (startMessageIndex_mono flags length hLe))

theorem messageRange_eq (h : flags.WholeFloats) (t : ℕ) :
    messageRange flags length t = Set.Ico (cut flags length t) (cut flags length (t + 1)) := by
  unfold messageRange cut
  rw [h.pointer_eq, h.pointer_eq, startMessageIndex_succ]
  ext x
  simp only [Set.mem_Ico]
  omega

/-- A monotone sequence of cuts leaves no gap. -/
theorem exists_cut {f : ℕ → ℕ} {x c : ℕ} (hStart : f 0 ≤ x) (hEnd : x < f c) :
    ∃ t < c, f t ≤ x ∧ x < f (t + 1) := by
  induction c with
  | zero => omega
  | succ c ih =>
    by_cases hx : x < f c
    · obtain ⟨t, ht, hIn⟩ := ih hx
      exact ⟨t, Nat.lt_succ_of_lt ht, hIn⟩
    · exact ⟨c, Nat.lt_succ_self c, Nat.le_of_not_lt hx, hEnd⟩

/-- The messages of the threads cut the buffer up. -/
theorem messageRange_partition (length : ℕ) (h : flags.WholeFloats) (hCores : 0 < flags.cores) :
    (Set.Iio flags.cores).PairwiseDisjoint (messageRange flags length) ∧
      (⋃ t ∈ Set.Iio flags.cores, messageRange flags length t) = Set.Ico 0 length := by
  have hEq : messageRange flags length = fun t => Set.Ico (cut flags length t)
    (cut flags length (Order.succ t)) := funext fun t => messageRange_eq h t
  refine ⟨?_, ?_⟩
  · rw [hEq]
    exact fun t _ t' _ hNe => cut_mono.pairwise_disjoint_on_Ico_succ hNe
  · ext x
    simp only [Set.mem_iUnion, Set.mem_Iio, exists_prop, messageRange_eq h, Set.mem_Ico,
      Nat.zero_le, true_and]
    constructor
    · rintro ⟨t, -, -, hx⟩
      exact Nat.lt_of_lt_of_le hx (Nat.min_le_right _ _)
    · intro hx
      refine exists_cut ?_ ?_
      · simp [cut]
      · have hLast := length_le_totalMessages length h
        rw [cut, startMessageIndex_cores flags length hCores]
        omega

/-- The pointers of a thread are right if it starts with the first message or ends with the
last. -/
theorem threadRange_eq (h : flags.WholeFloats) {t : ℕ}
    (ht : startMessageIndex flags length t = 0 ∨
      totalMessages flags length ≤ endMessageIndex flags length t) :
    threadRange flags length t = messageRange flags length t := by
  unfold threadRange messageRange threadEndPointer threadStartPointer
  rw [h.pointer_eq, h.pointer_eq]
  rcases ht with hZero | hEnd
  · rw [hZero, Nat.zero_mul, Nat.zero_add]
  · have hLast := length_le_totalMessages length h
    have hMul := Nat.mul_le_mul_right (floatsPerMessage flags) hEnd
    rw [Nat.min_eq_right (by omega), Nat.min_eq_right (by omega)]

/-- Of two threads, and with two messages, none is in the middle. -/
theorem start_or_end (hFew : flags.cores ≤ 2 ∨ totalMessages flags length ≤ 2) {t : ℕ}
    (ht : t < flags.cores) :
    startMessageIndex flags length t = 0 ∨
      totalMessages flags length ≤ endMessageIndex flags length t := by
  rcases Nat.eq_zero_or_pos t with rfl | hPos
  · exact .inl (startMessageIndex_zero flags length)
  refine .inr ?_
  rw [← startMessageIndex_succ]
  rcases hFew with hCores | hTotal
  · rw [show t + 1 = flags.cores by omega, startMessageIndex_cores flags length (by omega)]
  · have hMono := startMessageIndex_mono flags length (show totalMessages flags length ≤ t + 1 by
      omega)
    exact (le_startMessageIndex flags length (Nat.le_refl _)).trans hMono

/-- With three threads and three messages, threads 1 and 2 share a float. -/
theorem threads_overlap (h : flags.WholeFloats) (hLength : 0 < length)
    (hTotal : 2 < totalMessages flags length) (hCores : 2 < flags.cores) :
    startMessageIndex flags length 2 * floatsPerMessage flags ∈
      threadRange flags length 1 ∩ threadRange flags length 2 := by
  have hFloats := h.floatsPerMessage_pos
  have hEnd : startMessageIndex flags length 2 = endMessageIndex flags length 1 :=
    startMessageIndex_succ flags length 1
  have h2 : startMessageIndex flags length 2 < endMessageIndex flags length 2 :=
    Nat.lt_add_of_pos_right (adjustedMessagesPerThread_pos flags length hTotal)
  have hIn := lt_length_of_lt_totalMessages h hLength
    (Nat.lt_of_lt_of_le h2 (endMessageIndex_le flags length hCores))
  have hStart := le_startMessageIndex flags length (t := 1) (by omega)
  have hMono := Nat.mul_le_mul_right (floatsPerMessage flags)
    (startMessageIndex_mono flags length (show 1 ≤ 2 by decide))
  have hPos1 := Nat.mul_pos hStart hFloats
  have hPos2 := Nat.mul_pos (Nat.zero_lt_of_lt h2) hFloats
  unfold threadRange threadEndPointer threadStartPointer
  simp only [h.pointer_eq, Set.mem_inter_iff, Set.mem_Ico, ← hEnd]
  omega

/-- The ranges of the threads are disjoint, make up the buffer, and are those of their
messages. -/
def RangesPartition (flags : Flags) (length : ℕ) : Prop :=
  (Set.Iio flags.cores).PairwiseDisjoint (threadRange flags length) ∧
  (⋃ t ∈ Set.Iio flags.cores, threadRange flags length t) = Set.Ico 0 length ∧
  ∀ t < flags.cores, threadRange flags length t = messageRange flags length t

/-- **The threads' ranges.** With messages of whole floats, the ranges that the threads
compute cut the buffer up if and only if there are at most two threads or at most two
messages. -/
theorem thread_ranges_partition (flags : Flags) (length : ℕ) (hLength : 0 < length)
    (hCores : 1 ≤ flags.cores) (hSize : 0 < flags.messageSize)
    (hFloats : sizeofFloat ∣ flags.messageSize) :
    RangesPartition flags length ↔ flags.cores ≤ 2 ∨ totalMessages flags length ≤ 2 := by
  have h : flags.WholeFloats := ⟨hSize, hFloats⟩
  constructor
  · rintro ⟨hDisjoint, -⟩
    by_contra hMany
    rw [not_or, Nat.not_le, Nat.not_le] at hMany
    obtain ⟨hThreads, hTotal⟩ := hMany
    have hShared := threads_overlap h hLength hTotal hThreads
    exact Set.disjoint_left.mp (hDisjoint (Set.mem_Iio.mpr (show 1 < flags.cores by omega))
      (Set.mem_Iio.mpr hThreads) (by decide)) hShared.1 hShared.2
  · intro hFew
    have hEq : ∀ t < flags.cores, threadRange flags length t = messageRange flags length t :=
      fun t ht => threadRange_eq h (start_or_end hFew ht)
    obtain ⟨hDisjoint, hUnion⟩ := messageRange_partition length h hCores
    refine ⟨fun t ht t' ht' hNe => ?_, ?_, hEq⟩
    · rw [Function.onFun_apply, hEq t ht, hEq t' ht']
      exact hDisjoint ht ht' hNe
    · rw [← hUnion]
      exact Set.iUnion₂_congr hEq

/-- Two threads and three messages of one float each. -/
theorem thread_ranges_partition_two :
    let flags : Flags := { cores := 2, slotsPerCore := 1, messageSize := 4, packetSize := 4 }
    RangesPartition flags 3 ↔ flags.cores ≤ 2 ∨ totalMessages flags 3 ≤ 2 := by
  intro flags
  exact thread_ranges_partition flags 3 (by decide) (by decide) (by decide) (by decide)

/-- **Threads that send the same floats.** Three threads, three messages of 1024 floats:
thread 1 sends message 1 and also message 2, which is thread 2's. -/
theorem thread_ranges_overlap :
    let flags : Flags := { cores := 3, slotsPerCore := 1, messageSize := 4096, packetSize := 256 }
    (List.range 3).map (startMessageIndex flags 3072) = [0, 1, 2] ∧
    (List.range 3).map (endMessageIndex flags 3072) = [1, 2, 3] ∧
    (List.range 3).map (threadStartPointer flags 3072) = [0, 1024, 2048] ∧
    (List.range 3).map (threadEndPointer flags 3072) = [1024, 3072, 3072] ∧
    ¬ RangesPartition flags 3072 := by
  refine ⟨by decide, by decide, by decide, by decide, fun h => ?_⟩
  have hDisjoint := h.1 (Set.mem_Iio.mpr (show 1 < 3 by decide))
    (Set.mem_Iio.mpr (show 2 < 3 by decide)) (by decide)
  have hMem : ∀ t, t = 1 ∨ t = 2 → 2048 ∈ threadRange
      { cores := 3, slotsPerCore := 1, messageSize := 4096, packetSize := 256 } 3072 t := by
    rintro t (rfl | rfl) <;> exact Set.mem_Ico.mpr (by decide)
  exact Set.disjoint_left.mp hDisjoint (hMem 1 (.inl rfl)) (hMem 2 (.inr rfl))

end Ranges

end SwitchML.Client
