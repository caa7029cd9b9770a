import Mathlib.Algebra.BigOperators.Group.Finset.Basic
import Mathlib.Algebra.BigOperators.Fin
import Mathlib.Data.Finset.Lattice.Fold
import SwitchML.Lib.Bitmap
import SwitchML.Protocol.SlotMachine
import SwitchML.Switch.Pass

/-!
# SwitchML protocol — what the registers of a pipe stand for

A pipe that has taken `c w` chunks from each worker `w` keeps, for the two sets of
the slot, who is in, how many are missing, and the sums. `Represents` says this of
the registers. It holds as long as no worker is more than one chunk ahead of
another.

* `Represents.consume_new` — a consume pass of a worker's next chunk keeps it, with
  the count of the worker gone up;
* `Represents.consume_dup` — a consume pass of a chunk that was taken keeps it;
* `flag_new`, `flag_dup` lemmas — what the pass tells `next_step`.
-/

namespace SwitchML

open scoped BigOperators

-- ---------------------------------------------------------------------------
-- Sets and pool indices of a job
-- ---------------------------------------------------------------------------

namespace Job

variable (job : Job)

theorem set_eq_iff {k k' : ℕ} : job.set k = job.set k' ↔ k % 2 = k' % 2 := by
  unfold Job.set
  rcases Nat.mod_two_eq_zero_or_one k with h | h <;>
    rcases Nat.mod_two_eq_zero_or_one k' with h' | h' <;> simp [h, h']

@[simp] theorem pool_slot (k : ℕ) : (job.pool k).slot = job.slot := by
  simp [Job.pool]

@[simp] theorem pool_set (k : ℕ) : (job.pool k).set = job.set k := by
  simp [Job.pool]

theorem pool_eq_iff {k k' : ℕ} : job.pool k = job.pool k' ↔ k % 2 = k' % 2 := by
  rw [Job.pool, Job.pool, PoolIndex.mk_inj, job.set_eq_iff]
  simp

end Job

-- ---------------------------------------------------------------------------
-- The representation
-- ---------------------------------------------------------------------------

/-- The workers from which more than `k` chunks were taken. -/
def taken {n : ℕ} (c : Fin n → ℕ) (k : ℕ) : Finset (Fin n) := Finset.univ.filter fun w => k < c w

theorem mem_taken {n : ℕ} {c : Fin n → ℕ} {k : ℕ} {w : Fin n} : w ∈ taken c k ↔ k < c w := by
  simp [taken]

/-- Two register files that agree on the slot. -/
structure SameSlot (slot : SlotIndex) (regs regs' : Registers) : Prop where
  bitmap : ∀ p : PoolIndex, p.slot = slot → regs'.bitmap p = regs.bitmap p
  workerCount : ∀ p : PoolIndex, p.slot = slot → regs'.workerCount p = regs.workerCount p
  exponents : ∀ p : PoolIndex, p.slot = slot → regs'.exponents p = regs.exponents p
  significands : ∀ j, ∀ p : PoolIndex, p.slot = slot →
    regs'.significands j p = regs.significands j p

/-- The registers of a pipe stand for `c w` chunks taken from each worker `w`, where
worker `w` put `x w k` into the sums of chunk `k`. Only the sets in `used` are spoken
of. A chunk of which nobody's successor but one was taken is still there. -/
structure Represents (job : Job) (used : Bool → Prop) (regs : Registers)
    (c : Fin job.n → ℕ) (x : Fin job.n → ℕ → Data × Data) : Prop where
  bits : ∀ σ, used σ → Bitmap.Holds (regs.bitmap (PoolIndex.mk job.slot σ))
    (Finset.univ.filter fun w => 0 < c w ∧ job.set (c w - 1) = σ)
  count : ∀ k, used (job.set k) → (∀ w, k ≤ c w + 1 ∧ c w ≤ k + 2) →
    regs.workerCount (job.pool k) = BitVec.ofNat 8 ((job.n - (taken c k).card) % job.n)
  sums : ∀ k, used (job.set k) → (∃ w, k < c w) → (∀ w, c w ≤ k + 2) → ∀ j,
    regs.significands j (job.pool k) =
      ⟨∑ w ∈ taken c k, (x w k).1 j, ∑ w ∈ taken c k, (x w k).2 j⟩

theorem Represents.congr {job : Job} {used : Bool → Prop} {regs regs' : Registers}
    {c : Fin job.n → ℕ} {x : Fin job.n → ℕ → Data × Data} (h : Represents job used regs c x)
    (hSame : SameSlot job.slot regs regs') : Represents job used regs' c x where
  bits σ hσ := by
    rw [hSame.bitmap _ (PoolIndex.slot_mk _ _)]
    exact h.bits σ hσ
  count k hk hc := by
    rw [hSame.workerCount _ (job.pool_slot k)]
    exact h.count k hk hc
  sums k hk hSome hc j := by
    rw [hSame.significands j _ (job.pool_slot k)]
    exact h.sums k hk hSome hc j

/-- Only what was taken matters. -/
theorem Represents.congr_data {job : Job} {used : Bool → Prop} {regs : Registers}
    {c : Fin job.n → ℕ} {x x' : Fin job.n → ℕ → Data × Data} (h : Represents job used regs c x)
    (hx : ∀ w k, k < c w → x' w k = x w k) : Represents job used regs c x' where
  bits := h.bits
  count := h.count
  sums k hk hSome hc j := by
    rw [h.sums k hk hSome hc j]
    congr 1
    · exact Finset.sum_congr rfl fun w hw => by rw [hx w k (mem_taken.mp hw)]
    · exact Finset.sum_congr rfl fun w hw => by rw [hx w k (mem_taken.mp hw)]

-- ---------------------------------------------------------------------------
-- What a consume pass finds
-- ---------------------------------------------------------------------------

section Find

variable {job : Job} {used : Bool → Prop} {regs : Registers} {c : Fin job.n → ℕ}
  {x : Fin job.n → ℕ → Data × Data}

/-- While chunk `k` fills up, the bitmap of its set says who is in. -/
theorem Represents.bits_filling (h : Represents job used regs c x) {k : ℕ}
    (hUsed : used (job.set k)) (hc : ∀ w, k ≤ c w ∧ c w ≤ k + 1) :
    Bitmap.Holds (regs.bitmap (job.pool k)) (taken c k) := by
  have hBits := h.bits (job.set k) hUsed
  have hEq : (Finset.univ.filter fun w => 0 < c w ∧ job.set (c w - 1) = job.set k) =
      taken c k := by
    ext w
    have := hc w
    simp only [Finset.mem_filter, Finset.mem_univ, true_and, mem_taken, job.set_eq_iff]
    omega
  rw [hEq] at hBits
  exact hBits

theorem Represents.bitmap_eq_zero (h : Represents job used regs c x) {k : ℕ}
    (hUsed : used (job.set k)) (hc : ∀ w, k ≤ c w ∧ c w ≤ k + 1) :
    regs.bitmap (job.pool k) = 0 ↔ taken c k = ∅ :=
  (h.bits_filling hUsed hc).eq_zero_iff

/-- The bit of a worker whose chunk `k` was taken last is set. -/
theorem Represents.bit_set (h : Represents job used regs c x) {k : ℕ}
    (hUsed : used (job.set k)) {w : Fin job.n} (hw : c w = k + 1) :
    ∃ S, Bitmap.Holds (regs.bitmap (job.pool k)) S ∧ w ∈ S := by
  refine ⟨_, h.bits (job.set k) hUsed, ?_⟩
  simp [hw]

/-- A packet of `w` for chunk `k` in a consume pass. -/
structure ConsumeReady (job : Job) (w : Fin job.n) (k : ℕ) (st : PassState) : Prop where
  poolIndex : st.md.poolIndex = job.pool k
  workerBitmap : st.workerBitmap = (1#32) <<< w.val
  numWorkers : st.md.numWorkers = BitVec.ofNat 8 job.n

variable {w : Fin job.n} {k : ℕ} {st : PassState}

theorem Job.n_le_32 (job : Job) : job.n ≤ 32 := job.n_le

theorem ofNat8_eq_iff {a b : ℕ} (ha : a ≤ 32) (hb : b ≤ 32) :
    BitVec.ofNat 8 a = BitVec.ofNat 8 b ↔ a = b := by
  rw [← BitVec.toNat_inj, BitVec.toNat_ofNat, BitVec.toNat_ofNat, Nat.mod_eq_of_lt (by omega),
    Nat.mod_eq_of_lt (by omega)]

theorem Represents.map_new (h : Represents job used regs c x) (hReady : ConsumeReady job w k st)
    (hUsed : used (job.set k)) (hc : ∀ w', k ≤ c w' ∧ c w' ≤ k + 1) (hw : c w = k) :
    consumeMap regs st = 0 := by
  unfold consumeMap
  rw [hReady.poolIndex, hReady.workerBitmap]
  refine ((h.bits_filling hUsed hc).test_bit job.n_le_32 w).mpr ?_
  rw [mem_taken]
  omega

theorem Represents.map_dup (h : Represents job used regs c x) (hReady : ConsumeReady job w k st)
    (hUsed : used (job.set k)) (hw : c w = k + 1) : consumeMap regs st ≠ 0 := by
  unfold consumeMap
  rw [hReady.poolIndex, hReady.workerBitmap]
  obtain ⟨S, hS, hMem⟩ := h.bit_set hUsed hw
  intro hZero
  exact (hS.test_bit job.n_le_32 w).mp hZero hMem

theorem card_taken_lt {n : ℕ} {c : Fin n → ℕ} {w : Fin n} (hw : c w ≤ k) :
    (taken c k).card < n := by
  have hLt := Finset.card_lt_univ_of_notMem (s := taken c k) (x := w) (by
    rw [mem_taken]
    omega)
  simpa using hLt

theorem card_taken_pos {n : ℕ} {c : Fin n → ℕ} {w : Fin n} (hw : k < c w) : 0 < (taken c k).card :=
  Finset.card_pos.mpr ⟨w, mem_taken.mpr hw⟩

theorem card_taken_le {n : ℕ} {c : Fin n → ℕ} : (taken c k).card ≤ n := by
  simpa using Finset.card_le_univ (taken c k)

theorem card_taken_eq_iff {n : ℕ} {c : Fin n → ℕ} : (taken c k).card = n ↔ ∀ w', k < c w' := by
  constructor
  · intro hCard w'
    have hUniv : taken c k = Finset.univ :=
      (Finset.card_eq_iff_eq_univ _).mp (by simpa using hCard)
    exact mem_taken.mp (hUniv ▸ Finset.mem_univ w')
  · intro hAll
    have hUniv : taken c k = Finset.univ :=
      Finset.eq_univ_iff_forall.mpr fun w' => mem_taken.mpr (hAll w')
    simp [hUniv]

theorem card_taken_eq_zero_iff {n : ℕ} {c : Fin n → ℕ} : (taken c k).card = 0 ↔ ∀ w', c w' ≤ k := by
  rw [Finset.card_eq_zero, Finset.eq_empty_iff_forall_notMem]
  simp [mem_taken]

/-- The workers in when `w` comes in. -/
theorem taken_update {n : ℕ} {c : Fin n → ℕ} {w : Fin n} (hw : c w = k) :
    taken (Function.update c w (k + 1)) k = insert w (taken c k) := by
  ext w'
  by_cases h : w' = w
  · subst h
    simp [mem_taken]
  · simp [mem_taken, h]

theorem card_taken_update {n : ℕ} {c : Fin n → ℕ} {w : Fin n} (hw : c w = k) :
    (taken (Function.update c w (k + 1)) k).card = (taken c k).card + 1 := by
  rw [taken_update hw, Finset.card_insert_of_notMem (by simp [mem_taken, hw])]

theorem mod_sub_eq (job : Job) (s : ℕ) :
    (job.n - s) % job.n = if s = 0 then 0 else job.n - s := by
  have hPos := job.n_pos
  split
  · next hZero => simp [hZero]
  · next hNe => exact Nat.mod_eq_of_lt (by omega)

theorem numWorkers_eq_one (hReady : ConsumeReady job w k st) :
    st.md.numWorkers = 1 ↔ job.n = 1 := by
  rw [hReady.numWorkers]
  exact ofNat8_eq_iff (b := 1) job.n_le_32 (by omega)

/-- The flag a new packet is given: the number of workers that are not in yet, itself
included, or 0 if nobody is in. A single worker is always told 1. -/
theorem Represents.flag_new (h : Represents job used regs c x) (hReady : ConsumeReady job w k st)
    (hUsed : used (job.set k)) (hc : ∀ w', k ≤ c w' ∧ c w' ≤ k + 1) (hw : c w = k) {b : ℕ}
    (hb : b ≤ 32) :
    consumeFlag regs st = BitVec.ofNat 8 b ↔
      b = if job.n = 1 then 1 else if (taken c k).card = 0 then 0
        else job.n - (taken c k).card := by
  have hNle := job.n_le_32
  unfold consumeFlag slotFlag
  rw [h.map_new hReady hUsed hc hw, hReady.poolIndex,
    h.count k hUsed (fun w' => ⟨by have := hc w'; omega, by have := hc w'; omega⟩),
    mod_sub_eq, if_pos rfl]
  by_cases hn : job.n = 1
  · rw [if_pos ((numWorkers_eq_one hReady).mpr hn), if_pos hn]
    exact (ofNat8_eq_iff (a := 1) (by omega) hb).trans eq_comm
  · rw [if_neg (fun hOne => hn ((numWorkers_eq_one hReady).mp hOne)), if_neg hn,
      ofNat8_eq_iff (by split <;> omega) hb]
    exact eq_comm

/-- A new packet is told to be the last one exactly if all other workers are in. -/
theorem Represents.flag_new_one (h : Represents job used regs c x)
    (hReady : ConsumeReady job w k st) (hUsed : used (job.set k))
    (hc : ∀ w', k ≤ c w' ∧ c w' ≤ k + 1) (hw : c w = k) :
    consumeFlag regs st = 1 ↔ ∀ w', k < Function.update c w (k + 1) w' := by
  have hCard := card_taken_lt (c := c) (w := w) (k := k) (by omega)
  rw [← card_taken_eq_iff, card_taken_update hw]
  refine (h.flag_new hReady hUsed hc hw (b := 1) (by omega)).trans ?_
  split
  · omega
  · split <;> omega

/-- A new packet is told to be the first one exactly if nobody is in, and there is more
than one worker. -/
theorem Represents.flag_new_zero (h : Represents job used regs c x)
    (hReady : ConsumeReady job w k st) (hUsed : used (job.set k))
    (hc : ∀ w', k ≤ c w' ∧ c w' ≤ k + 1) (hw : c w = k) :
    consumeFlag regs st = 0 ↔ job.n ≠ 1 ∧ ∀ w', c w' ≤ k := by
  have hCard := card_taken_lt (c := c) (w := w) (k := k) (by omega)
  rw [← card_taken_eq_zero_iff]
  refine (h.flag_new hReady hUsed hc hw (b := 0) (by omega)).trans ?_
  split
  · omega
  · split <;> omega

/-- A duplicate finds a full slot exactly if all workers are in. -/
theorem Represents.flag_dup_zero (h : Represents job used regs c x)
    (hReady : ConsumeReady job w k st) (hUsed : used (job.set k))
    (hc : ∀ w', k ≤ c w' + 1 ∧ c w' ≤ k + 2) (hw : c w = k + 1) :
    consumeFlag regs st = 0 ↔ ∀ w', k < c w' := by
  have hCard := card_taken_pos (c := c) (w := w) (k := k) (by omega)
  have hLe := card_taken_le (c := c) (k := k)
  have hNle := job.n_le_32
  rw [← card_taken_eq_iff]
  unfold consumeFlag slotFlag
  rw [if_neg (h.map_dup hReady hUsed hw), hReady.poolIndex, h.count k hUsed hc,
    Nat.mod_eq_of_lt (by omega)]
  by_cases hn : job.n = 1
  · rw [if_pos ((numWorkers_eq_one hReady).mpr hn)]
    simp
    omega
  · rw [if_neg (fun hOne => hn ((numWorkers_eq_one hReady).mp hOne))]
    rw [show (0 : NumWorkers) = BitVec.ofNat 8 0 from rfl, ofNat8_eq_iff (by omega) (by omega)]
    omega

/-- A duplicate that takes a slot for just filled up has seen a count of one. -/
theorem consumeFlag_dup_one (hMap : consumeMap regs st ≠ 0) (hFlag : consumeFlag regs st = 1) :
    regs.workerCount st.md.poolIndex = 1 := by
  unfold consumeFlag slotFlag at hFlag
  rw [if_neg hMap] at hFlag
  split at hFlag
  · exact absurd hFlag (by decide)
  · exact hFlag

end Find

-- ---------------------------------------------------------------------------
-- What a consume pass does
-- ---------------------------------------------------------------------------

section Consume

variable {job : Job} {used : Bool → Prop} {regs : Registers} {c : Fin job.n → ℕ}
  {x : Fin job.n → ℕ → Data × Data} {w : Fin job.n} {k : ℕ} {st : PassState} {i : Fin 4}

theorem bitmap_consumeRegs (q : PoolIndex) :
    (consumeRegs regs st i).bitmap q =
      (regs.recordWorker st.md.poolIndex st.workerBitmap).bitmap q := rfl

/-- The bitmaps after a consume pass, whoever is in. -/
theorem Represents.bits_consume (h : Represents job used regs c x)
    (hReady : ConsumeReady job w k st) {σ : Bool} (hUsed : used σ) :
    Bitmap.Holds ((consumeRegs regs st i).bitmap (PoolIndex.mk job.slot σ))
      (Finset.univ.filter fun w' => if w' = w then job.set k = σ
        else 0 < c w' ∧ job.set (c w' - 1) = σ) := by
  rw [bitmap_consumeRegs, Registers.bitmap_recordWorker, hReady.poolIndex, hReady.workerBitmap]
  simp only [PoolIndex.slot_mk, PoolIndex.set_mk, Job.pool_slot, Job.pool_set, if_true]
  by_cases hSet : σ = job.set k
  · rw [if_pos hSet]
    have hBits := (h.bits σ hUsed).set_bit job.n_le_32 w
    convert hBits using 1
    ext w'
    by_cases hw : w' = w <;> simp [hw, hSet]
  · rw [if_neg hSet]
    have hBits := (h.bits σ hUsed).clear_bit job.n_le_32 w
    convert hBits using 1
    ext w'
    by_cases hw : w' = w
    · simp [hw, Ne.symm hSet]
    · simp [hw]

theorem workerCount_consumeRegs (hMap : consumeMap regs st = 0) (q : PoolIndex) :
    (consumeRegs regs st i).workerCount q =
      if q = st.md.poolIndex then
        (workerCountAction st.md.numWorkers (regs.workerCount st.md.poolIndex)).1
      else regs.workerCount q := by
  simp only [consumeRegs, hMap, if_true, Function.update_apply]

theorem significands_consumeRegs (hMap : consumeMap regs st = 0) (j : Fin 32) (q : PoolIndex) :
    (consumeRegs regs st i).significands j q =
      if q = st.md.poolIndex then newSignificands regs st j else regs.significands j q := by
  simp only [consumeRegs, hMap, if_true, Function.update_apply]

/-- Counting down is taking one more worker in. -/
theorem workerCountAction_taken (job : Job) {s : ℕ} (hs : s < job.n) :
    (workerCountAction (BitVec.ofNat 8 job.n) (BitVec.ofNat 8 ((job.n - s) % job.n))).1 =
      BitVec.ofNat 8 ((job.n - (s + 1)) % job.n) := by
  have hNle := job.n_le_32
  have hSub : ∀ a, 0 < a → a ≤ 32 → BitVec.ofNat 8 a - 1 = BitVec.ofNat 8 (a - 1) := by
    intro a ha hLe
    apply BitVec.eq_of_toNat_eq
    rw [show (1 : BitVec 8) = 1#8 from rfl]
    simp only [BitVec.toNat_sub, BitVec.toNat_ofNat]
    omega
  unfold workerCountAction
  rw [mod_sub_eq, mod_sub_eq, if_neg (Nat.succ_ne_zero s)]
  by_cases hZero : s = 0
  · simp only [hZero, if_true]
    rw [if_pos (show 0#8 = 0 from rfl), hSub _ (by omega) hNle]
  · rw [if_neg hZero, if_neg, hSub _ (by omega) (by omega)]
    · congr 1
    · intro hEq
      have := (ofNat8_eq_iff (a := job.n - s) (b := 0) (by omega) (by omega)).mp hEq
      omega

/-- **A new packet.** -/
theorem Represents.consume_new (h : Represents job used regs c x)
    (hReady : ConsumeReady job w k st) (hUsed : used (job.set k))
    (hc : ∀ w', k ≤ c w' ∧ c w' ≤ k + 1) (hw : c w = k) (hx : x w k = (st.d0, st.d1)) :
    Represents job used (consumeRegs regs st i) (Function.update c w (k + 1)) x := by
  have hMap := h.map_new hReady hUsed hc hw
  have hLt := card_taken_lt (c := c) (w := w) (k := k) (by omega)
  have hOld : ∀ w', k ≤ c w' + 1 ∧ c w' ≤ k + 2 := fun w' => by have := hc w'; omega
  have hUpdate : ∀ w', Function.update c w (k + 1) w' = if w' = w then k + 1 else c w' :=
    fun w' => Function.update_apply ..
  -- the set of another chunk is that of `k` or not, and then it is as it was
  have hTaken : ∀ k', k' % 2 ≠ k % 2 → taken (Function.update c w (k + 1)) k' = taken c k' := by
    intro k' hk'
    ext w'
    rw [mem_taken, mem_taken, hUpdate]
    by_cases hEq : w' = w
    · rw [if_pos hEq, hEq, hw]
      omega
    · rw [if_neg hEq]
  refine ⟨fun σ hσ => ?_, fun k' hk' hc' => ?_, fun k' hk' hSome hc' j => ?_⟩
  · have hBits := h.bits_consume (i := i) hReady hσ
    convert hBits using 1
    ext w'
    by_cases hEq : w' = w <;> simp [hUpdate, hEq]
  · rw [workerCount_consumeRegs hMap, hReady.poolIndex]
    simp only [job.pool_eq_iff]
    have hHere := hc' w
    rw [hUpdate, if_pos rfl] at hHere
    by_cases hPar : k' % 2 = k % 2
    · rw [if_pos hPar, hReady.numWorkers, h.count k hUsed hOld, workerCountAction_taken job hLt,
        ← card_taken_update hw]
      by_cases hEq : k' = k
      · rw [hEq]
      · -- then everybody is in for `k`, and nobody for `k + 2`
        have hNone : (taken (Function.update c w (k + 1)) k').card = 0 :=
          card_taken_eq_zero_iff.mpr fun w' => by
            have := hc w'
            rw [hUpdate]
            split <;> omega
        have hAll : (taken (Function.update c w (k + 1)) k).card = job.n :=
          card_taken_eq_iff.mpr fun w' => by
            have := (hc' w').1
            omega
        rw [hNone, hAll]
        simp
    · rw [if_neg hPar, hTaken k' hPar]
      refine h.count k' hk' fun w' => ?_
      have := hc w'
      omega
  · rw [significands_consumeRegs hMap, hReady.poolIndex]
    simp only [job.pool_eq_iff]
    have hHere := hc' w
    rw [hUpdate, if_pos rfl] at hHere
    have hLe : k' ≤ k := by
      obtain ⟨w', hw'⟩ := hSome
      have := hc w'
      rw [hUpdate] at hw'
      split at hw' <;> omega
    by_cases hPar : k' % 2 = k % 2
    · obtain rfl : k' = k := by omega
      rw [if_pos hPar, taken_update hw, Finset.sum_insert (by simp [mem_taken, hw]),
        Finset.sum_insert (by simp [mem_taken, hw]), hx]
      unfold newSignificands
      rw [hReady.poolIndex]
      dsimp only
      by_cases hEmpty : taken c k' = ∅
      · rw [if_pos ((h.bitmap_eq_zero hUsed hc).mpr hEmpty), hEmpty]
        simp
      · rw [if_neg fun hZero => hEmpty ((h.bitmap_eq_zero hUsed hc).mp hZero)]
        obtain ⟨w', hw'⟩ := Finset.nonempty_iff_ne_empty.mpr hEmpty
        rw [h.sums k' hUsed ⟨w', mem_taken.mp hw'⟩ (fun w' => (hOld w').2) j]
        dsimp only
        rw [add_comm (st.d0 j), add_comm (st.d1 j)]
    · rw [if_neg hPar, hTaken k' hPar]
      refine h.sums k' hk' ⟨w, by omega⟩ (fun w' => ?_) j
      have := hc w'
      omega

/-- **A duplicate.** The worker is in already, so that nothing changes. -/
theorem Represents.consume_dup (h : Represents job used regs c x)
    (hReady : ConsumeReady job w k st) (hUsed : used (job.set k)) (hw : c w = k + 1) :
    Represents job used (consumeRegs regs st i) c x := by
  have hMap := h.map_dup hReady hUsed hw
  refine ⟨fun σ hσ => ?_, fun k' hk' hc' => ?_, fun k' hk' hSome hc' j => ?_⟩
  · have hBits := h.bits_consume (i := i) hReady hσ
    convert hBits using 1
    ext w'
    by_cases hEq : w' = w <;> simp [hEq, hw]
  · have hSame : (consumeRegs regs st i).workerCount = regs.workerCount := if_neg hMap
    rw [hSame]
    exact h.count k' hk' hc'
  · have hSame : (consumeRegs regs st i).significands = regs.significands := if_neg hMap
    rw [hSame]
    exact h.sums k' hk' hSome hc' j

end Consume

end SwitchML
