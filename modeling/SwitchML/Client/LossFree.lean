import Mathlib.Algebra.BigOperators.Fin
import Mathlib.Data.List.Perm.Basic
import Mathlib.Tactic.Ring
import SwitchML.Client.Thread

/-!
# SwitchML client — reductions without loss

In a `Reduction` every message that a thread posts gets exactly one matching reply, in any
order over the slots, with WRITE completions in between. Beside the thread it records the
work requests that `post_next_send_wr` posts.

* `TileInv` — a slot has posted exactly those of its messages that lie before its pointer;
* `posted_tile_iff` — the messages of a complete reduction cut the range of the thread up if
  and only if the range has less than `2 ^ 32` bytes: the length of a message is computed from
  the number of bytes that are left, taken as 32 bits;
* `expects_what_it_sends_iff` — with one core, `outstanding_operations` is used up exactly when
  all posted messages are answered, if and only if the buffer is not empty.

Both are about flags for which the offsets of the slots do not overflow
(`Flags.SlotOffsetsFit`). A reply counts only if its completion is taken for the slot of its
queue pair. The second result needs that this is so for every reply, hence the condition on the
number of slots (`recvs_decode_iff`); the first is about reductions in which it is.
-/

namespace SwitchML.Client

-- ---------------------------------------------------------------------------
-- Reductions
-- ---------------------------------------------------------------------------

/-- A thread, and the work requests it has posted in this reduction. -/
structure Reduction (S : ℕ) where
  th : ThreadState S
  sent : List SendWr

inductive LossFreeEvent (S : ℕ) where
  | write (i : Fin S) (timestamp : Timestamp)
  -- a matching reply to what the slot has posted
  | reply (i : Fin S) (immData : BitVec 32)

section Reductions

variable (flags : Flags)

/-- A thread that is to send `len` floats from `start` on, with nothing on its queue pairs. -/
def setRange (start len : ℕ) (th : ThreadState flags.slotsPerCore) :
    ThreadState flags.slotsPerCore :=
  { th with
    threadEndPointer := start + len
    pointers := fun i => start + slotOffset flags i
    queuePairs := fun _ => [] }

def Reduction.post (r : Reduction flags.slotsPerCore) (i : Fin flags.slotsPerCore) :
    Reduction flags.slotsPerCore where
  th := postNextSendWr flags r.th i
  sent := if hasNext r.th i then r.sent ++ [(postedWr r.th i).wr] else r.sent

/-- `post_initial_writes`. -/
def Reduction.start (th : ThreadState flags.slotsPerCore) : Reduction flags.slotsPerCore :=
  (List.finRange flags.slotsPerCore).foldl (Reduction.post flags) ⟨th, []⟩

/-- What was posted first on a queue pair is answered, and the receive request that the reply
uses up is posted again. -/
def Reduction.pop {S : ℕ} (r : Reduction S) (i : Fin S) : Reduction S :=
  { r with th := ((r.th.pop i).takeRecv i).postRecv i }

/-- None for a reply that is to nothing, or that the slot does not take. -/
def Reduction.step (r : Reduction flags.slotsPerCore) :
    LossFreeEvent flags.slotsPerCore → Option (Reduction flags.slotsPerCore)
  | .write i timestamp =>
    some { r with th := handleWriteCompletion r.th ⟨i, (r.th.sendWrs i).wrId, 0⟩ timestamp }
  | .reply i immData =>
    match r.th.recvQueues i with
    | [] => none
    | id :: _ =>
      if r.th.queuePairs i ≠ [] ∧ (⟨i, id, immData⟩ : Wc flags.slotsPerCore).qpIndex = i ∧
          isExpected flags (r.th.sendWrs i).rkey immData = true then
        some
          { th := handleRecvCompletion flags ((r.th.pop i).takeRecv i) ⟨i, id, immData⟩
            sent := (Reduction.post flags (r.pop i) i).sent }
      else none

def Reduction.run (r : Reduction flags.slotsPerCore)
    (events : List (LossFreeEvent flags.slotsPerCore)) : Option (Reduction flags.slotsPerCore) :=
  events.foldlM (Reduction.step flags) r

end Reductions

/-- All that was posted is answered. -/
def Reduction.Complete {S : ℕ} (r : Reduction S) : Prop := ∀ i, r.th.queuePairs i = []

-- ---------------------------------------------------------------------------
-- Rules for runs
-- ---------------------------------------------------------------------------

section Rules

variable {flags : Flags} {P : Reduction flags.slotsPerCore → Prop}

/-- The thread of a reduction is the one that `post_initial_writes` leaves. -/
theorem postInitialWrites_eq (th : ThreadState flags.slotsPerCore) :
    (Reduction.start flags th).th = postInitialWrites flags th := by
  unfold Reduction.start postInitialWrites
  generalize ([] : List SendWr) = sent
  induction List.finRange flags.slotsPerCore generalizing th sent with
  | nil => rfl
  | cons i slots ih => exact ih _ _

/-- One operation is done. -/
def Reduction.count {S : ℕ} (r : Reduction S) : Reduction S :=
  { r with th := { r.th with outstandingOperations := r.th.outstandingOperations - 1 } }

/-- A reply answers the slot's message, and the next one is posted. -/
theorem Reduction.step_cases {r r' : Reduction flags.slotsPerCore}
    {e : LossFreeEvent flags.slotsPerCore} (h : r.step flags e = some r') :
    (∃ wc timestamp, r' = { r with th := handleWriteCompletion r.th wc timestamp }) ∨
    ∃ i, r.th.queuePairs i ≠ [] ∧ r' = (Reduction.post flags (r.pop i) i).count := by
  cases e with
  | write i timestamp => exact .inl ⟨_, timestamp, (Option.some.inj h).symm⟩
  | reply i immData =>
    unfold Reduction.step at h
    dsimp only at h
    cases hRecvs : r.th.recvQueues i with
    | nil => simp [hRecvs] at h
    | cons id recvs =>
      rw [hRecvs] at h
      dsimp only at h
      split at h
      · next hReply =>
        obtain ⟨hQueue, hSlot, hMatch⟩ := hReply
        refine .inr ⟨i, hQueue, ?_⟩
        have hTaken : isExpected flags ((r.pop i).th.sendWrs i).rkey immData = true := hMatch
        rw [← Option.some.inj h, handleRecvCompletion]
        dsimp only
        rw [hSlot, show ((r.th.pop i).takeRecv i).postRecv i = (r.pop i).th from rfl,
          if_pos hTaken]
        rfl
      · cases h

/-- A run keeps what every step keeps. -/
theorem Reduction.run_invariant
    (hStep : ∀ r e r', P r → Reduction.step flags r e = some r' → P r')
    {r r' : Reduction flags.slotsPerCore} (h : P r)
    {events : List (LossFreeEvent flags.slotsPerCore)} (hRun : r.run flags events = some r') :
    P r' := by
  induction events generalizing r with
  | nil => exact Option.some.inj hRun ▸ h
  | cons e events ih =>
    obtain ⟨r₁, hFirst, hRest⟩ := Option.bind_eq_some_iff.mp hRun
    exact ih (hStep r e r₁ h hFirst) hRest

end Rules

-- ---------------------------------------------------------------------------
-- What is posted
-- ---------------------------------------------------------------------------

/-- The length of a message with `rest` floats left in the range. -/
def messageLength (flags : Flags) (rest : ℕ) : BitVec 32 :=
  let truncatedMessageLength := BitVec.ofNat 32 (rest * sizeofFloat)
  let messageSize := BitVec.ofNat 32 flags.messageSize
  if truncatedMessageLength.ult messageSize then truncatedMessageLength else messageSize

theorem postedWr_eq {flags : Flags} {th : ThreadState flags.slotsPerCore}
    {i : Fin flags.slotsPerCore} (h : hasNext th i = true) :
    (postedWr th i).wr.addr = th.pointers i ∧
      (postedWr th i).wr.length = messageLength flags (th.threadEndPointer - th.pointers i) := by
  have hLt : th.pointers i < th.threadEndPointer := of_decide_eq_true h
  unfold postedWr postNextSendWr
  rw [if_pos hLt]
  simp [ThreadState.postSend, messageLength]

/-- The messages that the slots have posted of the range from `start` to `stop`. Message `k` is
posted by slot `k % slotsPerCore`. -/
structure TileInv (flags : Flags) (start stop : ℕ) (pointers : Fin flags.slotsPerCore → ℕ)
    (sent : List SendWr) : Prop where
  next : ∀ i : Fin flags.slotsPerCore, ∃ k, k % flags.slotsPerCore = i ∧
    pointers i = start + k * floatsPerMessage flags
  sent_mem : ∀ wr ∈ sent, ∃ (i : Fin flags.slotsPerCore) (k : ℕ), k % flags.slotsPerCore = i ∧
    wr.addr = start + k * floatsPerMessage flags ∧ wr.addr < pointers i ∧ wr.addr < stop
  sent_all : ∀ (i : Fin flags.slotsPerCore) (k : ℕ), k % flags.slotsPerCore = i →
    start + k * floatsPerMessage flags < pointers i →
      start + k * floatsPerMessage flags ∈ sent.map SendWr.addr
  sent_nodup : (sent.map SendWr.addr).Nodup
  sent_length : ∀ wr ∈ sent, wr.length = messageLength flags (stop - wr.addr)

section Tiles

variable {flags : Flags} {start stop : ℕ}

/-- Congruent message numbers that are less than a stride apart are ordered by the stride. -/
theorem le_of_mod_eq_of_lt {S k k' : ℕ} (hMod : k' % S = k % S) (hLt : k' < k + S) : k' ≤ k := by
  by_contra hGt
  have hDvd : S ∣ k' - k := (Nat.modEq_iff_dvd' (by omega)).mp hMod.symm
  have := Nat.le_of_dvd (by omega) hDvd
  omega

/-- A slot posts its next message. -/
theorem TileInv.advance {pointers : Fin flags.slotsPerCore → ℕ} {sent : List SendWr}
    (h : TileInv flags start stop pointers sent) (hFloats : 0 < floatsPerMessage flags)
    {i : Fin flags.slotsPerCore} {wr : SendWr} (hAddr : wr.addr = pointers i)
    (hStop : pointers i < stop) (hLength : wr.length = messageLength flags (stop - pointers i)) :
    TileInv flags start stop
      (Function.update pointers i (pointers i + flags.slotsPerCore * floatsPerMessage flags))
      (sent ++ [wr]) := by
  obtain ⟨k, hk, hPointer⟩ := h.next i
  have hS := i.pos
  have hGrow : ∀ j, pointers j ≤
      Function.update pointers i (pointers i + flags.slotsPerCore * floatsPerMessage flags) j := by
    intro j
    by_cases hj : j = i
    · subst hj
      rw [Function.update_self]
      omega
    · rw [Function.update_of_ne hj]
  have hAhead : pointers i <
      Function.update pointers i (pointers i + flags.slotsPerCore * floatsPerMessage flags) i := by
    have := Nat.mul_pos hS hFloats
    rw [Function.update_self]
    omega
  refine ⟨fun j => ?_, fun wr' hwr' => ?_, fun j k' hk' hLt => ?_, ?_, fun wr' hwr' => ?_⟩
  · by_cases hj : j = i
    · subst hj
      refine ⟨k + flags.slotsPerCore, by rw [Nat.add_mod_right, hk], ?_⟩
      rw [Function.update_self, hPointer, Nat.add_mul, Nat.add_assoc]
    · rw [Function.update_of_ne hj]
      exact h.next j
  · rcases List.mem_append.mp hwr' with hOld | hNew
    · obtain ⟨j, k', hk', hAddr', hLt, hLtStop⟩ := h.sent_mem wr' hOld
      exact ⟨j, k', hk', hAddr', Nat.lt_of_lt_of_le hLt (hGrow j), hLtStop⟩
    · obtain rfl := List.mem_singleton.mp hNew
      exact ⟨i, k, hk, hAddr.trans hPointer, hAddr ▸ hAhead, hAddr ▸ hStop⟩
  · rw [List.map_append, List.mem_append]
    by_cases hj : j = i
    · subst hj
      rw [Function.update_self, hPointer, Nat.add_assoc, ← Nat.add_mul,
        Nat.add_lt_add_iff_left, Nat.mul_lt_mul_right hFloats] at hLt
      rcases Nat.eq_or_lt_of_le (le_of_mod_eq_of_lt (hk'.trans hk.symm) hLt) with rfl | hBefore
      · exact .inr (by simp [hAddr, hPointer])
      · refine .inl (h.sent_all j k' hk' ?_)
        rw [hPointer, Nat.add_lt_add_iff_left, Nat.mul_lt_mul_right hFloats]
        exact hBefore
    · rw [Function.update_of_ne hj] at hLt
      exact .inl (h.sent_all j k' hk' hLt)
  · rw [List.map_append, List.map_singleton]
    refine List.nodup_append.mpr ⟨h.sent_nodup, List.nodup_singleton _, ?_⟩
    -- all that was posted by the slot lies before its pointer
    intro a ha b hb
    rw [List.mem_singleton.mp hb, hAddr]
    rintro rfl
    obtain ⟨wr', hwr', hEq⟩ := List.mem_map.mp ha
    obtain ⟨j, k', hk', hAddr', hLt, -⟩ := h.sent_mem wr' hwr'
    rw [hEq, hPointer, Nat.add_left_cancel_iff] at hAddr'
    obtain rfl := Nat.eq_of_mul_eq_mul_right hFloats hAddr'
    obtain rfl : j = i := Fin.ext (hk'.symm.trans hk)
    exact Nat.lt_irrefl _ (hEq ▸ hLt)
  · rcases List.mem_append.mp hwr' with hOld | hNew
    · exact h.sent_length wr' hOld
    · obtain rfl := List.mem_singleton.mp hNew
      rw [hLength, hAddr]

/-- Nothing is posted before the first message. -/
theorem TileInv.init (hWhole : flags.WholeFloats) (hFit : flags.SlotOffsetsFit) :
    TileInv flags start stop (fun i => start + slotOffset flags i) [] where
  next i := ⟨i, Nat.mod_eq_of_lt i.isLt, by rw [hFit.slotOffset_eq hWhole]⟩
  sent_mem := by simp
  sent_all i k hk hLt := by
    -- slot `i` starts with message `i`
    rw [hFit.slotOffset_eq hWhole, Nat.add_lt_add_iff_left,
      Nat.mul_lt_mul_right hWhole.floatsPerMessage_pos] at hLt
    have := Nat.mod_le k flags.slotsPerCore
    omega
  sent_nodup := List.nodup_nil
  sent_length := by simp

end Tiles

-- ---------------------------------------------------------------------------
-- Runs
-- ---------------------------------------------------------------------------

/-- A slot with nothing on its queue pair has nothing left to send. -/
def Settled {S : ℕ} (th : ThreadState S) (i : Fin S) : Prop :=
  th.queuePairs i = [] → hasNext th i = false

structure RunInv (flags : Flags) (start stop : ℕ) (r : Reduction flags.slotsPerCore) : Prop where
  stop_eq : r.th.threadEndPointer = stop
  tiles : TileInv flags start stop r.th.pointers r.sent
  settled : ∀ i, Settled r.th i

section Runs

variable {flags : Flags} {start stop : ℕ} {r : Reduction flags.slotsPerCore}

theorem TileInv.post (hStop : r.th.threadEndPointer = stop)
    (h : TileInv flags start stop r.th.pointers r.sent) (hFloats : 0 < floatsPerMessage flags)
    (i : Fin flags.slotsPerCore) :
    TileInv flags start stop (r.post flags i).th.pointers (r.post flags i).sent := by
  unfold Reduction.post
  dsimp only
  rw [postNextSendWr_pointers]
  cases hNext : hasNext r.th i with
  | false => simpa using h
  | true =>
    obtain ⟨hAddr, hLength⟩ := postedWr_eq hNext
    rw [hStop] at hLength
    simp only [if_true]
    exact h.advance hFloats hAddr (hStop ▸ of_decide_eq_true hNext) hLength

/-- A slot is settled once it has been given the chance to post. -/
theorem settled_post (th : ThreadState flags.slotsPerCore) (i : Fin flags.slotsPerCore) :
    Settled (postNextSendWr flags th i) i := by
  intro hEmpty
  rw [postNextSendWr_queuePairs] at hEmpty
  cases hNext : hasNext th i with
  | true => simp [hNext] at hEmpty
  | false =>
    have hSame : postNextSendWr flags th i = th := by
      unfold postNextSendWr
      rw [if_neg (of_decide_eq_false hNext)]
    rw [hSame, hNext]

theorem settled_post_of_ne {i j : Fin flags.slotsPerCore} (hj : j ≠ i)
    {th : ThreadState flags.slotsPerCore} (h : Settled th j) :
    Settled (postNextSendWr flags th i) j := by
  intro hEmpty
  rw [postNextSendWr_hasNext _ _ hj]
  apply h
  rw [postNextSendWr_queuePairs] at hEmpty
  split at hEmpty
  · rwa [Function.update_of_ne hj] at hEmpty
  · exact hEmpty

/-- The first messages of all slots are posted. -/
theorem runInv_start (hWhole : flags.WholeFloats) (hFit : flags.SlotOffsetsFit) (start len : ℕ)
    (th : ThreadState flags.slotsPerCore) :
    RunInv flags start (start + len) (Reduction.start flags (setRange flags start len th)) := by
  have hFloats := hWhole.floatsPerMessage_pos
  -- by induction over the slots, those that had their turn are settled
  have hFold : ∀ (slots : List (Fin flags.slotsPerCore)) (r : Reduction flags.slotsPerCore),
      r.th.threadEndPointer = start + len →
      TileInv flags start (start + len) r.th.pointers r.sent →
      (∀ i ∉ slots, Settled r.th i) →
      RunInv flags start (start + len) (slots.foldl (Reduction.post flags) r) := by
    intro slots
    induction slots with
    | nil => exact fun r hStop hTiles hSettled => ⟨hStop, hTiles, fun i => hSettled i (by simp)⟩
    | cons i slots ih =>
      intro r hStop hTiles hSettled
      refine ih _ ?_ (hTiles.post hStop hFloats i) fun j hj => ?_
      · exact (postNextSendWr_threadEndPointer r.th i).trans hStop
      · by_cases hji : j = i
        · subst hji
          exact settled_post r.th j
        · exact settled_post_of_ne hji (hSettled j (by simp [hji, hj]))
  exact hFold _ _ rfl (TileInv.init hWhole hFit) fun i hi => absurd (List.mem_finRange i) hi

theorem RunInv.step (hFloats : 0 < floatsPerMessage flags) (h : RunInv flags start stop r)
    {e : LossFreeEvent flags.slotsPerCore} {r' : Reduction flags.slotsPerCore}
    (hStep : r.step flags e = some r') : RunInv flags start stop r' := by
  rcases Reduction.step_cases hStep with ⟨wc, timestamp, rfl⟩ | ⟨i, -, rfl⟩
  · exact ⟨h.stop_eq, h.tiles, h.settled⟩
  · have hStop : (r.pop i).th.threadEndPointer = stop := h.stop_eq
    refine ⟨(postNextSendWr_threadEndPointer _ i).trans hStop, TileInv.post hStop h.tiles hFloats i,
      fun j => ?_⟩
    by_cases hj : j = i
    · subst hj
      exact settled_post (r.pop j).th j
    · refine settled_post_of_ne hj fun hEmpty => h.settled j ?_
      simpa [Reduction.pop, ThreadState.pop, ThreadState.takeRecv, ThreadState.postRecv,
        Function.update_of_ne hj] using hEmpty

end Runs

-- ---------------------------------------------------------------------------
-- Tiles
-- ---------------------------------------------------------------------------

section Cover

variable {flags : Flags} {start len : ℕ}

/-- `⌈4 len / messageSize⌉`. -/
def tileCount (flags : Flags) (len : ℕ) : ℕ :=
  (sizeofFloat * len + flags.messageSize - 1) / flags.messageSize

/-- The addresses and lengths, in bytes, that cut the range up. -/
def tiles (flags : Flags) (start len : ℕ) : List (ℕ × ℕ) :=
  (List.range (tileCount flags len)).map fun k =>
    (sizeofFloat * start + k * flags.messageSize,
      min flags.messageSize (sizeofFloat * len - k * flags.messageSize))

/-- The addresses and lengths of what was posted. -/
def Reduction.pairs {S : ℕ} (r : Reduction S) : List (ℕ × ℕ) :=
  r.sent.map fun wr => (sizeofFloat * wr.addr, wr.length.toNat)

theorem lt_tileCount (hPos : 0 < flags.messageSize) {k : ℕ} :
    k < tileCount flags len ↔ k * flags.messageSize < sizeofFloat * len := by
  unfold tileCount
  rw [Nat.lt_div_iff_mul_lt hPos]
  omega

theorem lt_tileCount_floats (hWhole : flags.WholeFloats) {k : ℕ} :
    k < tileCount flags len ↔ k * floatsPerMessage flags < len := by
  rw [lt_tileCount hWhole.pos, hWhole.messageSize_eq, Nat.mul_left_comm,
    Nat.mul_lt_mul_left (by decide)]

/-- The addresses at which messages start. -/
def tileAddrs (flags : Flags) (start len : ℕ) : List ℕ :=
  (List.range (tileCount flags len)).map (start + · * floatsPerMessage flags)

/-- Only these are posted. -/
theorem RunInv.addrs_subset {r : Reduction flags.slotsPerCore} (hWhole : flags.WholeFloats)
    (h : RunInv flags start (start + len) r) :
    r.sent.map SendWr.addr ⊆ tileAddrs flags start len := by
  intro a ha
  obtain ⟨wr, hwr, rfl⟩ := List.mem_map.mp ha
  obtain ⟨i, k, -, hAddr, -, hStop⟩ := h.tiles.sent_mem wr hwr
  refine List.mem_map.mpr ⟨k, List.mem_range.mpr ((lt_tileCount_floats hWhole).mpr ?_), hAddr.symm⟩
  omega

/-- The messages of a complete reduction are all there are, each once. -/
theorem RunInv.complete_addrs {r : Reduction flags.slotsPerCore} (hWhole : flags.WholeFloats)
    (hSlots : 0 < flags.slotsPerCore) (h : RunInv flags start (start + len) r)
    (hComplete : r.Complete) :
    (r.sent.map SendWr.addr).Perm (tileAddrs flags start len) := by
  have hNodup : (tileAddrs flags start len).Nodup :=
    List.nodup_range.map fun a b hEq =>
      Nat.eq_of_mul_eq_mul_right hWhole.floatsPerMessage_pos (Nat.add_left_cancel hEq)
  rw [List.perm_ext_iff_of_nodup h.tiles.sent_nodup hNodup]
  intro a
  constructor
  · exact fun ha => h.addrs_subset hWhole ha
  · intro ha
    obtain ⟨k, hk, rfl⟩ := List.mem_map.mp ha
    have hLt := (lt_tileCount_floats hWhole).mp (List.mem_range.mp hk)
    -- the slot has nothing left to send, so its pointer is behind the range
    refine h.tiles.sent_all ⟨k % flags.slotsPerCore, Nat.mod_lt k hSlots⟩ k rfl ?_
    have hEnd := of_decide_eq_false (h.settled ⟨k % flags.slotsPerCore, Nat.mod_lt k hSlots⟩
      (hComplete _))
    rw [h.stop_eq] at hEnd
    omega

theorem toNat_messageLength (hInt : flags.messageSize < 2 ^ 31) (rest : ℕ) :
    (messageLength flags rest).toNat =
      min flags.messageSize (sizeofFloat * rest % 2 ^ 32) := by
  have hSize : (BitVec.ofNat 32 flags.messageSize).toNat = flags.messageSize := by
    rw [BitVec.toNat_ofNat]
    exact Nat.mod_eq_of_lt (by omega)
  unfold messageLength
  rw [Nat.mul_comm sizeofFloat]
  simp only [BitVec.ult, hSize, BitVec.toNat_ofNat, decide_eq_true_eq]
  split
  · rw [BitVec.toNat_ofNat]
    omega
  · rw [hSize]
    omega

/-- What a complete reduction has posted: the tiles, with the number of bytes that are left
taken as 32 bits. -/
theorem RunInv.complete_pairs {r : Reduction flags.slotsPerCore} (hWhole : flags.WholeFloats)
    (hSlots : 0 < flags.slotsPerCore) (hInt : flags.messageSize < 2 ^ 31)
    (h : RunInv flags start (start + len) r) (hComplete : r.Complete) :
    r.pairs.Perm ((List.range (tileCount flags len)).map fun k =>
      (sizeofFloat * start + k * flags.messageSize,
        min flags.messageSize ((sizeofFloat * len - k * flags.messageSize) % 2 ^ 32))) := by
  have hPairs : r.pairs = (r.sent.map SendWr.addr).map fun a =>
      (sizeofFloat * a, (messageLength flags (start + len - a)).toNat) := by
    rw [List.map_map]
    refine List.map_congr_left fun wr hwr => ?_
    rw [Function.comp_apply, ← h.tiles.sent_length wr hwr]
  rw [hPairs]
  refine ((h.complete_addrs hWhole hSlots hComplete).map _).trans (List.Perm.of_eq ?_)
  rw [tileAddrs, List.map_map]
  refine List.map_congr_left fun k _ => ?_
  rw [Function.comp_apply, toNat_messageLength hInt, hWhole.messageSize_eq, Nat.mul_left_comm k,
    ← Nat.mul_add, Nat.add_sub_add_left, Nat.mul_sub]

/-- Cutting the number of bytes down to 32 bits shows in some message, unless it changes
nothing. -/
theorem truncated_tiles_iff (start : ℕ) (hPos : 0 < flags.messageSize) :
    ((List.range (tileCount flags len)).map fun k =>
      (sizeofFloat * start + k * flags.messageSize,
        min flags.messageSize ((sizeofFloat * len - k * flags.messageSize) % 2 ^ 32))).Perm
      (tiles flags start len) ↔ sizeofFloat * len < 2 ^ 32 := by
  constructor
  · intro hPerm
    by_contra hBig
    -- the message in which the number of bytes left passes `2 ^ 32`
    obtain ⟨k, hk⟩ : ∃ k, k = (sizeofFloat * len - 2 ^ 32) / flags.messageSize := ⟨_, rfl⟩
    have hLow : k * flags.messageSize ≤ sizeofFloat * len - 2 ^ 32 := hk ▸ Nat.div_mul_le_self _ _
    have hHigh : sizeofFloat * len - 2 ^ 32 < (k + 1) * flags.messageSize := by
      rw [hk, Nat.mul_comm (_ + 1)]
      exact Nat.lt_mul_div_succ _ hPos
    rw [Nat.add_mul, Nat.one_mul] at hHigh
    have hCount : k < tileCount flags len := (lt_tileCount hPos).mpr (by omega)
    have hMem := hPerm.subset (List.mem_map_of_mem (List.mem_range.mpr hCount))
    obtain ⟨k', -, hEq⟩ := List.mem_map.mp hMem
    obtain ⟨hAddr, hLength⟩ := Prod.mk.inj hEq
    obtain rfl : k' = k :=
      Nat.eq_of_mul_eq_mul_right hPos (Nat.add_left_cancel hAddr)
    omega
  · intro hSmall
    refine List.Perm.of_eq (List.map_congr_left fun k _ => ?_)
    rw [Nat.mod_eq_of_lt (by omega)]

/-- **Posted messages cut the range up if it has less than `2 ^ 32` bytes.** For every range of
floats, every number of slots and every message size for which the offsets of the slots do not
overflow, and every order of completions, the messages that a complete reduction without loss has
posted start at `start`, `start + messageSize` and so on and are as long as the range allows, each
of them once, exactly if all bytes of the range can be counted with 32 bits. -/
theorem posted_tile_iff (flags : Flags) (hSlots : 0 < flags.slotsPerCore)
    (hSize : 0 < flags.messageSize) (hFloats : sizeofFloat ∣ flags.messageSize)
    (hInt : flags.messageSize < 2 ^ 31) (hFit : flags.SlotOffsetsFit) (start len : ℕ)
    (th : ThreadState flags.slotsPerCore) (events : List (LossFreeEvent flags.slotsPerCore))
    (r : Reduction flags.slotsPerCore)
    (hRun : (Reduction.start flags (setRange flags start len th)).run flags events = some r)
    (hComplete : r.Complete) :
    r.pairs.Perm (tiles flags start len) ↔ sizeofFloat * len < 2 ^ 32 := by
  have hWhole : flags.WholeFloats := ⟨hSize, hFloats⟩
  have hInv : RunInv flags start (start + len) r :=
    Reduction.run_invariant (fun _ _ _ h hStep => h.step hWhole.floatsPerMessage_pos hStep)
      (runInv_start hWhole hFit start len th) hRun
  have hPairs := hInv.complete_pairs hWhole hSlots hInt hComplete
  rw [← truncated_tiles_iff start hSize]
  exact ⟨hPairs.symm.trans, hPairs.trans⟩

/-- The replies to three messages of two slots. -/
def threeReplies : List (LossFreeEvent 2) :=
  [.reply 1 (replyImmData 2 0), .write 0 0, .reply 0 (replyImmData 0 0),
    .reply 0 (replyImmData 1 0)]

/-- 150 floats are sent as two whole messages and one of 88 bytes. -/
theorem posted_tile_three :
    let flags : Flags := { cores := 1, slotsPerCore := 2, messageSize := 256, packetSize := 256 }
    ∃ r, (Reduction.start flags (setRange flags 0 150 (freshThread flags 0 3))).run flags
      threeReplies = some r ∧ r.pairs.Perm (tiles flags 0 150) := by
  intro flags
  have hSome : ((Reduction.start flags (setRange flags 0 150 (freshThread flags 0 3))).run flags
      threeReplies).isSome = true := by decide +kernel
  have hComplete : ∀ i : Fin 2, ((Reduction.start flags (setRange flags 0 150
      (freshThread flags 0 3))).run flags threeReplies).map
        (fun r => (r.th.queuePairs i).isEmpty) = some true := by decide +kernel
  obtain ⟨r, hRun⟩ := Option.isSome_iff_exists.mp hSome
  refine ⟨r, hRun, (posted_tile_iff flags (by decide) (by decide) (by decide) (by decide)
    (by decide) 0 150 (freshThread flags 0 3) threeReplies r hRun fun i => ?_).mpr (by decide)⟩
  have hEmpty := hComplete i
  rw [hRun] at hEmpty
  exact List.isEmpty_iff.mp (Option.some.inj hEmpty)

/-- **An empty message.** A range of 4 GiB is sent in messages of 1 GiB. The number of bytes that
are left before the first message is `2 ^ 32`, which is 0 in 32 bits. -/
theorem posted_empty_message :
    let flags : Flags :=
      { cores := 1, slotsPerCore := 1, messageSize := 2 ^ 30, packetSize := 256 }
    let events : List (LossFreeEvent 1) :=
      [.reply 0 (replyImmData 0 0), .reply 0 (replyImmData 1 0), .reply 0 (replyImmData 0 0),
        .reply 0 (replyImmData 1 0)]
    let run :=
      (Reduction.start flags (setRange flags 0 (2 ^ 30) (freshThread flags 0 3))).run flags events
    flags.SlotOffsetsFit ∧ run.map (fun r => (r.th.queuePairs 0).isEmpty) = some true ∧
      run.map Reduction.pairs =
        some [(0, 0), (2 ^ 30, 2 ^ 30), (2 * 2 ^ 30, 2 ^ 30), (3 * 2 ^ 30, 2 ^ 30)] ∧
      tiles flags 0 (2 ^ 30) =
        [(0, 2 ^ 30), (2 ^ 30, 2 ^ 30), (2 * 2 ^ 30, 2 ^ 30), (3 * 2 ^ 30, 2 ^ 30)] := by
  decide +kernel

end Cover

-- ---------------------------------------------------------------------------
-- Counting
-- ---------------------------------------------------------------------------

/-- The number of messages that are posted and not answered. -/
def pending {S : ℕ} (th : ThreadState S) : ℕ := ∑ i, (th.queuePairs i).length

/-- `total` operations are expected. Two belong to each message. -/
structure CountInv (total : ℤ) {S : ℕ} (r : Reduction S) : Prop where
  balance : r.th.outstandingOperations + 2 * r.sent.length = total + pending r.th
  pending_le : pending r.th ≤ r.sent.length

section Count

variable {flags : Flags} {total : ℤ}

theorem sum_length_update {S : ℕ} (q : Fin S → List Posted) (i : Fin S) (l : List Posted) :
    (∑ j, (Function.update q i l j).length) + (q i).length =
      (∑ j, (q j).length) + l.length := by
  have hRest : ∑ j ∈ Finset.univ.erase i, (Function.update q i l j).length =
      ∑ j ∈ Finset.univ.erase i, (q j).length :=
    Finset.sum_congr rfl fun j hj => by rw [Function.update_of_ne (Finset.ne_of_mem_erase hj)]
  rw [← Finset.add_sum_erase _ _ (Finset.mem_univ i), hRest, Function.update_self,
    ← Finset.add_sum_erase _ (fun j => (q j).length) (Finset.mem_univ i)]
  omega

theorem complete_iff_pending {S : ℕ} (r : Reduction S) : r.Complete ↔ pending r.th = 0 := by
  simp [Reduction.Complete, pending]

/-- A message that is posted is pending. -/
theorem pending_post (th : ThreadState flags.slotsPerCore) (i : Fin flags.slotsPerCore) :
    pending (postNextSendWr flags th i) = pending th + if hasNext th i then 1 else 0 := by
  unfold pending
  rw [postNextSendWr_queuePairs]
  split
  · have hUpdate := sum_length_update th.queuePairs i (th.queuePairs i ++ [postedWr th i])
    rw [List.length_append, List.length_singleton] at hUpdate
    omega
  · rfl

/-- A message that is answered is not. -/
theorem pending_pop {S : ℕ} {r : Reduction S} {i : Fin S} (hQueue : r.th.queuePairs i ≠ []) :
    pending (r.pop i).th + 1 = pending r.th := by
  have hUpdate := sum_length_update r.th.queuePairs i (r.th.queuePairs i).tail
  have hPos := List.length_pos_iff.mpr hQueue
  rw [List.length_tail] at hUpdate
  unfold pending Reduction.pop ThreadState.postRecv ThreadState.takeRecv ThreadState.pop
  dsimp only
  omega

theorem CountInv.post {r : Reduction flags.slotsPerCore} (h : CountInv total r)
    (i : Fin flags.slotsPerCore) : CountInv total (r.post flags i) := by
  obtain ⟨hBalance, hLe⟩ := h
  have hPending := pending_post r.th i
  have hOutstanding := postNextSendWr_outstandingOperations r.th i
  unfold Reduction.post
  cases hNext : hasNext r.th i with
  | false =>
    simp only [hNext, Bool.false_eq_true, if_false] at hPending hOutstanding ⊢
    constructor <;> dsimp only <;> omega
  | true =>
    simp only [hNext, if_true] at hPending hOutstanding ⊢
    constructor <;> dsimp only <;> rw [List.length_append, List.length_singleton] <;> omega

theorem CountInv.start {th : ThreadState flags.slotsPerCore} (hIdle : ∀ i, th.queuePairs i = []) :
    CountInv th.outstandingOperations (Reduction.start flags th) := by
  have hFold : ∀ (slots : List (Fin flags.slotsPerCore)) (r : Reduction flags.slotsPerCore),
      CountInv th.outstandingOperations r →
      CountInv th.outstandingOperations (slots.foldl (Reduction.post flags) r) := by
    intro slots
    induction slots with
    | nil => exact fun _ h => h
    | cons i slots ih => exact fun r h => ih _ (h.post i)
  exact hFold _ _ ⟨by simp [pending, hIdle], by simp [pending, hIdle]⟩

/-- **Step lemma.** -/
theorem CountInv.step {r r' : Reduction flags.slotsPerCore} (h : CountInv total r)
    {e : LossFreeEvent flags.slotsPerCore} (hStep : r.step flags e = some r') :
    CountInv total r' := by
  rcases Reduction.step_cases hStep with ⟨wc, timestamp, rfl⟩ | ⟨i, hQueue, rfl⟩
  · exact ⟨h.balance, h.pending_le⟩
  · have hPop := pending_pop hQueue
    obtain ⟨hBalance, hLe⟩ := h
    -- without the operation that the reply is, the counter is one ahead
    have hAhead : CountInv (total + 1) (r.pop i) := by
      constructor
      · show r.th.outstandingOperations + 2 * r.sent.length = _
        omega
      · show pending (r.pop i).th ≤ r.sent.length
        omega
    have hNext := hAhead.post i
    refine ⟨?_, hNext.pending_le⟩
    have hOutstanding : (Reduction.post flags (r.pop i) i).count.th.outstandingOperations =
      (Reduction.post flags (r.pop i) i).th.outstandingOperations - 1 := rfl
    have hPending : pending (Reduction.post flags (r.pop i) i).count.th =
      pending (Reduction.post flags (r.pop i) i).th := rfl
    have hSent : (Reduction.post flags (r.pop i) i).count.sent =
      (Reduction.post flags (r.pop i) i).sent := rfl
    have := hNext.balance
    rw [hOutstanding, hPending, hSent]
    omega

-- ---------------------------------------------------------------------------
-- One core
-- ---------------------------------------------------------------------------

/-- The counter is 0 exactly when all that was posted is answered, it started with two operations
for each message that is posted, and a matching reply to what was posted is taken. -/
def ExpectsWhatItSends (flags : Flags) (length : ℕ) (th : ThreadState flags.slotsPerCore) : Prop :=
  ∀ events r, (Reduction.start flags (computeThreadPointers flags length 0 th)).run flags events =
      some r →
    (r.th.outstandingOperations = 0 ↔ r.Complete) ∧ 0 ≤ r.th.outstandingOperations ∧
    (r.Complete → (computeThreadPointers flags length 0 th).outstandingOperations =
      2 * r.sent.length) ∧
    ∀ i immData, r.th.queuePairs i ≠ [] → isExpected flags (r.th.sendWrs i).rkey immData = true →
      (r.step flags (.reply i immData)).isSome = true

/-- The only thread gets the whole buffer. -/
theorem computeThreadPointers_one (hWhole : flags.WholeFloats) (hCores : flags.cores = 1)
    (length : ℕ) {th : ThreadState flags.slotsPerCore} (hIdle : ∀ i, th.queuePairs i = []) :
    computeThreadPointers flags length 0 th =
        setRange flags 0 length (computeThreadPointers flags length 0 th) ∧
      (computeThreadPointers flags length 0 th).outstandingOperations =
        2 * totalMessages flags length := by
  have hEnd : endMessageIndex flags length 0 = totalMessages flags length := by
    rw [← startMessageIndex_succ, ← startMessageIndex_cores flags length (by omega), hCores]
  have hLength := length_le_totalMessages length hWhole
  constructor
  · unfold setRange computeThreadPointers threadEndPointer threadStartPointer
    simp only [startMessageIndex_zero, hEnd, Nat.zero_mul, Nat.zero_div, Nat.zero_add,
      hWhole.pointer_eq, Nat.min_eq_right hLength, hIdle, List.map_nil]
  · unfold computeThreadPointers
    simp [hEnd]

theorem tileCount_eq (hWhole : flags.WholeFloats) {length : ℕ} (hLength : 0 < length) :
    tileCount flags length = totalMessages flags length := by
  unfold tileCount totalMessages
  rw [← Nat.add_div_right _ hWhole.pos, Nat.mul_comm sizeofFloat]
  congr 1
  have : 0 < length * sizeofFloat := Nat.mul_pos hLength (by decide)
  omega

/-- The invariants of a reduction of the only thread. -/
theorem run_one (hWhole : flags.WholeFloats) (hFit : flags.SlotOffsetsFit)
    (hCores : flags.cores = 1) {length : ℕ}
    {th : ThreadState flags.slotsPerCore} (hIdle : ∀ i, th.queuePairs i = [])
    {events : List (LossFreeEvent flags.slotsPerCore)} {r : Reduction flags.slotsPerCore}
    (hRun : (Reduction.start flags (computeThreadPointers flags length 0 th)).run flags events =
      some r) :
    RunInv flags 0 (0 + length) r ∧ CountInv (2 * totalMessages flags length) r ∧
      r.sent.length ≤ tileCount flags length := by
  obtain ⟨hRange, hTotal⟩ := computeThreadPointers_one hWhole hCores length hIdle
  have hTiles : RunInv flags 0 (0 + length) r := by
    rw [hRange] at hRun
    exact Reduction.run_invariant (fun _ _ _ h hStep => h.step hWhole.floatsPerMessage_pos hStep)
      (runInv_start hWhole hFit 0 length _) hRun
  have hCount : CountInv (2 * totalMessages flags length) r := by
    refine Reduction.run_invariant (fun _ _ _ h hStep => h.step hStep) ?_ hRun
    rw [← hTotal]
    exact CountInv.start fun i => by simp [computeThreadPointers, hIdle]
  have hLe := (hTiles.tiles.sent_nodup.subperm (hTiles.addrs_subset hWhole)).length_le
  rw [tileAddrs, List.length_map, List.length_map, List.length_range] at hLe
  exact ⟨hTiles, hCount, hLe⟩

/-- The receive requests stay those of the constructor. -/
theorem recvsPosted_run {threadId : ℕ} {th : ThreadState flags.slotsPerCore}
    (h : RecvsPosted flags threadId th) {events : List (LossFreeEvent flags.slotsPerCore)}
    {r : Reduction flags.slotsPerCore}
    (hRun : (Reduction.start flags th).run flags events = some r) :
    RecvsPosted flags threadId r.th := by
  have hPost : ∀ (r : Reduction flags.slotsPerCore) (i : Fin flags.slotsPerCore),
      RecvsPosted flags threadId r.th → RecvsPosted flags threadId (r.post flags i).th := by
    intro r i h
    obtain ⟨hQueues, hWrs⟩ := postNextSendWr_recvs r.th i
    exact ⟨fun j => hQueues ▸ h.some j, fun j => hQueues ▸ h.ids j, fun j => hWrs ▸ h.wrs j⟩
  have hStart : ∀ (slots : List (Fin flags.slotsPerCore)) (r : Reduction flags.slotsPerCore),
      RecvsPosted flags threadId r.th →
      RecvsPosted flags threadId (slots.foldl (Reduction.post flags) r).th := by
    intro slots
    induction slots with
    | nil => exact fun _ h => h
    | cons i slots ih => exact fun r h => ih _ (hPost r i h)
  refine Reduction.run_invariant (P := fun r => RecvsPosted flags threadId r.th)
    (fun r e r' h hStep => ?_) (hStart _ ⟨th, []⟩ h) hRun
  rcases Reduction.step_cases hStep with ⟨wc, timestamp, rfl⟩ | ⟨i, -, rfl⟩
  · exact { h with }
  · have hPop : RecvsPosted flags threadId (r.pop i).th := { h.repost i with }
    exact { hPost (r.pop i) i hPop with }

/-- A matching reply to what was posted is taken. -/
theorem Reduction.step_reply {r : Reduction flags.slotsPerCore} {threadId : ℕ}
    (hRecvs : RecvsPosted flags threadId r.th)
    (hIds : 9 * flags.slotsPerCore ≤ 2 ^ 16 ∨ flags.slotsPerCore ∣ 2 ^ 16)
    {i : Fin flags.slotsPerCore} {immData : BitVec 32} (hQueue : r.th.queuePairs i ≠ [])
    (hMatch : isExpected flags (r.th.sendWrs i).rkey immData = true) :
    (r.step flags (.reply i immData)).isSome = true := by
  obtain ⟨id, recvs, hQueues⟩ := List.exists_cons_of_ne_nil (hRecvs.some i)
  have hId : id ∈ postedRecvs flags threadId i :=
    hRecvs.ids i id (hQueues ▸ List.mem_cons_self)
  have hSlot := (recvs_decode_iff flags i.pos threadId).mpr hIds i id hId immData
  simp only [Reduction.step, hQueues]
  rw [if_pos ⟨hQueue, hSlot, hMatch⟩]
  rfl

/-- **A reduction expects what it sends unless the buffer is empty.** With one core, for every
length, every message size and number of slots for which the offsets of the slots do not overflow
and the ids of the receive requests lead back to their queue pairs, and every order of replies,
`outstanding_operations` starts with two operations for each message that is posted, no reply is
missed, and the counter reaches 0 exactly when the last reply is there, if and only if the length
is not 0. -/
theorem expects_what_it_sends_iff (flags : Flags) (hCores : flags.cores = 1)
    (hSlots : 0 < flags.slotsPerCore) (hSize : 0 < flags.messageSize)
    (hFloats : sizeofFloat ∣ flags.messageSize) (hFit : flags.SlotOffsetsFit)
    (hIds : 9 * flags.slotsPerCore ≤ 2 ^ 16 ∨ flags.slotsPerCore ∣ 2 ^ 16) (length : ℕ)
    (th : ThreadState flags.slotsPerCore) (hIdle : ∀ i, th.queuePairs i = [])
    (hRecvs : RecvsPosted flags 0 th) :
    ExpectsWhatItSends flags length th ↔ 0 < length := by
  have hWhole : flags.WholeFloats := ⟨hSize, hFloats⟩
  have hTotal := (computeThreadPointers_one hWhole hCores length hIdle).2
  constructor
  · intro h
    by_contra hZero
    obtain rfl : length = 0 := by omega
    -- nothing is posted, but one message is expected
    have hRun : (Reduction.start flags (computeThreadPointers flags 0 0 th)).run flags [] =
      some (Reduction.start flags (computeThreadPointers flags 0 0 th)) := rfl
    obtain ⟨-, ⟨hBalance, hPending⟩, hLe⟩ := run_one hWhole hFit hCores hIdle hRun
    have hNone : tileCount flags 0 = 0 := Nat.div_eq_of_lt (by omega)
    have hOne : totalMessages flags 0 = 1 := by simp [totalMessages]
    have hOut := (h [] _ hRun).1.mpr ((complete_iff_pending _).mpr (by omega))
    omega
  · intro hLength events r hRun
    obtain ⟨hTiles, ⟨hBalance, hPending⟩, hLe⟩ := run_one hWhole hFit hCores hIdle hRun
    rw [tileCount_eq hWhole hLength] at hLe
    have hAll : r.Complete → r.sent.length = totalMessages flags length := by
      intro hComplete
      have hPerm := (hTiles.complete_addrs hWhole hSlots hComplete).length_eq
      rwa [tileAddrs, List.length_map, List.length_map, List.length_range,
        tileCount_eq hWhole hLength] at hPerm
    have hNew : RecvsPosted flags 0 (computeThreadPointers flags length 0 th) := { hRecvs with }
    have hPosted := recvsPosted_run hNew hRun
    refine ⟨?_, by omega, fun hComplete => by rw [hTotal, hAll hComplete],
      fun i immData => Reduction.step_reply hPosted hIds⟩
    constructor
    · intro hOut
      rw [complete_iff_pending]
      omega
    · intro hComplete
      have := hAll hComplete
      rw [complete_iff_pending] at hComplete
      omega

/-- Three messages of two slots are counted down to 0. -/
theorem expects_what_it_sends_three :
    let flags : Flags := { cores := 1, slotsPerCore := 2, messageSize := 256, packetSize := 256 }
    ExpectsWhatItSends flags 150 (freshThread flags 0 3) := by
  intro flags
  exact (expects_what_it_sends_iff flags rfl (by decide) (by decide) (by decide) (by decide)
    (.inl (by decide)) 150 (freshThread flags 0 3) (fun _ => rfl)
    (recvsPosted_fresh flags 0 3)).mpr (by decide)

/-- **A reduction of nothing does not end.** One message is expected for the barrier, and none
is posted. -/
theorem empty_reduction_waits :
    let flags : Flags := { cores := 1, slotsPerCore := 2, messageSize := 256, packetSize := 256 }
    let r := Reduction.start flags (computeThreadPointers flags 0 0 (freshThread flags 0 3))
    flags.SlotOffsetsFit ∧ r.th.outstandingOperations = 2 ∧ r.sent.length = 0 ∧ r.Complete := by
  intro flags r
  have hEmpty : ∀ i : Fin 2, (r.th.queuePairs i).isEmpty = true := by decide +kernel
  exact ⟨by decide, by decide +kernel, by decide +kernel, fun i => List.isEmpty_iff.mp (hEmpty i)⟩

end Count

end SwitchML.Client
