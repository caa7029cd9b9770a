import Mathlib.Data.List.Perm.Subperm
import Mathlib.Data.List.FinRange
import Mathlib.Data.Nat.ModEq
import SwitchML.Client.Pointers
import SwitchML.Client.TimeoutQueue

/-!
# SwitchML client — a thread's reduction

`ClientThread`: each slot posts one message after the other and waits for the reply to
one before it posts the next; messages without a reply are posted again after a timeout.
`run` polls for completions until `outstanding_operations` is used up.

Around the thread, each queue pair holds what was posted on it and not answered yet, in
order; the switch answers the next of these or does not. A reply uses up the next of the
receive requests of the queue pair, and its completion has the id of that request. The
handlers find the slot in the low 16 bits of the id. The lists `posted` and `answered` are
not part of the client: they record which messages of the reduction were posted, and to which
of them a reply was taken for the one that the slot waits for.

* `recvs_decode_iff` — when the ids of the receive requests lead back to their queue pairs;
* `ThreadInv` — the counter is what is left of two operations for each message, whichever slot
  a completion is taken for;
* `reduction_finished` — a thread whose pointers are right is done only when all its
  messages are posted and answered, if no message is answered twice with success;
  `finished_early` is a reduction in which one is.
-/

namespace SwitchML.Client

-- ---------------------------------------------------------------------------
-- State
-- ---------------------------------------------------------------------------

abbrev Rkey := BitVec 32

abbrev WrId := BitVec 64

/-- `send_wrs[i]` with its `send_sges[i]`. -/
structure SendWr where
  wrId : WrId := 0
  addr : ℕ := 0
  length : BitVec 32 := 0
  remoteAddr : ℕ := 0
  rkey : Rkey
  solicited : Bool := false

/-- A work request on a queue pair, with the message of this reduction that it sends. -/
structure Posted where
  wr : SendWr
  message : Option ℕ

/-- The state of a thread with `S` slots and of its queue pairs. A message is identified
by its address. -/
structure ThreadState (S : ℕ) where
  sendWrs : Fin S → SendWr
  timeouts : TimeoutQueue
  timeoutTicks : Timestamp
  pointers : Fin S → ℕ
  threadEndPointer : ℕ
  outstandingOperations : ℤ
  queuePairs : Fin S → List Posted
  -- `recv_wrs[i].wr_id`, for the requests that are posted again
  recvWrs : Fin S → WrId
  -- the receive requests on a queue pair
  recvQueues : Fin S → List WrId
  -- the message of this reduction that the slot has posted last
  message : Fin S → Option ℕ
  posted : List ℕ
  answered : List ℕ

/-- `ibv_wc`, as far as it is read, and the queue pair it is for. -/
structure Wc (S : ℕ) where
  qp : Fin S
  wrId : WrId
  immData : BitVec 32 := 0

/-- `qp_index`, the slot that the handlers take a completion for. -/
def Wc.qpIndex {S : ℕ} (wc : Wc S) : Fin S :=
  ⟨(wc.wrId &&& 0xffff).toNat % S, Nat.mod_lt _ wc.qp.pos⟩

-- ---------------------------------------------------------------------------
-- `ClientThread`
-- ---------------------------------------------------------------------------

def numReceives : ℕ := 8

/-- The id of request `i` of a thread. -/
def wrId (threadId i : ℕ) : WrId := BitVec.ofNat 64 threadId <<< 16 ||| BitVec.ofNat 64 i

section Thread

variable (flags : Flags)

/-- The rkey of the queue pair with global index `i`, `slots_per_core * thread_id` plus the
slot. -/
def shiftedPoolIndex (i : ℕ) : Rkey :=
  BitVec.ofNat 32 (i * (flags.messageSize / flags.packetSize) * 2) ||| 1

/-- The constructor. `recv_wrs[k]` is posted on queue pair `k % slots_per_core`. -/
def freshThread (threadId : ℕ) (timeoutTicks : Timestamp) : ThreadState flags.slotsPerCore where
  sendWrs := fun i =>
    { wrId := wrId threadId i
      length := BitVec.ofNat 32 flags.messageSize
      rkey := shiftedPoolIndex flags (flags.slotsPerCore * threadId + i) }
  timeouts := TimeoutQueue.init flags.slotsPerCore
  timeoutTicks := timeoutTicks
  pointers := fun _ => 0
  threadEndPointer := 0
  outstandingOperations := 0
  queuePairs := fun _ => []
  recvWrs := fun i => wrId threadId i
  recvQueues := fun i =>
    ((List.range (flags.slotsPerCore + numReceives * flags.slotsPerCore)).filter fun k =>
      decide (k % flags.slotsPerCore = i)).map (wrId threadId)
  message := fun _ => none
  posted := []
  answered := []

/-- `post_recv` of `recv_wrs[i]`. -/
def ThreadState.postRecv {S : ℕ} (th : ThreadState S) (i : Fin S) : ThreadState S :=
  { th with
    recvQueues := Function.update th.recvQueues i (th.recvQueues i ++ [th.recvWrs i]) }

/-- `post_send`. -/
def ThreadState.postSend {S : ℕ} (th : ThreadState S) (i : Fin S) : ThreadState S :=
  { th with
    queuePairs := Function.update th.queuePairs i
      (th.queuePairs i ++ [⟨th.sendWrs i, th.message i⟩]) }

def postNextSendWr (th : ThreadState flags.slotsPerCore) (i : Fin flags.slotsPerCore) :
    ThreadState flags.slotsPerCore :=
  let pointer := th.pointers i
  if pointer < th.threadEndPointer then
    let truncatedMessageLength :=
      BitVec.ofNat 32 ((th.threadEndPointer - pointer) * sizeofFloat)
    let messageSize := BitVec.ofNat 32 flags.messageSize
    let wr : SendWr :=
      { wrId := (th.sendWrs i).wrId
        addr := pointer
        length := if truncatedMessageLength.ult messageSize then truncatedMessageLength
          else messageSize
        -- flip the set
        rkey := (th.sendWrs i).rkey ^^^ 1
        remoteAddr := pointer
        solicited := false }
    let th := { th with
      sendWrs := Function.update th.sendWrs i wr
      timeouts := th.timeouts.remove i
      message := Function.update th.message i (some pointer)
      posted := th.posted ++ [pointer] }.postSend i
    { th with
      pointers := Function.update th.pointers i
        (pointer + flags.slotsPerCore * (flags.messageSize / sizeofFloat))
      outstandingOperations := th.outstandingOperations - 1 }
  else th

/-- `post_next_send_wr` will post a message for the slot. -/
def hasNext {S : ℕ} (th : ThreadState S) (i : Fin S) : Bool :=
  decide (th.pointers i < th.threadEndPointer)

def repostSendWr (th : ThreadState flags.slotsPerCore) (i : Fin flags.slotsPerCore) :
    ThreadState flags.slotsPerCore :=
  { th with
    timeouts := th.timeouts.remove i
    sendWrs := Function.update th.sendWrs i { th.sendWrs i with solicited := true } }.postSend i

/-- The bits of a pool index that are the same for all packets of a message. -/
def poolIndexMessageMask : BitVec 32 :=
  (~~~ (BitVec.ofNat 32 (flags.messageSize / flags.packetSize) - 1)) <<< 1 ||| 1

/-- The reply is for the message that the slot waits for. -/
def isExpected (expectedPoolIndex : Rkey) (immData : BitVec 32) : Bool :=
  let poolIndex := (immData >>> 16) &&& 0x7fff
  let basePoolIndex := poolIndex &&& poolIndexMessageMask flags
  decide (basePoolIndex = expectedPoolIndex)

def handleRecvCompletion (th : ThreadState flags.slotsPerCore) (wc : Wc flags.slotsPerCore) :
    ThreadState flags.slotsPerCore :=
  let i := wc.qpIndex
  let th := th.postRecv i
  if isExpected flags (th.sendWrs i).rkey wc.immData then
    let th := postNextSendWr flags th i
    { th with outstandingOperations := th.outstandingOperations - 1 }
  else th

def handleWriteCompletion {S : ℕ} (th : ThreadState S) (wc : Wc S) (timestamp : Timestamp) :
    ThreadState S :=
  { th with timeouts := th.timeouts.push wc.qpIndex timestamp }

def checkForTimeouts (th : ThreadState flags.slotsPerCore) (timestamp : Timestamp) :
    ThreadState flags.slotsPerCore :=
  let (qpIndex, oldTimestamp) := th.timeouts.bottom
  if h : 0 ≤ qpIndex ∧ qpIndex.toNat < flags.slotsPerCore then
    if th.timeoutTicks.ult (timestamp - oldTimestamp) then
      repostSendWr flags th ⟨qpIndex.toNat, h.2⟩ else th
  else th

/-- The slot whose message `check_for_timeouts` sends again. -/
def resent (th : ThreadState flags.slotsPerCore) (timestamp : Timestamp) :
    Option (Fin flags.slotsPerCore) :=
  let (qpIndex, oldTimestamp) := th.timeouts.bottom
  if h : 0 ≤ qpIndex ∧ qpIndex.toNat < flags.slotsPerCore then
    if th.timeoutTicks.ult (timestamp - oldTimestamp) then some ⟨qpIndex.toNat, h.2⟩ else none
  else none

theorem checkForTimeouts_eq (th : ThreadState flags.slotsPerCore) (timestamp : Timestamp) :
    checkForTimeouts flags th timestamp =
      ((resent flags th timestamp).map (repostSendWr flags th)).getD th := by
  unfold checkForTimeouts resent
  dsimp only
  split
  · split <;> rfl
  · rfl

/-- What `compute_thread_pointers` leaves in the state. -/
def computeThreadPointers (length threadId : ℕ) (th : ThreadState flags.slotsPerCore) :
    ThreadState flags.slotsPerCore :=
  { th with
    threadEndPointer := threadEndPointer flags length threadId
    pointers := fun i => threadStartPointer flags length threadId + slotOffset flags i
    outstandingOperations := 2 *
      ((endMessageIndex flags length threadId : ℤ) - startMessageIndex flags length threadId)
    queuePairs := fun i => (th.queuePairs i).map fun x => { x with message := none }
    message := fun _ => none
    posted := []
    answered := [] }

def postInitialWrites (th : ThreadState flags.slotsPerCore) : ThreadState flags.slotsPerCore :=
  (List.finRange flags.slotsPerCore).foldl (postNextSendWr flags) th

-- ---------------------------------------------------------------------------
-- Completions
-- ---------------------------------------------------------------------------

/-- What happens on the queue pairs. -/
inductive Completion (S : ℕ) where
  | write (i : Fin S)
  -- a reply, with the pool index of one of the packets of the message
  | recv (i : Fin S) (packet : ℕ)
  -- there is no reply to what was posted first
  | noReply (i : Fin S)

/-- The immediate value of a reply. -/
def replyImmData (rkey : Rkey) (packet : ℕ) : BitVec 32 :=
  ((rkey + BitVec.ofNat 32 (2 * packet)) &&& 0x7fff) <<< 16

/-- What was posted first on a queue pair is answered or lost. -/
def ThreadState.pop {S : ℕ} (th : ThreadState S) (i : Fin S) : ThreadState S :=
  { th with queuePairs := Function.update th.queuePairs i (th.queuePairs i).tail }

/-- A reply uses up the first receive request of its queue pair. -/
def ThreadState.takeRecv {S : ℕ} (th : ThreadState S) (i : Fin S) : ThreadState S :=
  { th with recvQueues := Function.update th.recvQueues i (th.recvQueues i).tail }

/-- The next reply on a queue pair: what it is to, and its completion. -/
def nextReply {S : ℕ} (th : ThreadState S) (i : Fin S) (packet : ℕ) : Option (Posted × Wc S) :=
  match th.queuePairs i, th.recvQueues i with
  | x :: _, id :: _ => some (x, ⟨i, id, replyImmData x.wr.rkey packet⟩)
  | _, _ => none

/-- The message that is answered by a reply, if its slot waits for it. -/
def answers (th : ThreadState flags.slotsPerCore) (x : Posted) (wc : Wc flags.slotsPerCore) :
    List ℕ :=
  if isExpected flags (th.sendWrs wc.qpIndex).rkey wc.immData then x.message.toList else []

/-- A reply to `x` on queue pair `i`. -/
def receive (th : ThreadState flags.slotsPerCore) (i : Fin flags.slotsPerCore) (x : Posted)
    (wc : Wc flags.slotsPerCore) : ThreadState flags.slotsPerCore :=
  let th' := handleRecvCompletion flags ((th.pop i).takeRecv i) wc
  { th' with answered := th.answered ++ answers flags th x wc }

def complete (timestamp : Timestamp) (th : ThreadState flags.slotsPerCore) :
    Completion flags.slotsPerCore → ThreadState flags.slotsPerCore
  | .write i => handleWriteCompletion th ⟨i, (th.sendWrs i).wrId, 0⟩ timestamp
  | .recv i packet =>
    match nextReply th i packet with
    -- without a receive request the reply is lost
    | none => th.pop i
    | some (x, wc) => receive flags th i x wc
  | .noReply i => th.pop i

/-- What one poll of the completion queue finds. -/
structure Poll (S : ℕ) where
  timestamp : Timestamp
  completions : List (Completion S)

/-- The body of the loop of `run`. -/
def iteration (th : ThreadState flags.slotsPerCore) (poll : Poll flags.slotsPerCore) :
    ThreadState flags.slotsPerCore :=
  let th := poll.completions.foldl (complete flags poll.timestamp) th
  if th.timeoutTicks ≠ 0 then checkForTimeouts flags th poll.timestamp else th

/-- `run`, as far as the given polls go. -/
def run (th : ThreadState flags.slotsPerCore) :
    List (Poll flags.slotsPerCore) → ThreadState flags.slotsPerCore
  | [] => th
  | poll :: polls =>
    if 0 < th.outstandingOperations then run (iteration flags th poll) polls else th

/-- A reply that a slot takes for the one it waits for is to a message of this reduction that
was not answered before. -/
def takesFirst (th : ThreadState flags.slotsPerCore) : Completion flags.slotsPerCore → Bool
  | .recv i packet =>
    match nextReply th i packet with
    | none => true
    | some (x, wc) => !isExpected flags (th.sendWrs wc.qpIndex).rkey wc.immData ||
      (match x.message with
        | some p => !th.answered.contains p
        | none => false)
  | _ => true

/-- All replies that are taken in a poll are. -/
def pollTakesFirst (timestamp : Timestamp) (th : ThreadState flags.slotsPerCore) :
    List (Completion flags.slotsPerCore) → Bool
  | [] => true
  | c :: cs => takesFirst flags th c && pollTakesFirst timestamp (complete flags timestamp th c) cs

/-- All replies that are taken in a run are. -/
def runTakesFirst (th : ThreadState flags.slotsPerCore) :
    List (Poll flags.slotsPerCore) → Bool
  | [] => true
  | poll :: polls =>
    !decide (0 < th.outstandingOperations) ||
      (pollTakesFirst flags poll.timestamp th poll.completions &&
        runTakesFirst (iteration flags th poll) polls)

/-- A thread between `compute_thread_pointers` and `run`. -/
def startReduction (length threadId : ℕ) (th : ThreadState flags.slotsPerCore) :
    ThreadState flags.slotsPerCore :=
  postInitialWrites flags (computeThreadPointers flags length threadId th)

end Thread

-- ---------------------------------------------------------------------------
-- Ids
-- ---------------------------------------------------------------------------

/-- The low 16 bits of an id do not have the thread. -/
theorem toNat_wrId_and (threadId i : ℕ) : (wrId threadId i &&& 0xffff).toNat = i % 2 ^ 16 := by
  have hMask : (0xffff : WrId) = BitVec.ofNat 64 (2 ^ 16 - 1) := rfl
  apply Nat.eq_of_testBit_eq
  intro b
  rw [wrId, hMask, ← BitVec.getLsbD, BitVec.getLsbD_and, BitVec.getLsbD_or,
    BitVec.getLsbD_shiftLeft, BitVec.getLsbD_ofNat, BitVec.getLsbD_ofNat, BitVec.getLsbD_ofNat,
    Nat.testBit_two_pow_sub_one, Nat.testBit_mod_two_pow]
  by_cases hb : b < 16
  · have h64 : b < 64 := by omega
    simp [hb, h64]
  · simp [hb]

/-- The slot of a completion with an id of the constructor. -/
theorem qpIndex_wrId {S : ℕ} (i : Fin S) (threadId k : ℕ) (immData : BitVec 32) :
    ((⟨i, wrId threadId k, immData⟩ : Wc S).qpIndex : ℕ) = k % 2 ^ 16 % S :=
  congrArg (· % S) (toNat_wrId_and threadId k)

/-- A completion is taken for the slot of its queue pair. -/
def Decodes {S : ℕ} (i : Fin S) (id : WrId) : Prop :=
  ∀ immData, (⟨i, id, immData⟩ : Wc S).qpIndex = i

/-- The ids of the receive requests that the constructor posts on queue pair `i`. -/
def postedRecvs (flags : Flags) (threadId : ℕ) (i : Fin flags.slotsPerCore) : List WrId :=
  (freshThread flags threadId 0).recvQueues i

theorem mem_postedRecvs {flags : Flags} {threadId : ℕ} {i : Fin flags.slotsPerCore} {id : WrId} :
    id ∈ postedRecvs flags threadId i ↔
      ∃ k < 9 * flags.slotsPerCore, k % flags.slotsPerCore = i ∧ wrId threadId k = id := by
  have hCount : flags.slotsPerCore + numReceives * flags.slotsPerCore = 9 * flags.slotsPerCore := by
    rw [numReceives]
    ring
  simp [postedRecvs, freshThread, hCount, and_assoc]

theorem wrId_mem_postedRecvs (flags : Flags) (threadId : ℕ) (i : Fin flags.slotsPerCore) :
    wrId threadId i ∈ postedRecvs flags threadId i :=
  mem_postedRecvs.mpr ⟨i, by omega, Nat.mod_eq_of_lt i.isLt, rfl⟩

/-- **The ids of the receive requests.** All of them lead back to the queue pair that they were
posted on if and only if they have 16 bits, or the number of slots divides `2 ^ 16`. -/
theorem recvs_decode_iff (flags : Flags) (hSlots : 0 < flags.slotsPerCore) (threadId : ℕ) :
    (∀ i, ∀ id ∈ postedRecvs flags threadId i, Decodes i id) ↔
      9 * flags.slotsPerCore ≤ 2 ^ 16 ∨ flags.slotsPerCore ∣ 2 ^ 16 := by
  constructor
  · intro h
    by_contra hNot
    obtain ⟨hMany, hDvd⟩ := not_or.mp hNot
    -- request `2 ^ 16` is taken for slot 0
    have hAt := h ⟨2 ^ 16 % flags.slotsPerCore, Nat.mod_lt _ hSlots⟩ (wrId threadId (2 ^ 16))
      (mem_postedRecvs.mpr ⟨2 ^ 16, by omega, rfl, rfl⟩) 0
    have hVal := congrArg Fin.val hAt
    rw [qpIndex_wrId, Nat.mod_self, Nat.zero_mod] at hVal
    exact hDvd (Nat.dvd_of_mod_eq_zero hVal.symm)
  · intro h i id hId immData
    obtain ⟨k, hk, hMod, rfl⟩ := mem_postedRecvs.mp hId
    apply Fin.ext
    rw [qpIndex_wrId, ← hMod]
    rcases h with hFew | hDvd
    · rw [Nat.mod_eq_of_lt (a := k) (by omega)]
    · exact Nat.mod_mod_of_dvd k hDvd

/-- Every queue pair has receive requests, all of them those of the constructor. -/
structure RecvsPosted (flags : Flags) (threadId : ℕ) (th : ThreadState flags.slotsPerCore) :
    Prop where
  some : ∀ i, th.recvQueues i ≠ []
  ids : ∀ i, ∀ id ∈ th.recvQueues i, id ∈ postedRecvs flags threadId i
  wrs : ∀ i, th.recvWrs i = wrId threadId i

theorem recvsPosted_fresh (flags : Flags) (threadId : ℕ) (timeoutTicks : Timestamp) :
    RecvsPosted flags threadId (freshThread flags threadId timeoutTicks) where
  some i := List.ne_nil_of_mem (wrId_mem_postedRecvs flags threadId i)
  ids _ _ hId := hId
  wrs _ := rfl

/-- A receive request is used up, and one is posted for it. -/
theorem RecvsPosted.repost {flags : Flags} {threadId : ℕ} {th : ThreadState flags.slotsPerCore}
    (h : RecvsPosted flags threadId th) (i : Fin flags.slotsPerCore) :
    RecvsPosted flags threadId ((th.takeRecv i).postRecv i) where
  some j := by
    by_cases hj : j = i
    · subst hj
      simp [ThreadState.postRecv, ThreadState.takeRecv]
    · simpa [ThreadState.postRecv, ThreadState.takeRecv, Function.update_of_ne hj] using h.some j
  ids j id hId := by
    by_cases hj : j = i
    · subst hj
      simp only [ThreadState.postRecv, ThreadState.takeRecv, Function.update_self] at hId
      rcases List.mem_append.mp hId with hId | hId
      · exact h.ids j id (List.mem_of_mem_tail hId)
      · rw [List.mem_singleton.mp hId, h.wrs]
        exact wrId_mem_postedRecvs flags threadId j
    · simp only [ThreadState.postRecv, ThreadState.takeRecv, Function.update_of_ne hj] at hId
      exact h.ids j id hId
  wrs := h.wrs

-- ---------------------------------------------------------------------------
-- What `post_next_send_wr` does
-- ---------------------------------------------------------------------------

section PostNext

variable {flags : Flags} (th : ThreadState flags.slotsPerCore) (i : Fin flags.slotsPerCore)

/-- A field of the thread changes only if there is a message to post. -/
theorem postNextSendWr_field {α : Type} {field : ThreadState flags.slotsPerCore → α} {posted : α}
    (hPost : th.pointers i < th.threadEndPointer → field (postNextSendWr flags th i) = posted) :
    field (postNextSendWr flags th i) = if hasNext th i then posted else field th := by
  unfold hasNext
  by_cases h : th.pointers i < th.threadEndPointer
  · rw [hPost h, if_pos (decide_eq_true h)]
  · rw [if_neg (by simpa using h), postNextSendWr, if_neg h]

theorem postNextSendWr_timeouts :
    (postNextSendWr flags th i).timeouts =
      if hasNext th i then th.timeouts.remove i else th.timeouts := by
  refine postNextSendWr_field th i fun h => ?_
  rw [postNextSendWr, if_pos h]
  rfl

theorem postNextSendWr_pointers :
    (postNextSendWr flags th i).pointers =
      if hasNext th i then
        Function.update th.pointers i (th.pointers i + flags.slotsPerCore * floatsPerMessage flags)
      else th.pointers := by
  refine postNextSendWr_field th i fun h => ?_
  rw [postNextSendWr, if_pos h]
  rfl

/-- The receive requests stay as they are. -/
theorem postNextSendWr_recvs :
    (postNextSendWr flags th i).recvQueues = th.recvQueues ∧
      (postNextSendWr flags th i).recvWrs = th.recvWrs := by
  unfold postNextSendWr
  dsimp only
  split <;> exact ⟨rfl, rfl⟩

@[simp] theorem postNextSendWr_threadEndPointer :
    (postNextSendWr flags th i).threadEndPointer = th.threadEndPointer := by
  unfold postNextSendWr
  dsimp only
  split <;> rfl

theorem postNextSendWr_outstandingOperations :
    (postNextSendWr flags th i).outstandingOperations =
      if hasNext th i then th.outstandingOperations - 1 else th.outstandingOperations := by
  refine postNextSendWr_field th i fun h => ?_
  rw [postNextSendWr, if_pos h]
  rfl

/-- The work request that is posted for a slot. -/
def postedWr : Posted where
  wr := (postNextSendWr flags th i).sendWrs i
  message := some (th.pointers i)

theorem postNextSendWr_queuePairs :
    (postNextSendWr flags th i).queuePairs =
      if hasNext th i then
        Function.update th.queuePairs i (th.queuePairs i ++ [postedWr th i])
      else th.queuePairs := by
  refine postNextSendWr_field th i fun h => ?_
  rw [postedWr, postNextSendWr, if_pos h]
  simp [ThreadState.postSend]

/-- Other slots stay where they are. -/
theorem postNextSendWr_hasNext {j : Fin flags.slotsPerCore} (hj : j ≠ i) :
    hasNext (postNextSendWr flags th i) j = hasNext th j := by
  unfold hasNext
  rw [postNextSendWr_threadEndPointer, postNextSendWr_pointers]
  split
  · rw [Function.update_of_ne hj]
  · rfl

end PostNext

-- ---------------------------------------------------------------------------
-- The invariant
-- ---------------------------------------------------------------------------

/-- A thread that is to send messages `start` to `stop - 1`. -/
structure ThreadInv (flags : Flags) (start stop : ℕ) (th : ThreadState flags.slotsPerCore) :
    Prop where
  inside : th.threadEndPointer ≤ stop * floatsPerMessage flags
  count : th.outstandingOperations + th.posted.length + th.answered.length =
    2 * ((stop : ℤ) - start)
  posted_nodup : th.posted.Nodup
  posted_mem : ∀ p ∈ th.posted, ∃ (_ : Fin flags.slotsPerCore) (k : ℕ), start ≤ k ∧ k < stop ∧
    p = k * floatsPerMessage flags
  -- slot `i` posts every `slotsPerCore`-th message, and has not posted the next one
  next : ∀ i : Fin flags.slotsPerCore, ∃ k, start ≤ k ∧
    k % flags.slotsPerCore = (start + i) % flags.slotsPerCore ∧
    th.pointers i = k * floatsPerMessage flags ∧
    ∀ k', k' * floatsPerMessage flags ∈ th.posted →
      k' % flags.slotsPerCore = k % flags.slotsPerCore → k' < k
  current : ∀ i p, th.message i = some p → p ∈ th.posted
  queued : ∀ i, ∀ x ∈ th.queuePairs i, ∀ p, x.message = some p → p ∈ th.posted
  answered_nodup : th.answered.Nodup
  answered_mem : ∀ p ∈ th.answered, p ∈ th.posted

section Steps

variable {flags : Flags} {start stop : ℕ} {th : ThreadState flags.slotsPerCore}

theorem ThreadInv.postSend (h : ThreadInv flags start stop th) (i : Fin flags.slotsPerCore) :
    ThreadInv flags start stop (th.postSend i) := by
  refine { h with queued := fun j x hx p hp => ?_ }
  by_cases hj : j = i
  · subst hj
    simp only [ThreadState.postSend, Function.update_self] at hx
    rcases List.mem_append.mp hx with hx | hx
    · exact h.queued j x hx p hp
    · rw [List.mem_singleton.mp hx] at hp
      exact h.current j p hp
  · simp only [ThreadState.postSend, Function.update_of_ne hj] at hx
    exact h.queued j x hx p hp

/-- Slots that post the same residue of messages are the same. -/
theorem slot_eq_of_mod {S a : ℕ} {i j : Fin S} (h : (a + i) % S = (a + j) % S) : i = j := by
  have hEq : (i : ℕ) ≡ j [MOD S] := Nat.ModEq.add_left_cancel' a h
  exact Fin.ext (Nat.ModEq.eq_of_lt_of_lt hEq i.isLt j.isLt)

/-- The next message of a slot is not posted yet. -/
theorem ThreadInv.pointer_notMem (h : ThreadInv flags start stop th)
    (i : Fin flags.slotsPerCore) : th.pointers i ∉ th.posted := by
  obtain ⟨k, -, -, hPointer, hLater⟩ := h.next i
  rw [hPointer]
  exact fun hMem => Nat.lt_irrefl k (hLater k hMem rfl)

/-- The next message of a slot is new and one of the thread's. It is recorded before it is on
the queue pair. -/
theorem ThreadInv.record (h : ThreadInv flags start stop th)
    (hFloats : 0 < floatsPerMessage flags) {i : Fin flags.slotsPerCore}
    (hMore : th.pointers i < th.threadEndPointer) (sendWrs : Fin flags.slotsPerCore → SendWr)
    (timeouts : TimeoutQueue) :
    ThreadInv flags start stop
      { th with
        sendWrs, timeouts
        posted := th.posted ++ [th.pointers i]
        message := Function.update th.message i (some (th.pointers i))
        pointers := Function.update th.pointers i
          (th.pointers i + flags.slotsPerCore * (flags.messageSize / sizeofFloat))
        outstandingOperations := th.outstandingOperations - 1 } := by
  obtain ⟨k, hStart, hSlot, hPointer, hLater⟩ := h.next i
  have hStop : k < stop := by
    have hLt := Nat.lt_of_lt_of_le hMore h.inside
    rw [hPointer] at hLt
    exact Nat.lt_of_mul_lt_mul_right hLt
  have hNew := h.pointer_notMem i
  have hSame : ∀ k', k' * floatsPerMessage flags ∈ th.posted ++ [th.pointers i] →
      k' * floatsPerMessage flags ∈ th.posted ∨ k' = k := by
    intro k' hk'
    rcases List.mem_append.mp hk' with hk' | hk'
    · exact .inl hk'
    · rw [List.mem_singleton, hPointer] at hk'
      exact .inr (Nat.eq_of_mul_eq_mul_right hFloats hk')
  refine
    { inside := h.inside, count := ?_, posted_nodup := ?_, posted_mem := fun p hp => ?_
      next := fun j => ?_, current := fun j p hp => ?_, queued := fun j x hx p hp => ?_
      answered_nodup := h.answered_nodup, answered_mem := fun p hp => ?_ }
  · have := h.count
    simp only [List.length_append, List.length_singleton]
    push_cast
    omega
  · exact List.nodup_append.mpr ⟨h.posted_nodup, List.nodup_singleton _, by
      simpa using fun p hp (hEq : p = th.pointers i) => hNew (hEq ▸ hp)⟩
  · rcases List.mem_append.mp hp with hp | hp
    · exact h.posted_mem p hp
    · exact ⟨i, k, hStart, hStop, (List.mem_singleton.mp hp).trans hPointer⟩
  · by_cases hj : j = i
    · subst hj
      refine ⟨k + flags.slotsPerCore, by omega, by rw [Nat.add_mod_right, hSlot], ?_, ?_⟩
      · show Function.update th.pointers j _ j = _
        rw [Function.update_self, hPointer, Nat.add_mul]
        rfl
      · intro k' hk' hMod
        rw [Nat.add_mod_right] at hMod
        have hPos := j.pos
        rcases hSame k' hk' with hOld | rfl
        · have := hLater k' hOld hMod
          omega
        · omega
    · obtain ⟨m, hStartM, hSlotM, hPointerM, hLaterM⟩ := h.next j
      refine ⟨m, hStartM, hSlotM, ?_, fun k' hk' hMod => ?_⟩
      · show Function.update th.pointers i _ j = _
        rw [Function.update_of_ne hj, hPointerM]
      · rcases hSame k' hk' with hOld | rfl
        · exact hLaterM k' hOld hMod
        · rw [hSlotM, hSlot] at hMod
          exact absurd (slot_eq_of_mod hMod).symm hj
  · by_cases hj : j = i
    · subst hj
      have hEq : some (th.pointers j) = some p := by
        simpa [Function.update_self] using hp
      rw [← Option.some.inj hEq]
      exact List.mem_append_right _ (List.mem_singleton_self _)
    · have hOld : th.message j = some p := by
        simpa [Function.update_of_ne hj] using hp
      exact List.mem_append_left _ (h.current j p hOld)
  · exact List.mem_append_left _ (h.queued j x hx p hp)
  · exact List.mem_append_left _ (h.answered_mem p hp)

theorem ThreadInv.postNextSendWr (h : ThreadInv flags start stop th)
    (hFloats : 0 < floatsPerMessage flags) (i : Fin flags.slotsPerCore) :
    ThreadInv flags start stop (postNextSendWr flags th i) := by
  unfold Client.postNextSendWr
  dsimp only
  split
  · next hMore => exact { (h.record hFloats hMore _ _).postSend i with }
  · exact h

theorem ThreadInv.repostSendWr (h : ThreadInv flags start stop th) (i : Fin flags.slotsPerCore) :
    ThreadInv flags start stop (repostSendWr flags th i) := by
  have hSolicited : ThreadInv flags start stop
      { th with
        timeouts := th.timeouts.remove i
        sendWrs := Function.update th.sendWrs i { th.sendWrs i with solicited := true } } :=
    { h with }
  exact hSolicited.postSend i

theorem ThreadInv.checkForTimeouts (h : ThreadInv flags start stop th) (timestamp : Timestamp) :
    ThreadInv flags start stop (checkForTimeouts flags th timestamp) := by
  unfold Client.checkForTimeouts
  dsimp only
  split
  · split
    · exact h.repostSendWr _
    · exact h
  · exact h

theorem postNextSendWr_answered (th : ThreadState flags.slotsPerCore)
    (i : Fin flags.slotsPerCore) :
    (Client.postNextSendWr flags th i).answered = th.answered := by
  unfold Client.postNextSendWr
  dsimp only
  split <;> rfl

theorem postNextSendWr_posted (i : Fin flags.slotsPerCore) :
    th.posted ⊆ (Client.postNextSendWr flags th i).posted := by
  unfold Client.postNextSendWr
  dsimp only
  split
  · exact List.subset_append_left _ _
  · exact List.Subset.refl _

/-- A queue pair loses what was posted first. -/
theorem ThreadInv.pop (h : ThreadInv flags start stop th) (i : Fin flags.slotsPerCore) :
    ThreadInv flags start stop (th.pop i) := by
  refine { h with queued := fun j x hx p hp => ?_ }
  by_cases hj : j = i
  · subst hj
    simp only [ThreadState.pop, Function.update_self] at hx
    exact h.queued j x (List.mem_of_mem_tail hx) p hp
  · simp only [ThreadState.pop, Function.update_of_ne hj] at hx
    exact h.queued j x hx p hp

/-- A message is answered for the first time. -/
theorem ThreadInv.answer (h : ThreadInv flags start stop th) {p : ℕ} (hPosted : p ∈ th.posted)
    (hNew : p ∉ th.answered) :
    ThreadInv flags start stop
      { th with
        outstandingOperations := th.outstandingOperations - 1
        answered := th.answered ++ [p] } := by
  refine { h with count := ?_, answered_nodup := ?_, answered_mem := fun q hq => ?_ }
  · have := h.count
    simp only [List.length_append, List.length_singleton]
    push_cast
    omega
  · exact List.nodup_append.mpr ⟨h.answered_nodup, List.nodup_singleton _, by
      simpa using fun q hq (hEq : q = p) => hNew (hEq ▸ hq)⟩
  · rcases List.mem_append.mp hq with hq | hq
    · exact h.answered_mem q hq
    · exact List.mem_singleton.mp hq ▸ hPosted

/-- A reply is one operation less if the slot it is taken for waits for it. -/
theorem ThreadInv.receive (h : ThreadInv flags start stop th)
    (hFloats : 0 < floatsPerMessage flags) {i : Fin flags.slotsPerCore} {x : Posted}
    (hx : x ∈ th.queuePairs i) {wc : Wc flags.slotsPerCore}
    (hFirst : isExpected flags (th.sendWrs wc.qpIndex).rkey wc.immData = true →
      ∃ p, x.message = some p ∧ p ∉ th.answered) :
    ThreadInv flags start stop (receive flags th i x wc) := by
  -- the receive requests are not part of the invariant
  have hPop : ThreadInv flags start stop (((th.pop i).takeRecv i).postRecv wc.qpIndex) :=
    { h.pop i with }
  unfold Client.receive handleRecvCompletion answers
  dsimp only
  cases hMatch : isExpected flags (th.sendWrs wc.qpIndex).rkey wc.immData with
  | false =>
    have hSame : isExpected flags ((((th.pop i).takeRecv i).postRecv wc.qpIndex).sendWrs
      wc.qpIndex).rkey wc.immData = false := hMatch
    simp only [hSame, Bool.false_eq_true, if_false, List.append_nil]
    exact hPop
  | true =>
    obtain ⟨p, hMessage, hNew⟩ := hFirst hMatch
    have hPosted : p ∈ th.posted := h.queued i x hx p hMessage
    have hAnswered := postNextSendWr_answered
      (((th.pop i).takeRecv i).postRecv wc.qpIndex) wc.qpIndex
    have hNext := (hPop.postNextSendWr hFloats wc.qpIndex).answer
      (postNextSendWr_posted wc.qpIndex hPosted) (by rw [hAnswered]; exact hNew)
    have hSame : isExpected flags ((((th.pop i).takeRecv i).postRecv wc.qpIndex).sendWrs
      wc.qpIndex).rkey wc.immData = true := hMatch
    rw [hAnswered] at hNext
    simp only [hSame, if_true, hMessage, Option.toList_some]
    exact hNext

theorem nextReply_mem {i : Fin flags.slotsPerCore} {packet : ℕ} {x : Posted}
    {wc : Wc flags.slotsPerCore} (h : nextReply th i packet = some (x, wc)) :
    x ∈ th.queuePairs i := by
  unfold nextReply at h
  split at h
  · next hQueue _ =>
    obtain ⟨rfl, -⟩ := Prod.mk.inj (Option.some.inj h)
    rw [hQueue]
    exact List.mem_cons_self
  · cases h

/-- **Step lemma.** A completion is one operation less if it is a first reply. -/
theorem ThreadInv.complete (h : ThreadInv flags start stop th)
    (hFloats : 0 < floatsPerMessage flags) (timestamp : Timestamp)
    {c : Completion flags.slotsPerCore} (hFirst : takesFirst flags th c = true) :
    ThreadInv flags start stop (complete flags timestamp th c) := by
  cases c with
  | write i => exact { h with }
  | noReply i => exact h.pop i
  | recv i packet =>
    simp only [Client.complete, takesFirst] at hFirst ⊢
    cases hReply : nextReply th i packet with
    | none => exact h.pop i
    | some reply =>
      obtain ⟨x, wc⟩ := reply
      refine h.receive hFloats (nextReply_mem hReply) fun hMatch => ?_
      rw [hReply] at hFirst
      dsimp only at hFirst
      rw [hMatch, Bool.not_true, Bool.false_or] at hFirst
      cases hx : x.message with
      | none => simp [hx] at hFirst
      | some p => exact ⟨p, rfl, by simpa [hx] using hFirst⟩

theorem ThreadInv.iteration (h : ThreadInv flags start stop th)
    (hFloats : 0 < floatsPerMessage flags) {poll : Poll flags.slotsPerCore}
    (hFirst : pollTakesFirst flags poll.timestamp th poll.completions = true) :
    ThreadInv flags start stop (iteration flags th poll) := by
  have hAll : ∀ (cs : List (Completion flags.slotsPerCore)) (th : ThreadState flags.slotsPerCore),
      ThreadInv flags start stop th → pollTakesFirst flags poll.timestamp th cs = true →
      ThreadInv flags start stop (cs.foldl (Client.complete flags poll.timestamp) th) := by
    intro cs
    induction cs with
    | nil => exact fun _ h _ => h
    | cons c cs ih =>
      intro th h hFirst
      rw [pollTakesFirst, Bool.and_eq_true] at hFirst
      exact ih _ (h.complete hFloats poll.timestamp hFirst.1) hFirst.2
  have hDone := hAll poll.completions th h hFirst
  unfold Client.iteration
  dsimp only
  split
  · exact hDone.checkForTimeouts poll.timestamp
  · exact hDone

/-- **Run lemma.** -/
theorem ThreadInv.run (h : ThreadInv flags start stop th) (hFloats : 0 < floatsPerMessage flags)
    {polls : List (Poll flags.slotsPerCore)} (hFirst : runTakesFirst flags th polls = true) :
    ThreadInv flags start stop (run flags th polls) := by
  induction polls generalizing th with
  | nil => exact h
  | cons poll polls ih =>
    rw [Client.run]
    split
    · next hMore =>
      rw [runTakesFirst, decide_eq_true hMore, Bool.not_true, Bool.false_or,
        Bool.and_eq_true] at hFirst
      exact ih (h.iteration hFloats hFirst.1) hFirst.2
    · exact h

theorem ThreadInv.postInitialWrites (h : ThreadInv flags start stop th)
    (hFloats : 0 < floatsPerMessage flags) :
    ThreadInv flags start stop (postInitialWrites flags th) := by
  unfold Client.postInitialWrites
  induction List.finRange flags.slotsPerCore generalizing th with
  | nil => exact h
  | cons i slots ih => exact ih (h.postNextSendWr hFloats i)

end Steps

section Reduction

variable {flags : Flags} {length threadId : ℕ}

/-- The invariant at the start of a reduction, if the end pointer is not behind the thread's
last message. -/
theorem threadInv_compute (hWhole : flags.WholeFloats) (hFit : flags.SlotOffsetsFit)
    (hEnds : startMessageIndex flags length threadId = 0 ∨
      totalMessages flags length ≤ endMessageIndex flags length threadId)
    (th : ThreadState flags.slotsPerCore) :
    ThreadInv flags (startMessageIndex flags length threadId)
      (endMessageIndex flags length threadId) (computeThreadPointers flags length threadId th) := by
  constructor
  · show threadEndPointer flags length threadId ≤ _
    unfold threadEndPointer threadStartPointer
    rw [hWhole.pointer_eq, hWhole.pointer_eq]
    rcases hEnds with hZero | hEnd
    · rw [hZero, Nat.zero_mul, Nat.zero_add]
      exact Nat.min_le_left _ _
    · refine (Nat.min_le_right _ _).trans ((length_le_totalMessages _ hWhole).trans ?_)
      exact Nat.mul_le_mul_right _ hEnd
  · simp [computeThreadPointers]
  · exact List.nodup_nil
  · simp [computeThreadPointers]
  · intro i
    refine ⟨startMessageIndex flags length threadId + i, Nat.le_add_right _ _, rfl, ?_, ?_⟩
    · show threadStartPointer flags length threadId + slotOffset flags i = _
      rw [threadStartPointer, hWhole.pointer_eq, hFit.slotOffset_eq hWhole, Nat.add_mul]
    · simp [computeThreadPointers]
  · simp [computeThreadPointers]
  · simp [computeThreadPointers]
  · exact List.nodup_nil
  · simp [computeThreadPointers]

/-- What is left when the counter is used up. -/
theorem ThreadInv.all_done {start stop : ℕ} {th : ThreadState flags.slotsPerCore}
    (h : ThreadInv flags start stop th) (hLe : start ≤ stop)
    (hDone : th.outstandingOperations ≤ 0) {k : ℕ} (hStart : start ≤ k) (hStop : k < stop) :
    k * floatsPerMessage flags ∈ th.posted ∧ k * floatsPerMessage flags ∈ th.answered := by
  have hSub : th.posted ⊆ (List.range' start (stop - start)).map (· * floatsPerMessage flags) := by
    intro p hp
    obtain ⟨-, k, hk, hk', rfl⟩ := h.posted_mem p hp
    exact List.mem_map_of_mem (List.mem_range'_1.mpr ⟨hk, by omega⟩)
  have hPosted := h.posted_nodup.subperm hSub
  have hAnswered := h.answered_nodup.subperm fun p hp => hSub (h.answered_mem p hp)
  have hCount := h.count
  have hLengthP := hPosted.length_le
  have hLengthA := hAnswered.length_le
  rw [List.length_map, List.length_range'] at hLengthP hLengthA
  have hMem : k * floatsPerMessage flags ∈
      (List.range' start (stop - start)).map (· * floatsPerMessage flags) :=
    List.mem_map_of_mem (List.mem_range'_1.mpr ⟨hStart, by omega⟩)
  constructor
  · refine (hPosted.perm_of_length_le ?_).mem_iff.mpr hMem
    rw [List.length_map, List.length_range']
    omega
  · refine (hAnswered.perm_of_length_le ?_).mem_iff.mpr hMem
    rw [List.length_map, List.length_range']
    omega

/-- **A thread finishes when it is done.** If the offsets of the slots do not overflow, a thread
starts with the first message or ends with the last, and takes no second reply for the one that
it waits for, then all its messages are posted and answered when `outstanding_operations` is used
up. -/
theorem reduction_finished (flags : Flags) (length threadId : ℕ) (hSize : 0 < flags.messageSize)
    (hFloats : sizeofFloat ∣ flags.messageSize) (hFit : flags.SlotOffsetsFit)
    (hEnds : startMessageIndex flags length threadId = 0 ∨
      totalMessages flags length ≤ endMessageIndex flags length threadId)
    (th : ThreadState flags.slotsPerCore) (polls : List (Poll flags.slotsPerCore))
    (hFirst : runTakesFirst flags (startReduction flags length threadId th) polls = true)
    (hDone : (run flags (startReduction flags length threadId th) polls).outstandingOperations ≤ 0)
    {k : ℕ} (hStart : startMessageIndex flags length threadId ≤ k)
    (hStop : k < endMessageIndex flags length threadId) :
    let done := run flags (startReduction flags length threadId th) polls
    k * floatsPerMessage flags ∈ done.posted ∧ k * floatsPerMessage flags ∈ done.answered := by
  intro done
  have hWhole : flags.WholeFloats := ⟨hSize, hFloats⟩
  have hPos := hWhole.floatsPerMessage_pos
  have hInv := ((threadInv_compute hWhole hFit hEnds th).postInitialWrites hPos).run hPos hFirst
  exact hInv.all_done (Nat.le_add_right _ _) hDone hStart hStop

/-- Two slots, three messages, and one that is sent again before its reply is there. -/
theorem reduction_finished_three :
    let flags : Flags := { cores := 1, slotsPerCore := 2, messageSize := 256, packetSize := 256 }
    let polls : List (Poll 2) :=
      [⟨0, [.write 0, .write 1]⟩, ⟨5, [.noReply 0]⟩, ⟨6, [.recv 0 0, .recv 1 0]⟩,
        ⟨7, [.recv 0 0]⟩]
    let done := run flags (startReduction flags 192 0 (freshThread flags 0 3)) polls
    done.outstandingOperations = 0 ∧ 2 * floatsPerMessage flags ∈ done.posted ∧
      2 * floatsPerMessage flags ∈ done.answered := by
  intro flags polls done
  exact ⟨by decide +kernel,
    reduction_finished flags 192 0 (by decide) (by decide) (by decide) (.inl (by decide))
      (freshThread flags 0 3) polls (by decide +kernel) (by decide +kernel) (by decide) (by decide)⟩

/-- **A thread that finishes early.** Two slots, two messages. Slot 0 sends its message again
after a timeout, and both replies come. The slot has no further message, so it still expects
the reply it has got, and counts the second one in the place of the reply to the message of
slot 1. -/
theorem finished_early :
    let flags : Flags := { cores := 1, slotsPerCore := 2, messageSize := 256, packetSize := 256 }
    let polls : List (Poll 2) :=
      [⟨0, [.write 0, .write 1]⟩, ⟨5, []⟩, ⟨6, [.recv 0 0, .recv 0 0]⟩]
    let done := run flags (startReduction flags 128 0 (freshThread flags 0 3)) polls
    done.outstandingOperations = 0 ∧
      startMessageIndex flags 128 0 = 0 ∧ endMessageIndex flags 128 0 = 2 ∧
      done.posted = [0, 1 * floatsPerMessage flags] ∧ done.answered = [0, 0] := by
  decide +kernel

end Reduction

end SwitchML.Client
