import SwitchML.Client.Thread

/-!
# SwitchML client — which messages are sent again

`check_for_timeouts` sends the oldest entry of the timeout queue again. An entry is put
in when a WRITE completes, and taken out when the slot posts its next message or posts
its message again. Replies do not touch the queue.

A `ThreadEvent` is one call of a handler, or the start of the next reduction; the events
come in any order. Beside the thread, `Tracked` records which slots wait for a reply to a
message of the current reduction.

* `queue_waits_step` — an event leaves only waiting slots in the queue exactly if it is
  `Timely`: WRITE completions are seen before the reply, a reply that the slot has no
  further message after finds the slot out of the queue, and so does the start of a
  reduction in which the slot has nothing to send. The last reply of a slot is not timely if
  the WRITE completion came before it, as it usually does;
* `only_waiting_resent` — in a run of timely events only unanswered messages are sent again;
  `answered_resent` is a run without loss in which an answered message is.
-/

namespace SwitchML.Client

-- ---------------------------------------------------------------------------
-- Live entries
-- ---------------------------------------------------------------------------

namespace TimeoutQueue

/-- The entry is linked: every live entry is followed by another or by the tail. -/
def isLive (q : TimeoutQueue) (index : ℤ) : Bool := decide ((q.entries index).next ≠ -1)

/-- The array holds a recency queue, and has an entry for each of `S` slots. -/
structure Serves (q : TimeoutQueue) (S : ℕ) : Prop where
  represents : ∃ live, q.Represents live
  size : q.numEntries = S

variable {q : TimeoutQueue} {live : Recency} {S : ℕ}

theorem Represents.isLive_iff (h : q.Represents live) (index : ℤ) :
    q.isLive index = true ↔ index ∈ live.map Prod.fst := by
  unfold isLive
  rw [decide_eq_true_iff]
  constructor
  · intro hNext
    by_contra hMem
    rcases eq_or_ne index q.numEntries with rfl | hTail
    · exact hNext h.linked.last
    · exact hNext (h.linked.dead index (by simp [hMem, hTail])).1
  · intro hMem hNext
    obtain ⟨k, hk, rfl⟩ := List.mem_iff_getElem.mp hMem
    have hJoin := (h.linked.joined_getElem k (by simpa using hk)).1
    rw [List.getElem_append_left hk] at hJoin
    refine (List.nodup_cons.mp h.linked.nodup).1 ?_
    rw [hNext.symm.trans hJoin]
    exact List.getElem_mem _

theorem Serves.remove (h : q.Serves S) (index : ℤ) : (q.remove index).Serves S := by
  obtain ⟨⟨live, hRep⟩, hSize⟩ := h
  exact ⟨⟨_, hRep.remove index⟩, by rw [remove_numEntries, hSize]⟩

theorem Serves.push (h : q.Serves S) (index : ℤ) (timestamp : Timestamp) :
    (q.push index timestamp).Serves S := by
  obtain ⟨⟨live, hRep⟩, hSize⟩ := h
  exact ⟨⟨_, hRep.push index timestamp⟩, by rw [← hSize]; exact q.apply_numEntries (.push _ _)⟩

theorem Serves.isLive_remove (h : q.Serves S) (index i : ℤ) :
    (q.remove index).isLive i = true ↔ q.isLive i = true ∧ i ≠ index := by
  obtain ⟨⟨live, h⟩, -⟩ := h
  rw [(h.remove index).isLive_iff, h.isLive_iff, h.map_remove, h.indices_nodup.mem_erase_iff,
    and_comm]

theorem Serves.isLive_push (h : q.Serves S) (index : Fin S) (timestamp : Timestamp) (i : ℤ) :
    (q.push index timestamp).isLive i = true ↔ q.isLive i = true ∨ i = index := by
  obtain ⟨⟨live, h⟩, hSize⟩ := h
  rw [(h.push index timestamp).isLive_iff, h.isLive_iff, Recency.push, hSize,
    if_pos ⟨by omega, by omega⟩, List.map_cons, List.mem_cons, h.map_remove,
    h.indices_nodup.mem_erase_iff]
  by_cases hi : i = index <;> simp [hi]

theorem Serves.isLive_bottom (h : q.Serves S) (hBottom : 0 ≤ q.bottom.1) :
    q.isLive q.bottom.1 = true := by
  obtain ⟨⟨live, h⟩, -⟩ := h
  rw [h.isLive_iff]
  rw [h.bottom] at hBottom ⊢
  cases hLast : live.getLast? with
  | none => simp [hLast] at hBottom
  | some e => exact List.mem_map_of_mem (List.mem_of_getLast? hLast)

end TimeoutQueue

-- ---------------------------------------------------------------------------
-- Events
-- ---------------------------------------------------------------------------

/-- What a thread does next. -/
inductive ThreadEvent (S : ℕ) where
  | start (length : ℕ)
  | write (wc : Wc S) (timestamp : Timestamp)
  | recv (wc : Wc S)
  | timeout (timestamp : Timestamp)

/-- A thread, and the slots that wait for a reply to a message of this reduction. -/
structure Tracked (S : ℕ) where
  th : ThreadState S
  waits : Fin S → Bool

section Events

variable (flags : Flags)

def Tracked.step (threadId : ℕ) (tr : Tracked flags.slotsPerCore) :
    ThreadEvent flags.slotsPerCore → Tracked flags.slotsPerCore
  | .start length =>
    { th := startReduction flags length threadId tr.th
      waits := hasNext (computeThreadPointers flags length threadId tr.th) }
  | .write wc timestamp => { tr with th := handleWriteCompletion tr.th wc timestamp }
  | .recv wc =>
    { th := handleRecvCompletion flags tr.th wc
      waits := if isExpected flags (tr.th.sendWrs wc.qpIndex).rkey wc.immData then
        Function.update tr.waits wc.qpIndex (hasNext tr.th wc.qpIndex) else tr.waits }
  | .timeout timestamp => { tr with th := checkForTimeouts flags tr.th timestamp }

/-- The event comes in time for the slots it concerns. -/
def Timely (threadId : ℕ) (tr : Tracked flags.slotsPerCore) :
    ThreadEvent flags.slotsPerCore → Prop
  | .start length => ∀ i : Fin flags.slotsPerCore, tr.th.timeouts.isLive i = true →
      hasNext (computeThreadPointers flags length threadId tr.th) i = true
  | .write wc _ => tr.waits wc.qpIndex = true
  | .recv wc => isExpected flags (tr.th.sendWrs wc.qpIndex).rkey wc.immData = true →
      hasNext tr.th wc.qpIndex = true ∨ tr.th.timeouts.isLive wc.qpIndex = false
  | .timeout _ => True

end Events

-- ---------------------------------------------------------------------------
-- What the handlers do to the queue
-- ---------------------------------------------------------------------------

section Queue

variable {flags : Flags} {th : ThreadState flags.slotsPerCore}

theorem postNextSendWr_serves (h : th.timeouts.Serves flags.slotsPerCore)
    (i : Fin flags.slotsPerCore) :
    (postNextSendWr flags th i).timeouts.Serves flags.slotsPerCore := by
  rw [postNextSendWr_timeouts]
  split
  · exact h.remove _
  · exact h

/-- A slot is taken out of the queue when it posts a message. -/
theorem postNextSendWr_isLive (h : th.timeouts.Serves flags.slotsPerCore)
    (i j : Fin flags.slotsPerCore) :
    (postNextSendWr flags th i).timeouts.isLive j = true ↔
      th.timeouts.isLive j = true ∧ ¬ (j = i ∧ hasNext th i = true) := by
  rw [postNextSendWr_timeouts]
  split
  · next hNext =>
    rw [h.isLive_remove]
    simp [hNext, Fin.ext_iff]
  · next hNext => simp [hNext]

/-- The same for several slots in a row. -/
theorem foldl_postNextSendWr (h : th.timeouts.Serves flags.slotsPerCore)
    {slots : List (Fin flags.slotsPerCore)} (hNodup : slots.Nodup) :
    (slots.foldl (postNextSendWr flags) th).timeouts.Serves flags.slotsPerCore ∧
    ∀ j : Fin flags.slotsPerCore,
      (slots.foldl (postNextSendWr flags) th).timeouts.isLive j = true ↔
        th.timeouts.isLive j = true ∧ ¬ (j ∈ slots ∧ hasNext th j = true) := by
  induction slots generalizing th with
  | nil => exact ⟨h, by simp⟩
  | cons i slots ih =>
    obtain ⟨hNew, hNodup⟩ := List.nodup_cons.mp hNodup
    obtain ⟨hServes, hLive⟩ := ih (postNextSendWr_serves h i) hNodup
    refine ⟨hServes, fun j => ?_⟩
    rw [List.foldl_cons, hLive, postNextSendWr_isLive h]
    by_cases hj : j = i
    · subst hj
      simp [hNew]
    · rw [postNextSendWr_hasNext _ _ hj]
      simp [hj]

/-- What the start of a reduction leaves in the queue. -/
theorem startReduction_isLive (h : th.timeouts.Serves flags.slotsPerCore) (length threadId : ℕ) :
    (startReduction flags length threadId th).timeouts.Serves flags.slotsPerCore ∧
    ∀ j : Fin flags.slotsPerCore,
      (startReduction flags length threadId th).timeouts.isLive j = true ↔
        th.timeouts.isLive j = true ∧
          ¬ hasNext (computeThreadPointers flags length threadId th) j = true := by
  have hCompute : (computeThreadPointers flags length threadId th).timeouts.Serves
    flags.slotsPerCore := h
  obtain ⟨hServes, hLive⟩ := foldl_postNextSendWr hCompute (List.nodup_finRange _)
  refine ⟨hServes, fun j => ?_⟩
  rw [startReduction, postInitialWrites, hLive]
  simp [computeThreadPointers]

end Queue

-- ---------------------------------------------------------------------------
-- Only waiting slots are in the queue
-- ---------------------------------------------------------------------------

section Waiting

variable {flags : Flags} {threadId : ℕ} {tr : Tracked flags.slotsPerCore}

/-- Only slots that wait for a reply have an entry in the queue. -/
def OnlyWaiting {S : ℕ} (tr : Tracked S) : Prop :=
  ∀ i : Fin S, tr.th.timeouts.isLive i = true → tr.waits i = true

theorem handleRecvCompletion_timeouts (th : ThreadState flags.slotsPerCore)
    (wc : Wc flags.slotsPerCore) :
    (handleRecvCompletion flags th wc).timeouts =
      if isExpected flags (th.sendWrs wc.qpIndex).rkey wc.immData then
        (postNextSendWr flags th wc.qpIndex).timeouts else th.timeouts := by
  have hPost : (postNextSendWr flags (th.postRecv wc.qpIndex) wc.qpIndex).timeouts =
      (postNextSendWr flags th wc.qpIndex).timeouts := by
    rw [postNextSendWr_timeouts, postNextSendWr_timeouts]
    rfl
  rw [← hPost]
  show (if isExpected flags (th.sendWrs wc.qpIndex).rkey wc.immData = true then _ else _ :
    ThreadState flags.slotsPerCore).timeouts = _
  split <;> rfl

theorem step_serves (h : tr.th.timeouts.Serves flags.slotsPerCore)
    (e : ThreadEvent flags.slotsPerCore) :
    (tr.step flags threadId e).th.timeouts.Serves flags.slotsPerCore := by
  cases e with
  | start length => exact (startReduction_isLive h length threadId).1
  | write wc timestamp => exact h.push wc.qpIndex timestamp
  | recv wc =>
    show (handleRecvCompletion flags tr.th wc).timeouts.Serves _
    rw [handleRecvCompletion_timeouts]
    split
    · exact postNextSendWr_serves h wc.qpIndex
    · exact h
  | timeout timestamp =>
    show (checkForTimeouts flags tr.th timestamp).timeouts.Serves _
    rw [checkForTimeouts_eq]
    cases resent flags tr.th timestamp with
    | none => exact h
    | some i => exact h.remove i

/-- The slot that is sent again has an entry in the queue. -/
theorem resent_isLive (h : tr.th.timeouts.Serves flags.slotsPerCore) {timestamp : Timestamp}
    {i : Fin flags.slotsPerCore} (hResent : resent flags tr.th timestamp = some i) :
    tr.th.timeouts.isLive i = true := by
  unfold resent at hResent
  dsimp only at hResent
  split at hResent
  swap
  · cases hResent
  next hSlot =>
  split at hResent
  swap
  · cases hResent
  obtain rfl := Option.some.inj hResent
  rw [Int.toNat_of_nonneg hSlot.1]
  exact h.isLive_bottom hSlot.1

/-- **Step lemma.** An event leaves only waiting slots in the queue exactly if it is timely. -/
theorem queue_waits_step (h : tr.th.timeouts.Serves flags.slotsPerCore) (hOnly : OnlyWaiting tr)
    (e : ThreadEvent flags.slotsPerCore) :
    OnlyWaiting (tr.step flags threadId e) ↔ Timely flags threadId tr e := by
  cases e with
  | start length =>
    have hLive := (startReduction_isLive h length threadId).2
    constructor
    · intro hNew i hi
      by_contra hNone
      exact hNone (hNew i ((hLive i).mpr ⟨hi, hNone⟩))
    · intro hTimely i hi
      obtain ⟨hOld, hNone⟩ := (hLive i).mp hi
      exact absurd (hTimely i hOld) hNone
  | write wc timestamp =>
    have hLive := h.isLive_push wc.qpIndex timestamp
    constructor
    · exact fun hNew => hNew wc.qpIndex ((hLive wc.qpIndex).mpr (.inr rfl))
    · intro hWaits j hj
      rcases (hLive j).mp hj with hOld | hEq
      · exact hOnly j hOld
      · obtain rfl : j = wc.qpIndex := Fin.ext (by simpa using hEq)
        exact hWaits
  | recv wc =>
    unfold OnlyWaiting Timely Tracked.step
    dsimp only
    rw [handleRecvCompletion_timeouts]
    generalize wc.qpIndex = i
    cases hMatch : isExpected flags (tr.th.sendWrs i).rkey wc.immData with
    | false => exact iff_of_true (fun j hj => hOnly j hj) nofun
    | true =>
      simp only [if_true, postNextSendWr_isLive h]
      constructor
      · intro hNew _
        by_contra hLate
        rw [not_or, Bool.not_eq_true, Bool.not_eq_false] at hLate
        have hWaits := hNew i ⟨hLate.2, by simp [hLate.1]⟩
        rw [Function.update_self] at hWaits
        exact absurd hWaits (by simp [hLate.1])
      · rintro hTimely j ⟨hOld, hNone⟩
        by_cases hj : j = i
        · subst hj
          rw [Function.update_self]
          exact (hTimely trivial).resolve_right (by simp [hOld])
        · rw [Function.update_of_ne hj]
          exact hOnly j hOld
  | timeout timestamp =>
    refine iff_of_true (fun j hj => hOnly j ?_) trivial
    have hEq : (tr.step flags threadId (.timeout timestamp)).th.timeouts =
      (checkForTimeouts flags tr.th timestamp).timeouts := rfl
    rw [hEq, checkForTimeouts_eq] at hj
    cases hResent : resent flags tr.th timestamp with
    | none => simpa [hResent] using hj
    | some i =>
      rw [hResent] at hj
      exact ((h.isLive_remove i j).mp hj).1

/-- A run of a thread, from event to event. -/
def Tracked.run (flags : Flags) (threadId : ℕ) (tr : Tracked flags.slotsPerCore)
    (events : List (ThreadEvent flags.slotsPerCore)) : Tracked flags.slotsPerCore :=
  events.foldl (Tracked.step flags threadId) tr

theorem run_serves (threadId : ℕ) (h : tr.th.timeouts.Serves flags.slotsPerCore)
    (events : List (ThreadEvent flags.slotsPerCore)) :
    (tr.run flags threadId events).th.timeouts.Serves flags.slotsPerCore := by
  induction events generalizing tr with
  | nil => exact h
  | cons e events ih => exact ih (step_serves h e)

/-- All events of a run are timely. -/
def AllTimely (flags : Flags) (threadId : ℕ) (tr : Tracked flags.slotsPerCore) :
    List (ThreadEvent flags.slotsPerCore) → Prop
  | [] => True
  | e :: events =>
    Timely flags threadId tr e ∧ AllTimely flags threadId (tr.step flags threadId e) events

/-- **Run lemma.** -/
theorem queue_waits_run (threadId : ℕ) (h : tr.th.timeouts.Serves flags.slotsPerCore)
    (hOnly : OnlyWaiting tr) (events : List (ThreadEvent flags.slotsPerCore)) :
    (∀ init, init <+: events → OnlyWaiting (tr.run flags threadId init)) ↔
      AllTimely flags threadId tr events := by
  induction events generalizing tr with
  | nil => simpa [AllTimely, Tracked.run] using hOnly
  | cons e events ih =>
    rw [AllTimely, ← queue_waits_step h hOnly e]
    constructor
    · intro hAll
      have hStep : OnlyWaiting (tr.step flags threadId e) := hAll [e] (by simp)
      refine ⟨hStep, (ih (step_serves h e) hStep).mp fun init hInit => ?_⟩
      exact hAll (e :: init) (List.cons_prefix_cons.mpr ⟨rfl, hInit⟩)
    · rintro ⟨hStep, hRest⟩ init hInit
      cases init with
      | nil => exact hOnly
      | cons e' init =>
        obtain ⟨rfl, hTail⟩ := List.cons_prefix_cons.mp hInit
        exact (ih (step_serves h e') hStep).mpr hRest init hTail

/-- A thread before its first reduction: its queue is empty and no slot waits. -/
def Tracked.fresh {S : ℕ} (th : ThreadState S) : Tracked S where
  th := { th with timeouts := TimeoutQueue.init S }
  waits := fun _ => false

/-- **Only unanswered messages are sent again while events are timely.** In any sequence of
reductions and any order of completions and timeouts, the queue holds only slots that wait for
a reply exactly as long as all events are timely, and then a slot whose message is sent again
has posted it in the current reduction and has not handled a matching reply to it. The last reply
of a slot that has an entry in the queue is not timely, so this is about what comes before it. -/
theorem only_waiting_resent (flags : Flags) (threadId : ℕ) (th : ThreadState flags.slotsPerCore)
    (events : List (ThreadEvent flags.slotsPerCore)) :
    ((∀ init, init <+: events → OnlyWaiting ((Tracked.fresh th).run flags threadId init)) ↔
      AllTimely flags threadId (Tracked.fresh th) events) ∧
    (AllTimely flags threadId (Tracked.fresh th) events →
      ∀ init, init <+: events → ∀ timestamp i,
        resent flags ((Tracked.fresh th).run flags threadId init).th timestamp = some i →
          ((Tracked.fresh th).run flags threadId init).waits i = true) := by
  have hServes : (Tracked.fresh th).th.timeouts.Serves flags.slotsPerCore :=
    ⟨⟨[], TimeoutQueue.represents_init _⟩, rfl⟩
  have hOnly : OnlyWaiting (Tracked.fresh th) := by
    intro i hi
    cases hi
  have hIff := queue_waits_run threadId hServes hOnly events
  refine ⟨hIff, fun hTimely init hInit timestamp i hResent => ?_⟩
  exact hIff.mpr hTimely init hInit i (resent_isLive (run_serves threadId hServes init) hResent)

end Waiting

/-- Two slots, three messages. Slot 0 has a reply and posts its second message, and slot 1 sends
its message again. -/
theorem only_waiting_resent_one :
    let flags : Flags := { cores := 1, slotsPerCore := 2, messageSize := 256, packetSize := 256 }
    let events : List (ThreadEvent 2) :=
      [.start 192, .write ⟨0, wrId 0 0, 0⟩ 0, .write ⟨1, wrId 0 1, 0⟩ 1,
        .recv ⟨0, wrId 0 2, replyImmData 0 0⟩, .write ⟨0, wrId 0 0, 0⟩ 3]
    let tr := (Tracked.fresh (freshThread flags 0 3)).run flags 0 events
    resent flags tr.th 5 = some 1 ∧ tr.waits 1 = true := by
  intro flags events tr
  have hResent : resent flags tr.th 5 = some 1 := by decide +kernel
  have hTimely : AllTimely flags 0 (Tracked.fresh (freshThread flags 0 3)) events :=
    ⟨by unfold Timely; decide +kernel, by unfold Timely; decide +kernel,
      by unfold Timely; decide +kernel, by unfold Timely; decide +kernel,
      by unfold Timely; decide +kernel, trivial⟩
  exact ⟨hResent, (only_waiting_resent flags 0 (freshThread flags 0 3) events).2 hTimely events
    List.prefix_rfl 5 1 hResent⟩

/-- **An answered message is sent again.** Two slots, two messages, nothing is lost. The reply
to the message of slot 0 is handled, and the slot has no further message that would take it out
of the queue. It is sent again while slot 1 still waits. -/
theorem answered_resent :
    let flags : Flags := { cores := 1, slotsPerCore := 2, messageSize := 256, packetSize := 256 }
    let posted := (Tracked.fresh (freshThread flags 0 3)).run flags 0 [.start 128]
    let tr := posted.run flags 0
      [.write ⟨0, wrId 0 0, 0⟩ 0, .write ⟨1, wrId 0 1, 0⟩ 1,
        .recv ⟨0, wrId 0 0, replyImmData (posted.th.sendWrs 0).rkey 0⟩]
    0 < tr.th.outstandingOperations ∧ tr.th.timeoutTicks ≠ 0 ∧ resent flags tr.th 5 = some 0 ∧
      tr.waits 0 = false := by
  decide +kernel

end SwitchML.Client
