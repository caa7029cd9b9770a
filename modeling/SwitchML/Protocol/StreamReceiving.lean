import SwitchML.Protocol.StreamMoves

/-!
# SwitchML protocol — the receive stage and a stream

The register of a worker's queue pair while the worker sends message after message. Within a
message it does what `Receiving` says of one message; what is left is where the receive stage
is when a message starts and when it ends.

* `Position` — where the receive stage is in a message;
* `Position.arrive` — a packet is let into its own slot, or into none;
* `Position.next` — after the last packet of a message the stage waits for the next message.
-/

namespace SwitchML

namespace Stream

variable {x : Stream} {w : Fin x.job.n} {k : ℕ} {rp : RocePacket}

-- ---------------------------------------------------------------------------
-- The receive stage
-- ---------------------------------------------------------------------------

variable (x) in
/-- One message of a worker. -/
def sender (w : Fin x.job.n) (k : ℕ) : Sender where
  firstPsn := x.psn w k 0
  messages := [⟨x.job.pool k, x.sizes k⟩]
  distinct := by
    have hLe := x.sizes_le k
    have hFits := x.fits
    have hSlots : numSlots = 8192 := rfl
    simp only [List.map_cons, List.map_nil, List.sum_cons, List.sum_nil]
    omega

/-- The message of `sender`. -/
abbrev theMessage : Fin (x.sender w k).messages.length := ⟨0, Nat.zero_lt_one⟩

variable (x) in
/-- What the register of a worker's queue pair says of the message: the packet taken last,
or that a packet was rejected. -/
def Tracks (w : Fin x.job.n) (k : ℕ) (data : ReceiverData) (pos : Option ℕ) : Prop :=
  (x.sender w k).Tracks data (pos.map fun i => (theMessage, i))

theorem sender_psn (j : ℕ) : (x.sender w k).psn 0 j = x.psn w k j := by
  have hOffset : (x.sender w k).offset 0 = 0 := rfl
  unfold Sender.psn
  rw [hOffset]
  simp only [sender, psn]
  bv_omega

theorem Sent.sends {j : ℕ} (h : x.Sent w k j rp) :
    (x.sender w k).sends theMessage j rp = true := by
  have hPsn : rp.psn = (x.sender w k).psn 0 j := h.psn.trans (sender_psn j).symm
  simp only [Sender.sends, Bool.and_eq_true, Bool.or_eq_true, decide_eq_true_eq]
  refine ⟨⟨⟨⟨⟨h.lt, h.write⟩, h.first⟩, h.last⟩, hPsn⟩, ?_⟩
  by_cases h0 : j = 0
  · exact .inr (h.rKey h0)
  · exact .inl h0

theorem Sent.qp {j : ℕ} (h : x.Sent w k j rp) : qpIndex rp.dstQp = x.qp w := by
  rw [h.dstQp]
  rfl

variable (x) in
/-- The queue pair of a worker during a message. -/
noncomputable def session (w : Fin x.job.n) (k : ℕ) : Session where
  cfg := x.job.config
  before := (x.job.workers_split w).choose
  worker := x.job.receiveEntry w
  after := (x.job.workers_split w).choose_spec.choose
  workers_eq := (x.job.workers_split w).choose_spec.choose_spec.1
  unique := (x.job.workers_split w).choose_spec.choose_spec.2
  sender := x.sender w k
  qp := x.qp w

theorem Sent.receives {j : ℕ} (h : x.Sent w k j rp) :
    (x.session w k).receives theMessage j (x.job.port w) rp = true := by
  have hParse : (parseRoce x.job.config (x.job.port w) rp).isSome = true := by
    obtain ⟨d0, d1, rest, hPayload⟩ := exists_slices_left h.length (i := 0) x.job.pipes_pos
    rw [Fin.val_zero, Nat.mul_zero, List.drop_zero] at hPayload
    simp [parseRoce, x.job.port_not_recirculation w, hPayload]
  simp only [Session.receives, Bool.and_eq_true, decide_eq_true_eq]
  exact ⟨⟨⟨h.sends, h.matching⟩, h.qp⟩, hParse⟩

/-- The register after the packet. -/
theorem Sent.receiverData {j : ℕ} (h : x.Sent w k j rp) (regs : Registers) :
    (receiveRoce x.job.config {} (x.job.port w) rp regs).1.receiverData (x.qp w) =
      (receiverAction rp (regs.receiverData (x.qp w))).1 :=
  Session.receiverData_of_receives {} h.receives

/-- The pool index that the packet is given. -/
theorem Sent.verdict {j : ℕ} (h : x.Sent w k j rp) {regs : Registers} {pos : Option ℕ}
    (hTracks : x.Tracks w k (receiverAction rp (regs.receiverData (x.qp w))).1 pos)
    (hFirst : j = 0 → pos ≠ none) :
    receivedPoolIndex x.job.config.workers rp regs = pos.map (x.pool k) := by
  cases pos with
  | none => exact Session.verdict_of_receives h.receives hTracks fun h0 => absurd rfl (hFirst h0)
  | some i =>
    have hVerdict := Session.verdict_of_receives h.receives hTracks fun _ => Option.some_ne_none _
    exact hVerdict.trans (congrArg some (PoolIndex.ofNat_mk_add x.job.slot (x.job.set k) i))

/-- A packet in sequence, or the first. -/
theorem Sent.tracks {j : ℕ} (h : x.Sent w k j rp) {data : ReceiverData} {pos : Option ℕ}
    (hTracks : x.Tracks w k data pos) :
    x.Tracks w k (receiverAction rp data).1
      (if j = 0 ∨ pos = some (j - 1) then some j else none) := by
  have hStep := Sender.Tracks.step hTracks h.sends
  unfold Tracks
  convert hStep using 1
  unfold InOrder.accept
  cases pos <;> simp

theorem Sent.tracks_first {data : ReceiverData} (h : x.Sent w k 0 rp) :
    x.Tracks w k (receiverAction rp data).1 (some 0) :=
  Sender.tracks_first data h.sends

theorem Quiet.rejects {data : ReceiverData} (h : x.Quiet w k data) {j : ℕ}
    (hSent : x.Sent w k j rp) (h0 : j ≠ 0) : x.Tracks w k (receiverAction rp data).1 none := by
  show (receiverAction rp data).1.poolIndex.getLsbD 31 = true
  unfold receiverAction
  rw [hSent.first, decide_eq_false h0, if_neg Bool.false_ne_true]
  by_cases hPsn : rp.psn.zeroExtend 32 = data.nextSequenceNumber
  · have hError : data.poolIndex.getLsbD 31 = true := by
      refine h.resolve_right fun hQuiet => hQuiet j (Nat.pos_of_ne_zero h0) hSent.lt ?_
      rw [← hPsn, hSent.psn]
    simp only [receiverIncrementAction, if_pos hPsn]
    exact satAdd_error hError
  · simp [receiverIncrementAction, hPsn]

/-- After the last packet of a message the register waits for the next message. -/
theorem Tracks.quiet {data : ReceiverData} (h : x.Tracks w k data (some (x.sizes k - 1))) :
    x.Quiet w (k + 1) data := by
  obtain ⟨-, hNext, -⟩ := h
  refine .inr fun j h0 hj hEq => ?_
  have hPos := x.sizes_pos k
  have hLe := x.sizes_le (k + 1)
  have hFits := x.fits
  have hSlots : numSlots = 8192 := rfl
  have hPsn : x.psn w (k + 1) j = x.psn w k (x.sizes k) + BitVec.ofNat 24 j := by
    unfold psn
    rw [Finset.sum_range_succ]
    bv_omega
  have hSame : (x.sender w k).psn 0 (x.sizes k - 1 + 1) = x.psn w k (x.sizes k) := by
    rw [sender_psn, Nat.sub_add_cancel hPos]
  have hNext' : data.nextSequenceNumber = (x.psn w k (x.sizes k)).setWidth 32 := by
    rw [← hSame]
    exact hNext
  rw [hNext', hPsn] at hEq
  bv_omega

-- ---------------------------------------------------------------------------
-- Where the receive stage is
-- ---------------------------------------------------------------------------

variable (x) in
/-- Where the receive stage is in a message of a worker, of which `sent` packets were sent:
`line` are the ones on the uplink, and `taken` says which packets were let in. -/
inductive Position (lossy : Bool) (w : Fin x.job.n) (k : ℕ) (data : ReceiverData)
    (taken : ℕ → Prop) (line : List ℕ) (sent : ℕ) : Prop where
  -- nothing has come yet; if nothing is lost, the first packet is the next to come
  | before (hTaken : ∀ j < x.sizes k, ¬ taken j)
      (hQuiet : x.Quiet w k data ∨ lossy = false ∧ line = List.range sent)
  | after (i : ℕ) (hTracks : x.Tracks w k data (some i)) (hSent : i < sent)
      (hTaken : ∀ j, i < j → j < x.sizes k → ¬ taken j) (hLine : ∀ j ∈ line, i < j)
  -- a packet was rejected, and so are all that come after it
  | lost (hTracks : x.Tracks w k data none) (hSent : 0 < sent)
      (hTaken : ¬ taken (x.sizes k - 1)) (hLine : ∀ j ∈ line, 0 < j)

section Position

variable {lossy : Bool} {data : ReceiverData} {taken : ℕ → Prop} {line : List ℕ} {sent : ℕ}

theorem Position.congr (h : x.Position lossy w k data taken line sent) {taken' : ℕ → Prop}
    (hTaken : ∀ j < x.sizes k, taken' j → taken j) :
    x.Position lossy w k data taken' line sent := by
  cases h with
  | before h hQuiet => exact .before (fun j hj hNew => h j hj (hTaken j hj hNew)) hQuiet
  | after i hTracks hSent h hLine =>
    exact .after i hTracks hSent (fun j hi hj hNew => h j hi hj (hTaken j hj hNew)) hLine
  | lost hTracks hSent h hLine =>
    exact .lost hTracks hSent (fun hNew => h (hTaken _ (Nat.sub_one_lt_of_lt (x.sizes_pos k)) hNew))
      hLine

theorem Position.send (h : x.Position lossy w k data taken line sent) :
    x.Position lossy w k data taken (line ++ [sent]) (sent + 1) := by
  cases h with
  | before hTaken hQuiet =>
    refine .before hTaken (hQuiet.imp_right fun ⟨hOff, hLine⟩ => ⟨hOff, ?_⟩)
    rw [hLine, List.range_succ]
  | after i hTracks hSent hTaken hLine =>
    refine .after i hTracks (hSent.trans (Nat.lt_succ_self _)) hTaken fun j hj => ?_
    rcases List.mem_append.mp hj with hj | hj
    · exact hLine j hj
    · rw [List.mem_singleton.mp hj]
      exact hSent
  | lost hTracks hSent hTaken hLine =>
    refine .lost hTracks (Nat.succ_pos _) hTaken fun j hj => ?_
    rcases List.mem_append.mp hj with hj | hj
    · exact hLine j hj
    · rw [List.mem_singleton.mp hj]
      exact hSent

theorem Position.lose (h : x.Position lossy w k data taken line sent) (hLossy : lossy = true)
    {line' : List ℕ} (hSub : line'.Sublist line) :
    x.Position lossy w k data taken line' sent := by
  cases h with
  | before hTaken hQuiet =>
    exact .before hTaken (hQuiet.imp_right fun ⟨hOff, _⟩ => by simp [hLossy] at hOff)
  | after i hTracks hSent hTaken hLine =>
    exact .after i hTracks hSent hTaken fun j hj => hLine j (hSub.subset hj)
  | lost hTracks hSent hTaken hLine =>
    exact .lost hTracks hSent hTaken fun j hj => hLine j (hSub.subset hj)

/-- When the last packet was let in, the receive stage waits for the next message. -/
theorem Position.next (h : x.Position lossy w k data taken line sent)
    (hLast : taken (x.sizes k - 1)) {taken' : ℕ → Prop}
    (hTaken : ∀ j < x.sizes (k + 1), ¬ taken' j) {line' : List ℕ} {sent' : ℕ} :
    x.Position lossy w (k + 1) data taken' line' sent' := by
  have hPos := x.sizes_pos k
  cases h with
  | before h hQuiet => exact absurd hLast (h _ (by omega))
  | after i hTracks hSent h hLine =>
    obtain rfl : i = x.sizes k - 1 := by
      obtain ⟨hLt, -⟩ := hTracks
      have hLt : i < x.sizes k := hLt
      by_contra hNe
      exact h _ (by omega) (by omega) hLast
    exact .before hTaken (.inl hTracks.quiet)
  | lost hTracks hSent h hLine => exact absurd hLast h

section Arrival

variable {j : ℕ} {rest : List ℕ} {regs : Registers}

theorem Sent.let_in (hSent : x.Sent w k j rp)
    (hTracks : x.Tracks w k (receiverAction rp (regs.receiverData (x.qp w))).1 (some j))
    (hLt : j < sent) (hTaken : ∀ i, j < i → i < x.sizes k → ¬ taken i)
    (hSorted : ∀ i ∈ rest, j < i) :
    receivedPoolIndex x.job.config.workers rp regs = some (x.pool k j) ∧
      x.Position lossy w k (receiverAction rp (regs.receiverData (x.qp w))).1
        (fun i => i = j ∨ taken i) rest sent := by
  refine ⟨hSent.verdict hTracks fun _ => Option.some_ne_none _,
    .after j hTracks hLt (fun i hi hLt hNew => ?_) hSorted⟩
  rcases hNew with rfl | hOld
  · exact absurd hi (Nat.lt_irrefl i)
  · exact hTaken i hi hLt hOld

theorem Sent.shut_out (hSent : x.Sent w k j rp) (h0 : j ≠ 0)
    (hTracks : x.Tracks w k (receiverAction rp (regs.receiverData (x.qp w))).1 none)
    (hLt : j < sent) (hTaken : ¬ taken (x.sizes k - 1)) (hSorted : ∀ i ∈ rest, j < i) :
    receivedPoolIndex x.job.config.workers rp regs = none ∧
      x.Position lossy w k (receiverAction rp (regs.receiverData (x.qp w))).1 taken rest sent :=
  ⟨hSent.verdict hTracks fun hEq => absurd hEq h0,
    .lost hTracks (Nat.zero_lt_of_lt hLt) hTaken fun i hi => Nat.zero_lt_of_lt (hSorted i hi)⟩

/-- **One packet.** It is let into its own slot, or rejected. -/
theorem Position.arrive
    (h : x.Position lossy w k (regs.receiverData (x.qp w)) taken (j :: rest) sent)
    (hSent : x.Sent w k j rp) (hLt : j < sent) (hSorted : ∀ i ∈ rest, j < i) :
    (receivedPoolIndex x.job.config.workers rp regs = none ∧
      x.Position lossy w k (receiverAction rp (regs.receiverData (x.qp w))).1 taken rest sent) ∨
    (receivedPoolIndex x.job.config.workers rp regs = some (x.pool k j) ∧
      x.Position lossy w k (receiverAction rp (regs.receiverData (x.qp w))).1
        (fun i => i = j ∨ taken i) rest sent) := by
  have hUses := hSent.lt
  cases h with
  | before hTaken hQuiet =>
    by_cases h0 : j = 0
    · subst h0
      exact .inr (hSent.let_in hSent.tracks_first hLt (fun i _ hi => hTaken i hi) hSorted)
    · rcases hQuiet with hQuiet | ⟨-, hLine⟩
      · exact .inl (hSent.shut_out h0 (hQuiet.rejects hSent h0) hLt (hTaken _ (by omega)) hSorted)
      · have hHead := congrArg List.head? hLine
        rw [List.head?_cons, List.head?_range, if_neg (by omega)] at hHead
        exact absurd (Option.some.inj hHead) h0
  | after i hTracks hBefore hTaken hLine =>
    have hi := hLine j List.mem_cons_self
    have hStep := hSent.tracks hTracks
    by_cases hNext : j = i + 1
    · rw [if_pos (.inr (by rw [hNext]; rfl))] at hStep
      exact .inr (hSent.let_in hStep hLt (fun i' hi' => hTaken i' (hi.trans hi')) hSorted)
    · rw [if_neg (by rintro (h0 | hEq)
                     · omega
                     · have := Option.some.inj hEq
                       omega)] at hStep
      exact .inl (hSent.shut_out (by omega) hStep hLt (hTaken _ (by omega) (by omega)) hSorted)
  | lost hTracks hBefore hTaken hLine =>
    have h0 := hLine j List.mem_cons_self
    have hStep := hSent.tracks hTracks
    rw [if_neg (by simp; omega)] at hStep
    exact .inl (hSent.shut_out (by omega) hStep hLt hTaken hSorted)

end Arrival

end Position

end Stream

end SwitchML
