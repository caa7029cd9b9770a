import Mathlib.Order.Lattice.Nat
import SwitchML.Protocol.Once

/-!
# SwitchML protocol — the exponents of a broadcast

The last packet of a message carries two exponents, and pipe 0 keeps the maxima of what
the workers sent. A packet takes the first maximum with it from its pass through pipe 0
and the second one from its last harvest pass, at which time all workers are in.

* `ExponentsOk` — what the registers and the packets in the switch carry;
* `broadcast_exponents` — a broadcast carries both maxima if and only if a worker with the
  greatest first exponent came through pipe 0 no later than the packet that is
  broadcast; `exponents_stale` is a run in which none did.
-/

namespace SwitchML

-- ---------------------------------------------------------------------------
-- Maxima along the order of pipe 0
-- ---------------------------------------------------------------------------

/-- The exponents that `w` sent for chunk `k`. -/
def sentExponents {n : ℕ} (log : List (Event n)) (w : Fin n) (k : ℕ) : ExponentsMd :=
  match firstProcessed log w k with
  | some rp => rp.exponents
  | none => {}

/-- The greatest exponent that the workers of a list sent, as a number. -/
def peak {n : ℕ} (log : List (Event n)) (k : ℕ) (x : ExponentsMd → Exponent8)
    (l : List (Fin n)) : ℕ :=
  l.toFinset.sup fun w => (x (sentExponents log w k)).toNat

/-- The elements of a list up to `v`. -/
def upTo {n : ℕ} (v : Fin n) (l : List (Fin n)) : List (Fin n) :=
  l.takeWhile (fun w => decide (w ≠ v)) ++ [v]

section Peak

variable {n : ℕ} {log : List (Event n)} {k : ℕ} {x : ExponentsMd → Exponent8} {l : List (Fin n)}
  {v w : Fin n}

theorem upTo_append (hv : v ∈ l) (l' : List (Fin n)) : upTo v (l ++ l') = upTo v l := by
  unfold upTo
  induction l with
  | nil => simp at hv
  | cons u l ih =>
    by_cases hu : u = v
    · simp [hu]
    · rcases List.mem_cons.mp hv with rfl | hv
      · exact absurd rfl hu
      · simpa [hu] using ih hv

theorem upTo_concat (hv : v ∉ l) : upTo v (l ++ [v]) = l ++ [v] := by
  unfold upTo
  have hAll : ∀ w ∈ l, decide (w ≠ v) = true := fun w hw =>
    decide_eq_true fun hEq : w = v => hv (hEq ▸ hw)
  rw [List.takeWhile_append_of_pos hAll]
  simp

theorem mem_of_mem_upTo (hv : v ∈ l) (hw : w ∈ upTo v l) : w ∈ l := by
  rcases List.mem_append.mp hw with hw | hw
  · exact (List.takeWhile_sublist _).subset hw
  · rwa [List.mem_singleton.mp hw]

theorem sentExponents_append (hw : consumed log 0 w k = true) (log' : List (Event n)) :
    sentExponents (log ++ log') w k = sentExponents log w k := by
  unfold sentExponents
  rw [firstProcessed_append hw]

/-- What the workers of the order of pipe 0 sent is settled. -/
theorem peak_append (hl : ∀ w ∈ l, w ∈ pipeOrder log 0 k) (log' : List (Event n)) :
    peak (log ++ log') k x l = peak log k x l := by
  refine Finset.sup_congr rfl fun w hw => ?_
  rw [sentExponents_append (mem_pipeOrder.mp (hl w (List.mem_toFinset.mp hw)))]

theorem peak_concat :
    peak log k x (l ++ [w]) = max (peak log k x l) (x (sentExponents log w k)).toNat := by
  unfold peak
  rw [List.toFinset_append, Finset.sup_union]
  simp

theorem toNat_exponentMaxOf (a b : Exponent8) :
    (exponentMaxOf a b).toNat = max a.toNat b.toNat := by
  unfold exponentMaxOf
  split <;> omega

end Peak

-- ---------------------------------------------------------------------------
-- The invariant
-- ---------------------------------------------------------------------------

/-- The maxima of chunk `k` are in the registers. -/
def HoldsMaxima {n : ℕ} (log : List (Event n)) (k : ℕ) (value : Exponent8Pair) : Prop :=
  value.first.toNat = peak log k ExponentsMd.e0 (pipeOrder log 0 k) ∧
  value.second.toNat = peak log k ExponentsMd.e1 (pipeOrder log 0 k)

/-- What a broadcast of chunk `k` carries if `v`'s packet is broadcast. -/
def CarriesMaxima {n : ℕ} (log : List (Event n)) (k : ℕ) (v : Fin n) (value : ExponentsMd) :
    Prop :=
  (∀ w, w ∈ pipeOrder log 0 k) ∧
  value.e0.toNat = peak log k ExponentsMd.e0 (upTo v (pipeOrder log 0 k)) ∧
  value.e1.toNat = peak log k ExponentsMd.e1 (pipeOrder log 0 k)

/-- What the registers, the packets in the switch and the broadcasts carry. -/
structure ExponentsOk (job : Job) (s : SlotState job.n) : Prop where
  regs : ∀ k, job.last k = true → pipeOrder s.log 0 k ≠ [] →
    (∀ w, consumed s.log 0 w (k + 2) = false) →
    HoldsMaxima s.log k ((s.regs 0).exponents (job.pool k))
  entered : ∀ f ∈ s.recirc, f.tag.worker ∈ pipeOrder s.log 0 f.tag.chunk
  carried : ∀ f ∈ s.recirc, job.last f.tag.chunk = true → f.pkt.exponents.e0.toNat =
    peak s.log f.tag.chunk ExponentsMd.e0 (upTo f.tag.worker (pipeOrder s.log 0 f.tag.chunk))
  cast : ∀ e ∈ s.log, ∀ pkt, e.broadcast? = some pkt → job.last e.tag.chunk = true →
    CarriesMaxima s.log e.tag.chunk e.tag.worker pkt.exponents

theorem exponentsOk_initial (job : Job) : ExponentsOk job .initial := by
  constructor <;> simp [SlotState.initial, pipeOrder]

section Moves

variable {job : Job} {d : Discipline} {s s' : SlotState job.n} {a : Staged.State (Fin job.n)}
  {e : Event job.n}

/-- Passes that are not through pipe 0 do not change what was sent. -/
theorem HoldsMaxima.snoc {log : List (Event job.n)} {k : ℕ} {value : Exponent8Pair}
    (h : HoldsMaxima log k value) (he : pipeOrder (log ++ [e]) 0 k = pipeOrder log 0 k) :
    HoldsMaxima (log ++ [e]) k value := by
  unfold HoldsMaxima
  rw [he, peak_append fun _ hw => hw, peak_append fun _ hw => hw]
  exact h

/-- What a packet that is in carries stays right. -/
theorem peak_upTo_snoc {log : List (Event job.n)} {k : ℕ} {v : Fin job.n}
    (hv : v ∈ pipeOrder log 0 k) (x : ExponentsMd → Exponent8) :
    peak (log ++ [e]) k x (upTo v (pipeOrder (log ++ [e]) 0 k)) =
      peak log k x (upTo v (pipeOrder log 0 k)) := by
  rw [pipeOrder_snoc, upTo_append hv, peak_append fun w hw => mem_of_mem_upTo hv hw]

theorem CarriesMaxima.snoc {log : List (Event job.n)} {k : ℕ} {v : Fin job.n}
    {value : ExponentsMd} (h : CarriesMaxima log k v value)
    (he : pipeOrder (log ++ [e]) 0 k = pipeOrder log 0 k) :
    CarriesMaxima (log ++ [e]) k v value := by
  obtain ⟨hAll, h0, h1⟩ := h
  refine ⟨fun w => he ▸ hAll w, ?_, ?_⟩
  · rw [peak_upTo_snoc (hAll v), h0]
  · rw [he, peak_append fun _ hw => hw, h1]

section Arrive

variable {tag : Tag job.n} {st : PassState} {regs after : Registers} {out : Emission} {id : ℕ}

/-- The maxima with a new packet. -/
theorem NewPass.newExponents (hOk : ExponentsOk job s) (h : Sim job d s a)
    (hPass : NewPass job d s a 0 tag st regs after out) (hLast : job.last tag.chunk = true)
    (id : ℕ) :
    HoldsMaxima (s.log ++ [⟨id, tag, .consume 0, out⟩]) tag.chunk (newExponents regs st) := by
  obtain ⟨hCount, hFill⟩ := hPass.look.count_new rfl
  have hPipes := job.pipes_pos
  have hRep := (h.rel.regs 0 hPipes).congr hPass.pass.meets
  have hExp : st.exponents = tag.sent.exponents := by
    rcases hPass.source with ⟨-, -, hExp⟩ | ⟨f, hf, -, hType, -⟩
    · exact hExp
    · exact absurd rfl ((h.wellFormed.flights f hf).consumes hType (s.regs 0)).1
  have hSent : sentExponents (s.log ++ [⟨id, tag, .consume 0, out⟩]) tag.worker tag.chunk =
      st.exponents := by
    unfold sentExponents
    rw [hPass.look.firstProcessed_snoc h.rel rfl id _, hExp]
  have hOrder : ∀ y, peak (s.log ++ [⟨id, tag, .consume 0, out⟩]) tag.chunk y
      (pipeOrder s.log 0 tag.chunk ++ [tag.worker]) =
      max (peak s.log tag.chunk y (pipeOrder s.log 0 tag.chunk)) (y st.exponents).toNat := by
    intro y
    rw [peak_concat, hSent, peak_append fun _ hw => hw]
  unfold HoldsMaxima
  rw [pipeOrder_consume, hOrder, hOrder]
  have hEmpty : regs.bitmap (job.pool tag.chunk) = 0 ↔ pipeOrder s.log 0 tag.chunk = [] := by
    rw [hRep.bitmap_eq_zero hPass.look.uses hFill, Finset.eq_empty_iff_forall_notMem,
      List.eq_nil_iff_forall_not_mem]
    refine forall_congr' fun w => not_congr ?_
    rw [mem_taken, mem_pipeOrder, h.rel.consumed 0 hPipes]
  unfold SwitchML.newExponents
  rw [hPass.pass.ready.md.poolIndex]
  by_cases hNil : pipeOrder s.log 0 tag.chunk = []
  · simp only [if_pos (hEmpty.mpr hNil), hNil]
    simp [peak]
  · have hNone : ∀ w, consumed s.log 0 w (tag.chunk + 2) = false := by
      intro w
      rw [Bool.eq_false_iff, Ne, h.rel.consumed 0 hPipes]
      have := hFill w
      omega
    obtain ⟨h0, h1⟩ := hOk.regs tag.chunk hLast hNil hNone
    rw [← hPass.pass.meets.exponents _ (job.pool_slot _)] at h0 h1
    simp only [if_neg fun hZero => hNil (hEmpty.mp hZero), toNat_exponentMaxOf, h0, h1, and_self]

/-- Two chunks that are both in the registers have different sets. -/
theorem NewPass.other_chunk (h : Sim job d s a)
    (hPass : NewPass job d s a 0 tag st regs after out) {k : ℕ} (hk : k ≠ tag.chunk)
    (hSome : pipeOrder s.log 0 k ≠ [])
    (hNone : ∀ w, consumed (s.log ++ [⟨id, tag, .consume 0, out⟩]) 0 w (k + 2) = false) :
    job.pool k ≠ job.pool tag.chunk ∧ ∀ w, consumed s.log 0 w (k + 2) = false := by
  obtain ⟨hCount, hFill⟩ := hPass.look.count_new rfl
  have hPipes := job.pipes_pos
  have hBefore : ∀ w, consumed s.log 0 w (k + 2) = false := by
    intro w
    have := hNone w
    rw [consumed_append, Bool.or_eq_false_iff] at this
    exact this.1
  obtain ⟨w, hw⟩ := List.exists_mem_of_ne_nil _ hSome
  rw [mem_pipeOrder, h.rel.consumed 0 hPipes] at hw
  have hLow : tag.chunk ≤ k + 2 := by
    have hNot := hBefore tag.worker
    rw [Bool.eq_false_iff, Ne, h.rel.consumed 0 hPipes, hCount] at hNot
    omega
  have hNe : k + 2 ≠ tag.chunk := by
    intro hEq
    have hThis := hNone tag.worker
    rw [consumed_append, consumed_singleton, hEq] at hThis
    simp [Event.isConsume] at hThis
  have hHigh := (hFill w).2
  refine ⟨fun hPool => ?_, hBefore⟩
  have hSet : job.set k = job.set tag.chunk := by
    have := congrArg PoolIndex.set hPool
    rwa [Job.pool_set, Job.pool_set] at this
  rw [job.set_eq_iff] at hSet
  omega

/-- The registers after a new packet's first pass. -/
theorem NewPass.holdsMaxima (hOk : ExponentsOk job s) (h : Sim job d s a)
    (hPass : NewPass job d s a 0 tag st regs after out) {k : ℕ} (hLast : job.last k = true)
    (hSome : pipeOrder (s.log ++ [⟨id, tag, .consume 0, out⟩]) 0 k ≠ [])
    (hNone : ∀ w, consumed (s.log ++ [⟨id, tag, .consume 0, out⟩]) 0 w (k + 2) = false) :
    HoldsMaxima (s.log ++ [⟨id, tag, .consume 0, out⟩]) k (after.exponents (job.pool k)) := by
  have hReady := hPass.pass.ready.md
  obtain ⟨hMap, -⟩ := hPass.finds h
  rw [hPass.pass.leaves.exponents _ (job.pool_slot k)]
  unfold consumeRegs
  simp only [hMap, hReady.poolIndex, hReady.last, true_and, and_true]
  by_cases hk : k = tag.chunk
  · subst hk
    rw [if_pos hLast, Function.update_self]
    exact hPass.newExponents hOk h hLast id
  · have hOrder : pipeOrder (s.log ++ [⟨id, tag, .consume 0, out⟩]) 0 k =
        pipeOrder s.log 0 k := pipeOrder_other fun hHere => hk hHere.2.symm
    rw [hOrder] at hSome
    obtain ⟨hPool, hBefore⟩ := hPass.other_chunk h hk hSome hNone
    have hHolds := (hOk.regs k hLast hSome hBefore).snoc hOrder
    rw [← hPass.pass.meets.exponents _ (job.pool_slot k)] at hHolds
    split
    · rwa [Function.update_of_ne hPool]
    · exact hHolds

end Arrive

section Consume

variable {i : Fin 4} {tag : Tag job.n} {st : PassState} {regs after : Registers} {out : Emission}

/-- The packet that makes consume pass `i` is in in pipe 0 after it. -/
theorem NewPass.entered (hOk : ExponentsOk job s)
    (hPass : NewPass job d s a i tag st regs after out) (id : ℕ) :
    tag.worker ∈ pipeOrder (s.log ++ [⟨id, tag, .consume i, out⟩]) 0 tag.chunk := by
  rcases hPass.source with ⟨rfl, -⟩ | ⟨f, hf, rfl, -⟩
  · rw [pipeOrder_consume]
    simp
  · exact (pipeOrder_isPrefix _ _ _ _).subset (hOk.entered f hf)

/-- What the packet takes with it. -/
theorem NewPass.carried (hOk : ExponentsOk job s) (h : Sim job d s a)
    (hPass : NewPass job d s a i tag st regs after out) (hLast : job.last tag.chunk = true)
    (id : ℕ) :
    (consumeState regs st i).exponents.e0.toNat =
      peak (s.log ++ [⟨id, tag, .consume i, out⟩]) tag.chunk ExponentsMd.e0
        (upTo tag.worker (pipeOrder (s.log ++ [⟨id, tag, .consume i, out⟩]) 0 tag.chunk)) := by
  obtain ⟨hMap, hNew, -⟩ := hPass.finds h
  unfold consumeState
  simp only [hMap, hPass.pass.ready.md.last, hLast, true_and, if_true]
  by_cases hi : i = 0
  · subst hi
    rw [if_pos rfl, pipeOrder_consume, upTo_concat hNew, ← pipeOrder_consume s.log id tag 0 out]
    exact (hPass.newExponents hOk h hLast id).1
  · rcases hPass.source with ⟨rfl, -⟩ | ⟨f, hf, rfl, -, -, hExp⟩
    · exact absurd rfl hi
    · rw [if_neg hi, hExp, peak_upTo_snoc (hOk.entered f hf)]
      exact hOk.carried f hf hLast

/-- **Step lemma, consume passes.** -/
theorem ExponentsOk.consume (hOk : ExponentsOk job s) (h : Sim job d s a)
    (hPass : NewPass job d s a i tag st regs after out) {id : ℕ} {rest : List (Flight job.n)}
    (hLog : s'.log = s.log ++ [⟨id, tag, .consume i, out⟩])
    (hRecirc : s'.recirc = rest ++ out.flight id tag) (hRest : ∀ g ∈ rest, g ∈ s.recirc)
    (hRegs : s'.regs = Function.update s.regs i after) : ExponentsOk job s' := by
  constructor
  · intro k hLast hSome hNone
    rw [hLog] at hSome hNone ⊢
    rw [hRegs]
    by_cases hi : i = 0
    · subst hi
      rw [Function.update_self]
      exact hPass.holdsMaxima hOk h hLast hSome hNone
    · have hOrder : pipeOrder (s.log ++ [⟨id, tag, .consume i, out⟩]) 0 k =
          pipeOrder s.log 0 k :=
        pipeOrder_other fun hHere => hi (PacketType.consume.inj hHere.1)
      rw [Function.update_of_ne (Ne.symm hi)]
      rw [hOrder] at hSome
      refine (hOk.regs k hLast hSome fun w => ?_).snoc hOrder
      have := hNone w
      rw [consumed_append, Bool.or_eq_false_iff] at this
      exact this.1
  · intro g hg
    rw [hRecirc] at hg
    rw [hLog]
    rcases List.mem_append.mp hg with hg | hg
    · exact (pipeOrder_isPrefix _ _ _ _).subset (hOk.entered g (hRest g hg))
    · rw [(hPass.flight h hg).1]
      exact hPass.entered hOk id
  · intro g hg hLast
    rw [hRecirc] at hg
    rw [hLog]
    rcases List.mem_append.mp hg with hg | hg
    · rw [peak_upTo_snoc (hOk.entered g (hRest g hg))]
      exact hOk.carried g (hRest g hg) hLast
    · obtain ⟨hTag, -, -, hExp, -⟩ := hPass.flight h hg
      rw [hTag] at hLast ⊢
      rw [hExp]
      exact hPass.carried hOk h hLast id
  · intro e he pkt hCast hLast
    rw [hLog] at he ⊢
    rcases List.mem_append.mp he with he | he
    · have hCarries := hOk.cast e he pkt hCast hLast
      refine hCarries.snoc (pipeOrder_other fun hHere => ?_)
      -- nobody is missing in pipe 0
      obtain ⟨hType, hChunk⟩ := hHere
      obtain rfl := PacketType.consume.inj hType
      have hChunk' : tag.chunk = e.tag.chunk := hChunk
      exact (hPass.finds h).2.1 (hChunk' ▸ hCarries.1 _)
    · rw [List.mem_singleton.mp he, hPass.pass.not_broadcast id] at hCast
      exact absurd hCast (by simp)

end Consume

-- ---------------------------------------------------------------------------
-- Harvest passes
-- ---------------------------------------------------------------------------

/-- Only the last harvest pass broadcasts. -/
theorem HarvestPass.of_broadcast {before after : Registers} {j : Fin 8} {f : Flight job.n}
    {out : Emission} (hPass : HarvestPass job before after j f out) {id : ℕ} {pkt : Packet}
    (hCast : Event.broadcast? (n := job.n) ⟨id, f.tag, .harvest j, out⟩ = some pkt) :
    j = 7 ∧ f.reply.1 = .all ∧ Harvested job before j f .broadcast pkt := by
  by_cases hj : j = 7
  · have hEnds := hPass.ends hj
    split at hEnds
    · next hAll =>
      obtain ⟨pkt', hPkt, rfl⟩ := hEnds
      obtain rfl : pkt' = pkt := Option.some.inj hCast
      exact ⟨hj, Flight.reply_all.mpr ⟨hAll.2.2, hAll.1⟩, hPkt⟩
    · split at hEnds
      · obtain ⟨pkt', -, rfl⟩ := hEnds
        exact absurd hCast (by simp [Event.broadcast?])
      · rw [hEnds] at hCast
        exact absurd hCast (by simp [Event.broadcast?])
  · obtain ⟨pkt', -, rfl⟩ := hPass.continues hj
    exact absurd hCast (by simp [Event.broadcast?])

/-- The last harvest pass of a chunk that is broadcast reads both maxima. -/
theorem ExponentsOk.broadcast (hOk : ExponentsOk job s) (h : Sim job d s a)
    (hOnce : d.resends = false) {f : Flight job.n} (hMem : f ∈ s.recirc) {pkt : Packet}
    (hPkt : Harvested job (s.regs (harvestPipe 7)) 7 f .broadcast pkt)
    (hType : f.pkt.md.packetType = .harvest 7) (hReply : f.reply.1 = .all)
    (hLast : job.last f.tag.chunk = true) :
    CarriesMaxima s.log f.tag.chunk f.tag.worker pkt.exponents := by
  have hOn := onHarvest_type.mpr hType
  obtain ⟨hFull, -⟩ := h.complete hMem hOn (by simp [hReply])
  have hAll : ∀ w, w ∈ pipeOrder s.log 0 f.tag.chunk := fun w => by
    rw [mem_pipeOrder, h.rel.consumed 0 job.pipes_pos]
    exact hFull 0 job.pipes_pos w
  have hQueued : f.reply ∈ a.harvest := by
    rw [h.rel.harvest]
    refine List.mem_map_of_mem (List.mem_flatMap.mpr ⟨7, ?_, List.mem_filter.mpr ⟨hMem, hOn⟩⟩)
    decide
  -- nobody has seen a reply, so nobody has sent the next chunk of the set
  have hNone : ∀ w, consumed s.log 0 w (f.tag.chunk + 2) = false := by
    intro w
    rw [Bool.eq_false_iff, Ne, h.rel.consumed 0 job.pipes_pos]
    have hPos : a.pos w ≤ f.tag.chunk := ((h.single hOnce).harvest_mem _ hQueued).2.1 w
    have hCount : a.count (0 : Fin 4) w ≤ a.pos w + 1 := h.inv.count_le w
    omega
  have hSome : pipeOrder s.log 0 f.tag.chunk ≠ [] := List.ne_nil_of_mem (hAll ⟨0, job.n_pos⟩)
  have hRegs := hOk.regs f.tag.chunk hLast hSome hNone
  rw [hPkt.exponents, if_pos ⟨hLast, rfl⟩]
  exact ⟨hAll, hOk.carried f hMem hLast, hRegs.2⟩

/-- **Step lemma, harvest passes.** -/
theorem ExponentsOk.harvest (hOk : ExponentsOk job s) (h : Sim job d s a)
    (hOnce : d.resends = false) {j : Fin 8} {pre post : List (Flight job.n)} {f : Flight job.n}
    {after : Registers} {out : Emission}
    (hPass : HarvestPass job (s.regs (harvestPipe j)) after j f out)
    (hLog : s'.log = s.log ++ [⟨f.id, f.tag, .harvest j, out⟩])
    (hFrom : s.recirc = pre ++ f :: post)
    (hRecirc : s'.recirc = pre ++ post ++ out.flight f.id f.tag)
    (hRegs : ∀ i, SameSlot job.slot (s.regs i) (s'.regs i)) : ExponentsOk job s' := by
  have hMem : f ∈ s.recirc := by rw [hFrom]; simp
  have hOrder : ∀ k, pipeOrder (s.log ++ [⟨f.id, f.tag, .harvest j, out⟩]) 0 k =
      pipeOrder s.log 0 k := fun k => pipeOrder_other (by simp)
  constructor
  · intro k hLast hSome hNone
    rw [hLog] at hSome hNone ⊢
    rw [hOrder] at hSome
    rw [(hRegs 0).exponents _ (job.pool_slot k)]
    refine (hOk.regs k hLast hSome fun w => ?_).snoc (hOrder k)
    have := hNone w
    rw [consumed_append, Bool.or_eq_false_iff] at this
    exact this.1
  · intro g hg
    rw [hRecirc] at hg
    rw [hLog, hOrder]
    rcases List.mem_append.mp hg with hg | hg
    · exact hOk.entered g (mem_of_mem_split hFrom hg)
    · obtain ⟨pkt, hPkt, rfl⟩ := hPass.flight_harvested hg
      exact hOk.entered f hMem
  · intro g hg hLast
    rw [hRecirc] at hg
    rw [hLog]
    rcases List.mem_append.mp hg with hg | hg
    · have hOld := mem_of_mem_split hFrom hg
      rw [peak_upTo_snoc (hOk.entered g hOld)]
      exact hOk.carried g hOld hLast
    · obtain ⟨pkt, hPkt, rfl⟩ := hPass.flight_harvested hg
      rw [peak_upTo_snoc (hOk.entered f hMem)]
      refine Eq.trans ?_ (hOk.carried f hMem hLast)
      show pkt.exponents.e0.toNat = f.pkt.exponents.e0.toNat
      rw [hPkt.exponents]
      split <;> rfl
  · intro e he pkt hCast hLast
    rw [hLog] at he ⊢
    rcases List.mem_append.mp he with he | he
    · exact (hOk.cast e he pkt hCast hLast).snoc (hOrder _)
    · obtain rfl := List.mem_singleton.mp he
      refine CarriesMaxima.snoc ?_ (hOrder _)
      obtain ⟨rfl, hReply, hPkt⟩ := hPass.of_broadcast hCast
      exact hOk.broadcast h hOnce hMem hPkt hPass.type hReply hLast

theorem ExponentsOk.move (hOk : ExponentsOk job s) (h : Sim job d s a) (hOnce : d.resends = false)
    (hMove : OnceMove job d s a s') : ExponentsOk job s' := by
  cases hMove with
  | quiet hLog hRecirc hRegs =>
    constructor <;> rw [hLog]
    · intro k hLast hSome hNone
      rw [(hRegs 0).exponents _ (job.pool_slot k)]
      exact hOk.regs k hLast hSome hNone
    · rw [hRecirc]
      exact hOk.entered
    · rw [hRecirc]
      exact hOk.carried
    · exact hOk.cast
  | consume i hPass hLog hRecirc hRest hKept hRegs =>
    exact hOk.consume h hPass hLog hRecirc hRest hRegs
  | harvest j hPass hLog hFrom hRecirc hRegs =>
    exact hOk.harvest h hOnce hPass hLog hFrom hRecirc hRegs

end Moves

-- ---------------------------------------------------------------------------
-- Runs
-- ---------------------------------------------------------------------------

/-- A part of the workers has the maximum of all if and only if one of them has it. -/
theorem peak_eq_iff {n : ℕ} {log : List (Event n)} {k : ℕ} {x : ExponentsMd → Exponent8}
    {l : List (Fin n)} (hl : l ≠ []) :
    peak log k x l = Finset.univ.sup (fun w => (x (sentExponents log w k)).toNat) ↔
      ∃ w ∈ l, ∀ w', (x (sentExponents log w' k)).toNat ≤ (x (sentExponents log w k)).toNat := by
  have hBelow : ∀ w, (x (sentExponents log w k)).toNat ≤
      Finset.univ.sup (fun w => (x (sentExponents log w k)).toNat) := fun w =>
    Finset.le_sup (f := fun w => (x (sentExponents log w k)).toNat) (Finset.mem_univ w)
  constructor
  · intro hEq
    obtain ⟨w, hw, hMax⟩ := Finset.exists_mem_eq_sup l.toFinset
      (List.toFinset_nonempty_iff l |>.mpr hl) fun w => (x (sentExponents log w k)).toNat
    refine ⟨w, List.mem_toFinset.mp hw, fun w' => ?_⟩
    have hPeak : peak log k x l = (x (sentExponents log w k)).toNat := hMax
    rw [← hPeak, hEq]
    exact hBelow w'
  · rintro ⟨w, hw, hMax⟩
    refine Nat.le_antisymm (Finset.sup_mono (Finset.subset_univ _)) ?_
    refine (Finset.sup_le fun w' _ => hMax w').trans ?_
    exact Finset.le_sup (f := fun w => (x (sentExponents log w k)).toNat)
      (List.mem_toFinset.mpr hw)

/-- **The exponents of a broadcast.** If nothing is lost or sent again, the broadcast of a
packet that ends a message carries the maxima of the exponents that all workers sent if
and only if a worker with the greatest first exponent came through pipe 0 no later than
the packet that is broadcast. -/
theorem broadcast_exponents (job : Job) (labels : List (SlotLabel job.n)) {e : Event job.n}
    (he : e ∈ (slotRun job .reliable .initial labels).log) {pkt : Packet}
    (hCast : e.broadcast? = some pkt) (hLast : job.last e.tag.chunk = true) :
    let log := (slotRun job .reliable .initial labels).log
    let sent := fun w => sentExponents log w e.tag.chunk
    (pkt.exponents.e0.toNat = Finset.univ.sup (fun w => (sent w).e0.toNat) ∧
      pkt.exponents.e1.toNat = Finset.univ.sup (fun w => (sent w).e1.toNat)) ↔
    ∃ w ∈ upTo e.tag.worker (pipeOrder log 0 e.tag.chunk),
      ∀ w', (sent w').e0.toNat ≤ (sent w).e0.toNat := by
  intro log sent
  obtain ⟨hOk, -⟩ := (sim_initial job .reliable).once_invariant (P := ExponentsOk job) rfl
    (fun s a s' hSim _ hOk hMove => hOk.move hSim rfl hMove)
    (fun f hf => absurd hf (by simp [SlotState.initial])) (exponentsOk_initial job) labels
  obtain ⟨hAll, h0, h1⟩ := hOk.cast e he pkt hCast hLast
  have hSecond : pkt.exponents.e1.toNat = Finset.univ.sup (fun w => (sent w).e1.toNat) := by
    rw [h1, peak, Finset.eq_univ_iff_forall.mpr fun w => List.mem_toFinset.mpr (hAll w)]
  rw [h0, and_iff_left hSecond]
  exact peak_eq_iff (by simp [upTo])

/-- A packet of worker `w` with the given exponents. -/
def exponentPacket (w : ℕ) (e0 e1 : Exponent8) : RocePacket :=
  { plainPacket w 8 0 with immediate := e0 ++ e1 ++ (0 : BitVec 16) }

/-- All packets keep their order, and the broadcast carries the maxima. -/
theorem broadcast_exponents_pair :
    let job := Job.plain 2 (by decide) (by decide) true
    let labels : List (SlotLabel 2) :=
      [.send 0 (exponentPacket 0 1 9), .send 1 (exponentPacket 1 2 4), .arrive 0, .arrive 1] ++
        List.replicate 13 (.recirculate 0)
    let log := (slotRun job .reliable .initial labels).log
    ∃ e ∈ log, ∃ pkt, e.broadcast? = some pkt ∧
      (pkt.exponents.e0.toNat, pkt.exponents.e1.toNat) = (2, 9) ∧
      ((pkt.exponents.e0.toNat =
          Finset.univ.sup (fun w => (sentExponents log w e.tag.chunk).e0.toNat) ∧
        pkt.exponents.e1.toNat =
          Finset.univ.sup (fun w => (sentExponents log w e.tag.chunk).e1.toNat)) ↔
      ∃ w ∈ upTo e.tag.worker (pipeOrder log 0 e.tag.chunk), ∀ w',
        (sentExponents log w' e.tag.chunk).e0.toNat ≤
          (sentExponents log w e.tag.chunk).e0.toNat) := by
  intro job labels log
  have hValue : (log.getLast?.bind Event.broadcast?).map (fun pkt =>
      (pkt.exponents.e0.toNat, pkt.exponents.e1.toNat)) = some (2, 9) := by decide +kernel
  obtain ⟨pkt, hPkt, hExp⟩ := Option.map_eq_some_iff.mp hValue
  obtain ⟨e, he, hCast⟩ := Option.bind_eq_some_iff.mp hPkt
  have hMem : e ∈ log := List.mem_of_getLast? he
  exact ⟨e, hMem, pkt, hCast, hExp, broadcast_exponents job labels hMem hCast rfl⟩

/-- **A broadcast with a stale exponent.** Worker 2's packet comes last in pipe 0 and
overtakes worker 1's, which is broadcast: it carries the maximum of the first exponents
of workers 0 and 1 only. -/
theorem exponents_stale :
    let job := Job.plain 3 (by decide) (by decide) true
    let labels : List (SlotLabel 3) :=
      [.send 0 (exponentPacket 0 1 3), .send 1 (exponentPacket 1 2 4),
        .send 2 (exponentPacket 2 7 5), .arrive 0, .arrive 1, .arrive 2, .recirculate 0,
        .recirculate 2, .recirculate 2, .recirculate 1, .recirculate 1, .recirculate 1] ++
        List.replicate 10 (.recirculate 0)
    let log := (slotRun job .reliable .initial labels).log
    (log.filterMap Event.broadcast?).map (fun pkt =>
      (pkt.exponents.e0.toNat, pkt.exponents.e1.toNat)) = [(2, 5)] ∧
    (List.finRange 3).map (fun w : Fin 3 =>
      ((sentExponents log w 0).e0.toNat, (sentExponents log w 0).e1.toNat)) =
        [(1, 3), (2, 4), (7, 5)] := by
  decide +kernel

end SwitchML
