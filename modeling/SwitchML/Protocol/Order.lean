import SwitchML.Protocol.Once

/-!
# SwitchML protocol — which packet is broadcast

With 1024-byte packets every packet goes through four pipes, and each pipe tells the
first and the last packet of a chunk from the others. The packet that comes last in
pipe 3 is harvested, but a packet that was first in any pipe carries the first flag with
it and is not broadcast in the end.

* `OrderOk` — what the packets in the switch carry, in terms of the orders in which the
  pipes have consumed the workers' packets;
* `broadcast_once_1024B` — a chunk is broadcast if and only if the last worker in pipe 3
  was first in no pipe; `broadcast_missing` is a run in which it was.
-/

namespace SwitchML

-- ---------------------------------------------------------------------------
-- First and last
-- ---------------------------------------------------------------------------

/-- Worker `w` came first in one of the first `m` pipes. The packets of a single worker
are never taken for first. -/
def CameFirst (job : Job) (log : List (Event job.n)) (k : ℕ) (w : Fin job.n) (m : ℕ) : Prop :=
  job.n ≠ 1 ∧ ∃ i : Fin 4, i.val < m ∧ (pipeOrder log i k).head? = some w

/-- All workers' packets of chunk `k` have been through pipe 3, and `w`'s was the last. -/
structure CameLast {n : ℕ} (log : List (Event n)) (k : ℕ) (w : Fin n) : Prop where
  all : ∀ w', w' ∈ pipeOrder log 3 k
  last : (pipeOrder log 3 k).getLast? = some w

/-- The number of consume passes that a packet on a port has made. -/
def Flight.passed {n : ℕ} (f : Flight n) : ℕ :=
  match f.pkt.md.packetType with
  | .consume i => i.val
  | _ => 4

def Event.isDropped {n : ℕ} (e : Event n) : Bool :=
  match e.out with
  | .dropped => true
  | _ => false

/-- The packets of chunk `k` that were dropped in their last consume pass. -/
def drops {n : ℕ} (log : List (Event n)) (k : ℕ) : List (Event n) :=
  log.filter fun e => decide (e.ty = .consume 3 ∧ e.tag.chunk = k) && e.isDropped

theorem Flight.passed_consume {n : ℕ} {f : Flight n} {i : Fin 4}
    (hType : f.pkt.md.packetType = .consume i) : f.passed = i.val := by
  rw [Flight.passed, hType]

theorem Flight.passed_harvest {n : ℕ} {f : Flight n} {j : Fin 8}
    (hType : f.pkt.md.packetType = .harvest j) : f.passed = 4 := by
  rw [Flight.passed, hType]

section Persist

variable {job : Job} {log : List (Event job.n)} {e : Event job.n} {k m : ℕ} {w : Fin job.n}

theorem head?_pipeOrder_snoc {i : Fin 4} (hw : w ∈ pipeOrder log i k) :
    (pipeOrder (log ++ [e]) i k).head? = (pipeOrder log i k).head? := by
  obtain ⟨rest, hRest⟩ := pipeOrder_isPrefix log e i k
  rw [← hRest, List.head?_append_of_ne_nil _ (List.ne_nil_of_mem hw)]

/-- Who came first in the pipes it has been through is settled. -/
theorem cameFirst_snoc (hw : ∀ i : Fin 4, i.val < m → w ∈ pipeOrder log i k) :
    CameFirst job (log ++ [e]) k w m ↔ CameFirst job log k w m := by
  refine and_congr_right fun _ => exists_congr fun i => and_congr_right fun hi => ?_
  rw [head?_pipeOrder_snoc (hw i hi)]

/-- Passes of new packets do not come after the last. -/
theorem CameLast.snoc (h : CameLast log k w)
    (he : ¬ (e.ty = .consume 3 ∧ e.tag.chunk = k)) : CameLast (log ++ [e]) k w := by
  have hSame : pipeOrder (log ++ [e]) 3 k = pipeOrder log 3 k := pipeOrder_other he
  exact ⟨fun w' => hSame ▸ h.all w', hSame ▸ h.last⟩

theorem not_mem_concat_head {l : List (Fin job.n)} (hw : w ∉ l) :
    (l ++ [w]).head? = some w ↔ l = [] := by
  cases l with
  | nil => simp
  | cons v l =>
    have : v ≠ w := fun h => hw (h ▸ List.mem_cons_self)
    simp [this]

/-- One more pipe. -/
theorem cameFirst_succ {i : Fin 4} {id : ℕ} {tag : Tag job.n} {out : Emission}
    (hNew : tag.worker ∉ pipeOrder log i tag.chunk)
    (hMade : ∀ i' : Fin 4, i'.val < i.val → tag.worker ∈ pipeOrder log i' tag.chunk) :
    CameFirst job (log ++ [⟨id, tag, .consume i, out⟩]) tag.chunk tag.worker (i.val + 1) ↔
      CameFirst job log tag.chunk tag.worker i.val ∨
        job.n ≠ 1 ∧ pipeOrder log i tag.chunk = [] := by
  unfold CameFirst
  rw [← and_or_left]
  refine and_congr_right fun _ => ⟨?_, ?_⟩
  · rintro ⟨i', hLt, hHead⟩
    by_cases hi : i' = i
    · subst hi
      rw [pipeOrder_consume, not_mem_concat_head hNew] at hHead
      exact .inr hHead
    · have hLt' : i'.val < i.val := by omega
      rw [head?_pipeOrder_snoc (hMade i' hLt')] at hHead
      exact .inl ⟨i', hLt', hHead⟩
  · rintro (⟨i', hLt, hHead⟩ | hNil)
    · exact ⟨i', by omega, by rw [head?_pipeOrder_snoc (hMade i' hLt), hHead]⟩
    · exact ⟨i, by omega, by rw [pipeOrder_consume, hNil]; rfl⟩

end Persist

-- ---------------------------------------------------------------------------
-- The invariant
-- ---------------------------------------------------------------------------

/-- What the orders of the pipes say about the packets in the switch and about the
broadcasts. -/
structure OrderOk (job : Job) (s : SlotState job.n) : Prop where
  nodup : ∀ i k, (pipeOrder s.log i k).Nodup
  passed : ∀ f ∈ s.recirc, ∀ i : Fin 4, i.val < f.passed →
    f.tag.worker ∈ pipeOrder s.log i f.tag.chunk
  first : ∀ f ∈ s.recirc,
    (f.pkt.md.firstFlag = true ↔ CameFirst job s.log f.tag.chunk f.tag.worker f.passed)
  last : ∀ f ∈ s.recirc, ∀ j, f.pkt.md.packetType = .harvest j →
    CameLast s.log f.tag.chunk f.tag.worker
  dropped : ∀ k, (drops s.log k).length = min (pipeOrder s.log 3 k).length (job.n - 1)
  cast : ∀ e ∈ s.log, e.broadcast?.isSome = true →
    CameLast s.log e.tag.chunk e.tag.worker ∧
      ¬ CameFirst job s.log e.tag.chunk e.tag.worker 4
  -- when the last worker is in, its packet is in the harvest until it is broadcast, unless
  -- it came first somewhere
  done : ∀ k, (∀ w, w ∈ pipeOrder s.log 3 k) →
    (∃ f ∈ s.recirc, f.tag.chunk = k ∧ ∃ j, f.pkt.md.packetType = .harvest j) ∨
    ∃ v, CameLast s.log k v ∧
      (CameFirst job s.log k v 4 ∨ ∃ e ∈ s.log, e.broadcast?.isSome = true ∧ e.tag.chunk = k)

theorem orderOk_empty (job : Job) (regs : Fin 4 → Registers) : OrderOk job { regs } where
  nodup := by simp [pipeOrder]
  passed := by simp
  first := by simp
  last := by simp
  dropped := by simp [drops, pipeOrder]
  cast := by simp
  done k hAll := absurd (hAll ⟨0, job.n_pos⟩) (by simp [pipeOrder])

section Moves

variable {job : Job} {d : Discipline} {s s' : SlotState job.n} {a : Staged.State (Fin job.n)}

/-- A worker that is in in pipe 3 is in in all pipes. -/
theorem Sim.order_anti (h : Sim job d s a) (hLarge : job.large = true) {w : Fin job.n} {k : ℕ}
    (hw : w ∈ pipeOrder s.log 3 k) (i : Fin 4) : w ∈ pipeOrder s.log i k := by
  have hPipes : job.pipes = 4 := if_pos hLarge
  have hi : i.val < job.pipes := by omega
  have h3 : (3 : Fin 4).val < job.pipes := by omega
  rw [mem_pipeOrder, h.rel.consumed 3 h3] at hw
  rw [mem_pipeOrder, h.rel.consumed i hi]
  exact Nat.lt_of_lt_of_le hw (h.inv.count_anti (by omega) h3 w)

theorem length_eq_of_all {l : List (Fin job.n)} (hNodup : l.Nodup) :
    l.length = job.n ↔ ∀ w, w ∈ l := by
  have hCard := Finset.card_eq_iff_eq_univ l.toFinset
  rw [Fintype.card_fin, List.toFinset_card_of_nodup hNodup, Finset.eq_univ_iff_forall] at hCard
  rw [hCard]
  exact forall_congr' fun w => List.mem_toFinset

section Consume

variable {i : Fin 4} {tag : Tag job.n} {st : PassState} {regs after : Registers} {out : Emission}

/-- The packet that makes consume pass `i` has made those before. -/
theorem NewPass.made (hPass : NewPass job d s a i tag st regs after out) (hOk : OrderOk job s)
    (i' : Fin 4) (hi' : i'.val < i.val) : tag.worker ∈ pipeOrder s.log i' tag.chunk := by
  rcases hPass.source with ⟨rfl, -⟩ | ⟨f, hf, rfl, hType, -⟩
  · exact absurd hi' (by simp)
  · exact hOk.passed f hf i' (by rwa [Flight.passed_consume hType])

theorem NewPass.first (hPass : NewPass job d s a i tag st regs after out) (hOk : OrderOk job s) :
    st.md.firstFlag = true ↔ CameFirst job s.log tag.chunk tag.worker i.val := by
  rcases hPass.source with ⟨rfl, hFlag, -⟩ | ⟨f, hf, rfl, hType, hMd, -⟩
  · rw [hFlag]
    simp [CameFirst]
  · rw [hMd, hOk.first f hf, Flight.passed_consume hType]

/-- Where the new packet goes, and what it carries. -/
theorem NewPass.flight_order (hPass : NewPass job d s a i tag st regs after out)
    (hOk : OrderOk job s) (h : Sim job d s a) (hLarge : job.large = true) {id : ℕ}
    {g : Flight job.n} (hg : g ∈ out.flight id tag) :
    g.tag = tag ∧ g.passed = i.val + 1 ∧
    (g.pkt.md.firstFlag = true ↔ CameFirst job (s.log ++ [⟨id, tag, .consume i, out⟩])
      tag.chunk tag.worker (i.val + 1)) ∧
    ∀ j, g.pkt.md.packetType = .harvest j →
      CameLast (s.log ++ [⟨id, tag, .consume i, out⟩]) tag.chunk tag.worker := by
  have hPipes : job.pipes = 4 := if_pos hLarge
  obtain ⟨-, hNew, hFull, hEmpty⟩ := hPass.finds h
  obtain ⟨hTag, -, hFirst, -, hGoes⟩ := hPass.flight h hg
  have hFirst' : g.pkt.md.firstFlag = true ↔ CameFirst job (s.log ++ [⟨id, tag, .consume i, out⟩])
      tag.chunk tag.worker (i.val + 1) := by
    rw [hFirst, Bool.or_eq_true, decide_eq_true_eq, hPass.first hOk, hEmpty,
      cameFirst_succ hNew (hPass.made hOk)]
  rcases hGoes with ⟨hNext, hType⟩ | ⟨hEnd, hType, hLast⟩
  · refine ⟨hTag, ?_, hFirst', fun j hHarvest => ?_⟩
    · rw [Flight.passed_consume hType]
      exact Fin.val_add_one_of_lt' (by omega)
    · rw [hType] at hHarvest
      exact absurd hHarvest (by simp)
  · obtain rfl : i = 3 := by omega
    refine ⟨hTag, Flight.passed_harvest hType, hFirst', fun _ _ => ⟨?_, ?_⟩⟩
    · rw [pipeOrder_consume]
      exact hFull.mp hLast
    · rw [pipeOrder_consume, List.getLast?_concat]

/-- In pipe 3 all packets but the last are dropped. -/
theorem NewPass.drops (hPass : NewPass job d s a i tag st regs after out) (hOk : OrderOk job s)
    (h : Sim job d s a) (hLarge : job.large = true) (id k : ℕ) :
    (drops (s.log ++ [⟨id, tag, .consume i, out⟩]) k).length =
      min (pipeOrder (s.log ++ [⟨id, tag, .consume i, out⟩]) 3 k).length (job.n - 1) := by
  have hPipes : job.pipes = 4 := if_pos hLarge
  unfold SwitchML.drops
  rw [List.filter_append, List.length_append]
  by_cases hHere : i = 3 ∧ tag.chunk = k
  · obtain ⟨rfl, rfl⟩ := hHere
    obtain ⟨hMap, hNew, hFull, -⟩ := hPass.finds h
    have hDropped := hOk.dropped tag.chunk
    have hNodup : (pipeOrder s.log 3 tag.chunk ++ [tag.worker]).Nodup :=
      List.nodup_append.mpr ⟨hOk.nodup 3 _, List.nodup_singleton _, by
        simpa using fun w hw (hEq : w = tag.worker) => hNew (hEq ▸ hw)⟩
    have hLength := length_eq_of_all hNodup
    have hLe : (pipeOrder s.log 3 tag.chunk ++ [tag.worker]).length ≤ job.n := by
      have := hNodup.length_le_card
      rwa [Fintype.card_fin] at this
    rw [List.length_append, List.length_singleton] at hLength hLe
    unfold SwitchML.drops at hDropped
    rw [pipeOrder_consume, List.length_append, List.length_singleton, hDropped]
    obtain ⟨rdmaMd, hOut⟩ := hPass.pass.finishes (by omega)
    by_cases hLast : consumeFlag regs st = 1
    · rw [if_pos (.inl hLast)] at hOut
      have hAll := hLength.mpr (hFull.mp hLast)
      simp [Event.isDropped, hOut]
      omega
    · rw [if_neg (fun hOr => hOr.elim hLast fun hAnd => hAnd.1 hMap)] at hOut
      have hNotAll : (pipeOrder s.log 3 tag.chunk).length + 1 ≠ job.n := fun hEq =>
        hLast (hFull.mpr (hLength.mp hEq))
      simp [Event.isDropped, hOut]
      omega
  · have hOther : ¬ ((.consume i : PacketType) = .consume 3 ∧ tag.chunk = k) := by
      simpa using fun hi => not_and.mp hHere hi
    rw [pipeOrder_other hOther, List.filter_singleton, decide_eq_false hOther]
    exact hOk.dropped k

/-- **Step lemma, consume passes.** -/
theorem OrderOk.consume (hOk : OrderOk job s) (h : Sim job d s a) (hLarge : job.large = true)
    (hPass : NewPass job d s a i tag st regs after out) {id : ℕ} {rest : List (Flight job.n)}
    (hLog : s'.log = s.log ++ [⟨id, tag, .consume i, out⟩])
    (hRecirc : s'.recirc = rest ++ out.flight id tag) (hRest : ∀ g ∈ rest, g ∈ s.recirc)
    (hKept : ∀ g ∈ s.recirc, ∀ j, g.pkt.md.packetType = .harvest j → g ∈ rest) :
    OrderOk job s' := by
  obtain ⟨hMap, hNew, hFull, -⟩ := hPass.finds h
  -- a chunk that is complete in pipe 3 has no new packets there
  have hOther : ∀ k, (∀ w, w ∈ pipeOrder s.log 3 k) →
      ¬ ((.consume i : PacketType) = .consume 3 ∧ tag.chunk = k) := by
    rintro k hAll ⟨hi, rfl⟩
    obtain rfl := PacketType.consume.inj hi
    exact hNew (hAll _)
  have hFirst : ∀ {k v}, CameLast s.log k v → (CameFirst job (s.log ++
      [⟨id, tag, .consume i, out⟩]) k v 4 ↔ CameFirst job s.log k v 4) := fun hLast =>
    cameFirst_snoc fun i' _ => h.order_anti hLarge (hLast.all _) i'
  constructor
  · intro i' k
    rw [hLog, pipeOrder_snoc]
    split
    · next hHere =>
      obtain ⟨hi, rfl⟩ := hHere
      obtain rfl := PacketType.consume.inj hi
      refine List.nodup_append.mpr ⟨hOk.nodup _ _, List.nodup_singleton _, ?_⟩
      simpa using fun w hw (hEq : w = tag.worker) => hNew (hEq ▸ hw)
    · rw [List.append_nil]
      exact hOk.nodup i' k
  · intro g hg i' hi'
    rw [hRecirc] at hg
    rw [hLog]
    rcases List.mem_append.mp hg with hg | hg
    · exact (pipeOrder_isPrefix _ _ _ _).subset (hOk.passed g (hRest g hg) i' hi')
    · obtain ⟨hTag, hPassed, -⟩ := hPass.flight_order hOk h hLarge hg
      rw [hPassed] at hi'
      rw [hTag]
      by_cases hEq : i' = i
      · rw [hEq, pipeOrder_consume]
        simp
      · exact (pipeOrder_isPrefix _ _ _ _).subset (hPass.made hOk i' (by omega))
  · intro g hg
    rw [hRecirc] at hg
    rw [hLog]
    rcases List.mem_append.mp hg with hg | hg
    · rw [hOk.first g (hRest g hg), cameFirst_snoc (hOk.passed g (hRest g hg))]
    · obtain ⟨hTag, hPassed, hFlag, -⟩ := hPass.flight_order hOk h hLarge hg
      rw [hTag, hPassed, hFlag]
  · intro g hg j hType
    rw [hRecirc] at hg
    rw [hLog]
    rcases List.mem_append.mp hg with hg | hg
    · have hLast := hOk.last g (hRest g hg) j hType
      exact hLast.snoc (hOther _ hLast.all)
    · obtain ⟨hTag, -, -, hLast⟩ := hPass.flight_order hOk h hLarge hg
      rw [hTag]
      exact hLast j hType
  · intro k
    rw [hLog]
    exact hPass.drops hOk h hLarge id k
  · intro e he hCast
    rw [hLog] at he ⊢
    rcases List.mem_append.mp he with he | he
    · obtain ⟨hLast, hNot⟩ := hOk.cast e he hCast
      exact ⟨hLast.snoc (hOther _ hLast.all), fun hYes => hNot ((hFirst hLast).mp hYes)⟩
    · rw [List.mem_singleton.mp he, hPass.pass.not_broadcast id] at hCast
      exact absurd hCast (by simp)
  · intro k hAll
    rw [hLog] at hAll ⊢
    by_cases hHere : i = 3 ∧ tag.chunk = k
    · -- the last packet goes into the harvest
      obtain ⟨rfl, rfl⟩ := hHere
      rw [pipeOrder_consume] at hAll
      obtain ⟨rdmaMd, hOut⟩ := hPass.pass.finishes (if_pos hLarge).symm
      rw [if_pos (.inl (hFull.mpr hAll))] at hOut
      obtain ⟨port, pkt, hOut, hType⟩ : ∃ port pkt, out = .recirculated port pkt ∧
          pkt.md.packetType = .harvest job.firstHarvest := ⟨_, _, hOut, rfl⟩
      refine .inl ⟨⟨id, tag, port, pkt⟩, ?_, rfl, _, hType⟩
      rw [hRecirc, hOut]
      exact List.mem_append_right _ (List.mem_singleton_self _)
    · have hNot : ¬ ((.consume i : PacketType) = .consume 3 ∧ tag.chunk = k) := by
        simpa using fun hi => not_and.mp hHere hi
      rw [pipeOrder_other hNot] at hAll
      rcases hOk.done k hAll with ⟨f, hf, hk, j, hType⟩ | ⟨v, hLast, hEnd⟩
      · refine .inl ⟨f, ?_, hk, j, hType⟩
        rw [hRecirc]
        exact List.mem_append_left _ (hKept f hf j hType)
      · refine .inr ⟨v, hLast.snoc hNot, hEnd.imp (hFirst hLast).mpr ?_⟩
        rintro ⟨e, he, hCast⟩
        exact ⟨e, List.mem_append_left _ he, hCast⟩

end Consume

-- ---------------------------------------------------------------------------
-- Harvest passes
-- ---------------------------------------------------------------------------

/-- Harvest passes do not change the orders. -/
theorem pipeOrder_harvest {n : ℕ} (log : List (Event n)) (id : ℕ) (tag : Tag n) (j : Fin 8)
    (out : Emission) (i : Fin 4) (k : ℕ) :
    pipeOrder (log ++ [⟨id, tag, .harvest j, out⟩]) i k = pipeOrder log i k :=
  pipeOrder_other (by simp)

theorem cameFirst_harvest {log : List (Event job.n)} {id : ℕ} {tag : Tag job.n} {j : Fin 8}
    {out : Emission} {k : ℕ} {w : Fin job.n} {m : ℕ} :
    CameFirst job (log ++ [⟨id, tag, .harvest j, out⟩]) k w m ↔ CameFirst job log k w m := by
  simp only [CameFirst, pipeOrder_harvest]

/-- How the harvest of a new packet ends. -/
theorem HarvestPass.ends_new {before after : Registers} {f : Flight job.n} {out : Emission}
    {log : List (Event job.n)} (hPass : HarvestPass job before after 7 f out)
    (hFlags : FlagsOk job log f) (hNew : f.dup = false) :
    (f.pkt.md.firstFlag = true → out = .dropped) ∧
    (f.pkt.md.firstFlag = false → ∃ pkt, out = .multicast job.mgid pkt) := by
  obtain ⟨hAll, -, hNobody⟩ := hPass.emits hFlags
  refine ⟨fun hFirst => hNobody (by simp [Flight.reply, hNew, hFirst]), fun hFirst => ?_⟩
  obtain ⟨pkt, -, hOut⟩ := hAll (Flight.reply_all.mpr ⟨hNew, hFirst⟩)
  exact ⟨pkt, hOut⟩

/-- **Step lemma, harvest passes.** -/
theorem OrderOk.harvest (hOk : OrderOk job s) (h : Sim job d s a) (hNew : AllNew s) {j : Fin 8}
    {pre post : List (Flight job.n)} {f : Flight job.n} {before after : Registers}
    {out : Emission} (hPass : HarvestPass job before after j f out)
    (hLog : s'.log = s.log ++ [⟨f.id, f.tag, .harvest j, out⟩])
    (hFrom : s.recirc = pre ++ f :: post)
    (hRecirc : s'.recirc = pre ++ post ++ out.flight f.id f.tag) : OrderOk job s' := by
  have hMem : f ∈ s.recirc := by rw [hFrom]; simp
  have hLast : ∀ {k v}, CameLast s.log k v →
      CameLast (s.log ++ [⟨f.id, f.tag, .harvest j, out⟩]) k v := fun hLast =>
    hLast.snoc (by simp)
  have hPassed := Flight.passed_harvest hPass.type
  -- what the packet that goes on inherits
  have hNext : ∀ g ∈ out.flight f.id f.tag, g.tag = f.tag ∧ g.passed = f.passed ∧
      g.pkt.md.firstFlag = f.pkt.md.firstFlag := by
    intro g hg
    obtain ⟨pkt, hPkt, rfl⟩ := hPass.flight_harvested hg
    exact ⟨rfl, by rw [hPassed]; exact Flight.passed_harvest hPkt.type, hPkt.first⟩
  have hKeep : ∀ {P : Flight job.n → Prop}, (∀ g ∈ s.recirc, P g) →
      (∀ g ∈ out.flight f.id f.tag, P g) → ∀ g ∈ s'.recirc, P g := by
    intro P hOld hNew g hg
    rw [hRecirc] at hg
    exact (List.mem_append.mp hg).elim (fun hg => hOld g (mem_of_mem_split hFrom hg)) (hNew g)
  constructor
  · intro i k
    rw [hLog, pipeOrder_harvest]
    exact hOk.nodup i k
  · rw [hLog]
    refine hKeep (fun g hg i hi => ?_) (fun g hg i hi => ?_)
    · rw [pipeOrder_harvest]
      exact hOk.passed g hg i hi
    · obtain ⟨hTag, hSame, -⟩ := hNext g hg
      rw [pipeOrder_harvest, hTag]
      exact hOk.passed f hMem i (hSame ▸ hi)
  · rw [hLog]
    refine hKeep (fun g hg => ?_) (fun g hg => ?_)
    · rw [cameFirst_harvest]
      exact hOk.first g hg
    · obtain ⟨hTag, hSame, hFirst⟩ := hNext g hg
      rw [cameFirst_harvest, hTag, hSame, hFirst]
      exact hOk.first f hMem
  · rw [hLog]
    refine hKeep (fun g hg j' hType => hLast (hOk.last g hg j' hType)) (fun g hg j' _ => ?_)
    rw [(hNext g hg).1]
    exact hLast (hOk.last f hMem j hPass.type)
  · intro k
    rw [hLog, pipeOrder_harvest, ← hOk.dropped k]
    unfold drops
    rw [List.filter_append]
    simp
  · intro e he hCast
    rw [hLog] at he ⊢
    rcases List.mem_append.mp he with he | he
    · obtain ⟨hCame, hNot⟩ := hOk.cast e he hCast
      exact ⟨hLast hCame, fun hYes => hNot (cameFirst_harvest.mp hYes)⟩
    · obtain rfl := List.mem_singleton.mp he
      refine ⟨hLast (hOk.last f hMem j hPass.type), fun hYes => ?_⟩
      have hFlag : f.pkt.md.firstFlag = true := by
        rw [hOk.first f hMem, hPassed]
        exact cameFirst_harvest.mp hYes
      by_cases hj : j = 7
      · subst hj
        rw [Event.broadcast?, (hPass.ends_new (h.rel.flags f hMem) (hNew f hMem)).1 hFlag] at hCast
        exact absurd hCast (by simp)
      · obtain ⟨pkt, -, hOut⟩ := hPass.continues hj
        rw [Event.broadcast?, hOut] at hCast
        exact absurd hCast (by simp)
  · intro k hAll
    rw [hLog] at hAll ⊢
    simp only [pipeOrder_harvest] at hAll
    rcases hOk.done k hAll with ⟨g, hg, hk, j', hType⟩ | ⟨v, hCame, hEnd⟩
    · rw [hFrom] at hg
      by_cases hEq : g = f
      · subst hEq
        by_cases hj : j = 7
        · -- the last harvest pass: the packet is broadcast or came first somewhere
          subst hj hk
          refine .inr ⟨_, hLast (hOk.last g hMem 7 hPass.type), ?_⟩
          obtain ⟨-, hCast⟩ := hPass.ends_new (h.rel.flags g hMem) (hNew g hMem)
          cases hFlag : g.pkt.md.firstFlag with
          | true =>
            refine .inl (cameFirst_harvest.mpr ?_)
            rw [← hPassed]
            exact (hOk.first g hMem).mp hFlag
          | false =>
            obtain ⟨pkt, hOut⟩ := hCast hFlag
            refine .inr ⟨_, List.mem_append_right _ (List.mem_singleton_self _), ?_, rfl⟩
            simp [Event.broadcast?, hOut]
        · obtain ⟨pkt, hPkt, hOut⟩ := hPass.continues hj
          rw [hOut] at hRecirc
          refine .inl ⟨⟨g.id, g.tag, job.harvestPort (j + 1), pkt⟩, ?_, hk, j + 1, hPkt.type⟩
          rw [hRecirc]
          exact List.mem_append_right _ (List.mem_singleton_self _)
      · refine .inl ⟨g, ?_, hk, j', hType⟩
        rw [hRecirc]
        simp only [List.mem_append, List.mem_cons] at hg ⊢
        tauto
    · refine .inr ⟨v, hLast hCame, hEnd.imp cameFirst_harvest.mpr ?_⟩
      rintro ⟨e, he, hCast⟩
      exact ⟨e, List.mem_append_left _ he, hCast⟩

theorem OrderOk.move (hOk : OrderOk job s) (h : Sim job d s a) (hLarge : job.large = true)
    (hNew : AllNew s) (hMove : OnceMove job d s a s') : OrderOk job s' := by
  cases hMove with
  | quiet hLog hRecirc hRegs =>
    constructor <;> rw [hLog]
    · exact hOk.nodup
    · rw [hRecirc]
      exact hOk.passed
    · rw [hRecirc]
      exact hOk.first
    · rw [hRecirc]
      exact hOk.last
    · exact hOk.dropped
    · exact hOk.cast
    · rw [hRecirc]
      exact hOk.done
  | consume i hPass hLog hRecirc hRest hKept hRegs =>
    exact hOk.consume h hLarge hPass hLog hRecirc hRest hKept
  | harvest j hPass hLog hFrom hRecirc hRegs =>
    exact hOk.harvest h hNew hPass hLog hFrom hRecirc

end Moves

-- ---------------------------------------------------------------------------
-- One chunk
-- ---------------------------------------------------------------------------

/-- Each worker sends one packet; nothing is lost, and passes come in any order. -/
def Discipline.oneChunk : Discipline where
  fifo := false
  lossy := false
  resends := false
  advances := false

/-- A packet of all workers that is on no port has been through all pipes. -/
theorem Sim.all_through {job : Job} {d : Discipline} {s : SlotState job.n}
    {a : Staged.State (Fin job.n)} (h : Sim job d s a) (hLarge : job.large = true)
    (hDone : s.recirc = []) {w : Fin job.n} {k : ℕ} (hw : consumed s.log 0 w k = true) :
    w ∈ pipeOrder s.log 3 k := by
  have hPipes : job.pipes = 4 := if_pos hLarge
  have hLane : ∀ m < 3, a.count (m + 1) w = a.count m w := by
    intro m hm
    have hStage := h.inv.lanes m (by omega) w
    have hEmpty := h.rel.lane ⟨m + 1, by omega⟩ w (by simp)
    rw [hDone] at hEmpty
    rw [show a.lane (m + 1) w = [] from hEmpty] at hStage
    exact hStage
  rw [mem_pipeOrder, h.rel.consumed 3 (by omega)]
  rw [h.rel.consumed 0 (by omega)] at hw
  have h1 : a.count 1 w = a.count 0 w := hLane 0 (by omega)
  have h2 : a.count 2 w = a.count 1 w := hLane 1 (by omega)
  have h3 : a.count 3 w = a.count 2 w := hLane 2 (by omega)
  show k < a.count 3 w
  rw [h3, h2, h1]
  exact hw

/-- **One broadcast for a chunk.** Every worker sends one packet of 1024 bytes for an empty
slot. When all packets are through, all but one were dropped in their last consume pass,
and that one was broadcast, if and only if the last worker in pipe 3 was first in no pipe
or there is only one. -/
theorem broadcast_once_1024B (job : Job) (hLarge : job.large = true) {regs : Fin 4 → Registers}
    (hEmpty : ∀ i, (regs i).bitmap (job.pool 0) = 0 ∧ (regs i).workerCount (job.pool 0) = 0)
    (labels : List (SlotLabel job.n))
    (hSent : ∀ w, consumed (slotRun job .oneChunk { regs } labels).log 0 w 0 = true)
    (hDone : (slotRun job .oneChunk { regs } labels).recirc = []) :
    let log := (slotRun job .oneChunk { regs } labels).log
    ((broadcasts log 0).length = 1 ∧ (drops log 0).length = job.n - 1) ↔
      job.n = 1 ∨ ∀ i, (pipeOrder log i 0).head? ≠ (pipeOrder log 3 0).getLast? := by
  intro log
  have hInit : Sim job .oneChunk { regs } Staged.init := by
    refine sim_empty fun i _ σ hσ => ?_
    obtain rfl : σ = job.firstSet := hσ.resolve_left (by simp [Discipline.oneChunk])
    have hPool : job.pool 0 = PoolIndex.mk job.slot job.firstSet := by simp [Job.pool, Job.set]
    exact hPool ▸ hEmpty i
  obtain ⟨hOk, hNew, a, hSim⟩ := hInit.once_invariant (P := OrderOk job) rfl
    (fun s a s' hSim hNew hOk hMove => hOk.move hSim hLarge hNew hMove)
    (fun f hf => absurd hf (by simp)) (orderOk_empty job regs) labels
  have hAll : ∀ w, w ∈ pipeOrder log 3 0 := fun w => hSim.all_through hLarge hDone (hSent w)
  have hDrops : (drops log 0).length = job.n - 1 := by
    have hLength : (pipeOrder log 3 0).length = job.n := (length_eq_of_all (hOk.nodup 3 0)).mpr hAll
    rw [hOk.dropped 0, hLength]
    omega
  obtain ⟨v, hLast, hEnd⟩ : ∃ v, CameLast log 0 v ∧ (CameFirst job log 0 v 4 ∨
      ∃ e ∈ log, e.broadcast?.isSome = true ∧ e.tag.chunk = 0) := by
    refine (hOk.done 0 hAll).resolve_left ?_
    rw [hDone]
    simp
  have hCondition : (job.n = 1 ∨ ∀ i, (pipeOrder log i 0).head? ≠ (pipeOrder log 3 0).getLast?) ↔
      ¬ CameFirst job log 0 v 4 := by
    rw [hLast.last, CameFirst, not_and_or, not_not, not_exists]
    simp only [Fin.is_lt, true_and, ne_eq]
  rw [hCondition]
  constructor
  · rintro ⟨hOne, -⟩
    obtain ⟨e, he⟩ := List.length_pos_iff_exists_mem.mp (by rw [hOne]; exact Nat.one_pos)
    obtain ⟨he, hCast, hChunk⟩ := mem_broadcasts.mp he
    obtain ⟨hLast', hNot⟩ := hOk.cast e he hCast
    rw [hChunk] at hLast' hNot
    obtain rfl : v = e.tag.worker := Option.some.inj (hLast.last.symm.trans hLast'.last)
    exact hNot
  · intro hNot
    obtain ⟨e, he, hCast, hChunk⟩ := hEnd.resolve_left hNot
    refine ⟨Nat.le_antisymm (hSim.broadcasts_length 0) ?_, hDrops⟩
    exact List.length_pos_of_mem (mem_broadcasts.mpr ⟨he, hCast, hChunk⟩)

/-- Worker 1 overtakes nobody: its packet is the last one in every pipe. -/
theorem broadcast_once_pair :
    let job := Job.plain 2 (by decide) (by decide) true
    let labels : List (SlotLabel 2) :=
      [.send 0 (plainPacket 0 8 100), .send 1 (plainPacket 1 8 200), .arrive 0, .arrive 1] ++
        List.replicate 6 (.recirculate 0) ++ List.replicate 7 (.recirculate 0)
    let log := (slotRun job .oneChunk { regs := fun _ => {} } labels).log
    ((broadcasts log 0).length = 1 ∧ (drops log 0).length = 1) ∧
    (((broadcasts log 0).length = 1 ∧ (drops log 0).length = job.n - 1) ↔
      job.n = 1 ∨ ∀ i, (pipeOrder log i 0).head? ≠ (pipeOrder log 3 0).getLast?) := by
  intro job labels log
  refine ⟨by decide +kernel, broadcast_once_1024B job rfl (fun i => ?_) labels ?_ ?_⟩
  · exact ⟨by simp [Registers.bitmap], rfl⟩
  · decide +kernel
  · exact List.isEmpty_iff.mp (by decide +kernel)

/-- **A chunk that is not broadcast.** Worker 0's packet comes first in pipe 0 and worker
1's overtakes it on the way to pipe 1. Worker 1's packet is dropped in pipe 3, where it is
the first of two, and worker 0's at the end of the harvest: nobody gets a reply. -/
theorem broadcast_missing :
    let job := Job.plain 2 (by decide) (by decide) true
    let labels : List (SlotLabel 2) :=
      [.send 0 (plainPacket 0 8 100), .send 1 (plainPacket 1 8 200), .arrive 0, .arrive 1] ++
        List.replicate 3 (.recirculate 1) ++ List.replicate 10 (.recirculate 0)
    let s := slotRun job .oneChunk { regs := fun _ => {} } labels
    (∀ w : Fin 2, ∀ i, consumed s.log i w 0 = true) ∧ s.recirc.isEmpty = true ∧
      (broadcasts s.log 0).length = 0 ∧ (drops s.log 0).length = 1 ∧
      ((s.log.filter fun e => decide (e.ty = .harvest 7) && e.isDropped).map fun e =>
        e.tag.worker.val) = [0] := by
  decide +kernel

end SwitchML
