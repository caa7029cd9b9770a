import SwitchML.Lib.History
import SwitchML.Protocol.SlotMachine

/-!
# SwitchML protocol — what the log says

The log of a run only grows. What it says of a chunk does not change any more once the
switch has processed a packet of it: `firstProcessed_append`, and for the aggregate
`aggregate_append`.
-/

namespace SwitchML

variable {n : ℕ} {log : List (Event n)} {w : Fin n} {k : ℕ}

/-- The chunk of a broadcast. -/
def Event.castChunk (e : Event n) : Option ℕ := e.broadcast?.map fun _ => e.tag.chunk

/-- The slices of the workers' packets that pipe `i` adds up. -/
def pipeSlices (log : List (Event n)) (i : Fin 4) (w : Fin n) (k : ℕ) : Data × Data :=
  (firstSlice log w k (2 * i.val), firstSlice log w k (2 * i.val + 1))

theorem consumed_append (log log' : List (Event n)) (i : Fin 4) (w : Fin n) (k : ℕ) :
    consumed (log ++ log') i w k = (consumed log i w k || consumed log' i w k) := by
  simp [consumed]

@[simp] theorem consumed_singleton (e : Event n) (i : Fin 4) (w : Fin n) (k : ℕ) :
    consumed [e] i w k = e.isConsume i w k := by
  simp [consumed]

theorem firstProcessed_eq_some_append {rp : RocePacket} (h : firstProcessed log w k = some rp)
    (log' : List (Event n)) : firstProcessed (log ++ log') w k = some rp := by
  unfold firstProcessed at h ⊢
  obtain ⟨e, hFind, hSent⟩ := Option.map_eq_some_iff.mp h
  rw [List.find?_append, hFind, Option.some_or, Option.map_some, hSent]

theorem exists_firstProcessed (h : consumed log 0 w k = true) :
    ∃ rp, firstProcessed log w k = some rp := by
  unfold consumed at h
  obtain ⟨e, hMem, hE⟩ := List.any_eq_true.mp h
  have hSome : (log.find? (Event.isConsume 0 w k)).isSome = true :=
    List.find?_isSome.mpr ⟨e, hMem, hE⟩
  obtain ⟨e', he'⟩ := Option.isSome_iff_exists.mp hSome
  exact ⟨e'.tag.sent, by rw [firstProcessed, he']; rfl⟩

/-- The first packet of a chunk stays the first. -/
theorem firstProcessed_append (h : consumed log 0 w k = true) (log' : List (Event n)) :
    firstProcessed (log ++ log') w k = firstProcessed log w k := by
  obtain ⟨rp, hFirst⟩ := exists_firstProcessed h
  rw [firstProcessed_eq_some_append hFirst, hFirst]

/-- A packet that nothing of its chunk was processed before is the first. -/
theorem firstProcessed_snoc (h : consumed log 0 w k = false) {e : Event n}
    (he : e.isConsume 0 w k = true) : firstProcessed (log ++ [e]) w k = some e.tag.sent := by
  unfold consumed at h
  have hNone : log.find? (Event.isConsume 0 w k) = none := by
    rw [List.find?_eq_none]
    intro x hx hx'
    rw [List.any_eq_false] at h
    exact h x hx hx'
  simp [firstProcessed, List.find?_append, hNone, he]

theorem firstSlice_append (h : consumed log 0 w k = true) (log' : List (Event n)) (j : ℕ) :
    firstSlice (log ++ log') w k j = firstSlice log w k j := by
  unfold firstSlice
  rw [firstProcessed_append h]

theorem pipeSlices_append (h : consumed log 0 w k = true) (log' : List (Event n)) (i : Fin 4) :
    pipeSlices (log ++ log') i w k = pipeSlices log i w k := by
  unfold pipeSlices
  rw [firstSlice_append h, firstSlice_append h]

/-- **The aggregate is final** when all workers have sent the chunk. -/
theorem aggregate_append {job : Job} {log : List (Event job.n)}
    (h : ∀ w, consumed log 0 w k = true) (log' : List (Event job.n)) :
    aggregate job (log ++ log') k = aggregate job log k := by
  unfold aggregate aggregateSlice
  simp only [firstSlice_append (h _)]

/-- The slices from the `m`-th on. -/
theorem aggregate_drop {job : Job} (log : List (Event job.n)) (k : ℕ) {m : ℕ}
    (hm : m < job.slices) :
    (aggregate job log k).drop m =
      aggregateSlice log k m :: (aggregate job log k).drop (m + 1) := by
  have hLength : m < (aggregate job log k).length := by simpa [aggregate] using hm
  rw [List.drop_eq_getElem_cons hLength]
  simp [aggregate]

theorem aggregate_drop_length {job : Job} (log : List (Event job.n)) (k : ℕ) :
    (aggregate job log k).drop job.slices = [] := by
  simp [aggregate]

end SwitchML
