import Mathlib.Data.Finset.Basic
import Mathlib.Data.Fintype.Basic

/-!
# Cascades

Members pass stages 0, 1, 2, … one after the other, each at its own pace: who has
passed a stage has passed all stages before it. A stage is complete when everybody has
passed it, so stages become complete in order and one at a time. `Frontier k` says that
exactly the first `k` are.

* `Cascade.Frontier.pass_completes` — a member that completes a stage completes the
  first one that was not;
* `Cascade.Frontier.pass_keeps` — any other pass leaves the frontier where it is;
* `Cascade.Frontier.pass` — both at once.
-/

/-- Who has passed which stage; nobody skips a stage. -/
structure Cascade (α : Type*) where
  passed : ℕ → Finset α
  nested : ∀ j, passed (j + 1) ⊆ passed j

namespace Cascade

variable {α : Type*}

/-- Nobody has passed any stage. -/
def empty : Cascade α := ⟨fun _ => ∅, fun _ => Finset.Subset.refl _⟩

theorem passed_mono (c : Cascade α) {i j : ℕ} (h : i ≤ j) : c.passed j ⊆ c.passed i := by
  induction h with
  | refl => exact Finset.Subset.refl _
  | step h ih => exact (c.nested _).trans ih

/-- Exactly the first `k` stages are complete. -/
def Frontier [Fintype α] (c : Cascade α) (k : ℕ) : Prop := ∀ i, c.passed i = Finset.univ ↔ i < k

theorem frontier_empty [Fintype α] [Nonempty α] : (empty : Cascade α).Frontier 0 := by
  intro i
  have hNe : (∅ : Finset α) ≠ Finset.univ := Finset.univ_nonempty.ne_empty.symm
  simp [empty, hNe]

variable [DecidableEq α]

/-- A member that has passed all earlier stages passes stage `j`. -/
def pass (c : Cascade α) (w : α) (j : ℕ) (h : ∀ i < j, w ∈ c.passed i) : Cascade α where
  passed i := if i = j then insert w (c.passed i) else c.passed i
  nested i := by
    split
    · next hEq =>
      have hMem : w ∈ c.passed i := h i (by omega)
      rw [if_neg (by omega)]
      exact Finset.insert_subset hMem (c.nested i)
    · split
      · exact (c.nested i).trans (Finset.subset_insert _ _)
      · exact c.nested i

variable {c : Cascade α} {w : α} {j : ℕ} (h : ∀ i < j, w ∈ c.passed i)

@[simp] theorem pass_passed_self : (c.pass w j h).passed j = insert w (c.passed j) := by
  simp [pass]

theorem pass_passed_of_ne {i : ℕ} (hi : i ≠ j) : (c.pass w j h).passed i = c.passed i := by
  simp [pass, hi]

/-- Passing a stage again changes nothing. -/
theorem pass_passed_of_mem (hMem : w ∈ c.passed j) (i : ℕ) :
    (c.pass w j h).passed i = c.passed i := by
  by_cases hi : i = j
  · subst hi
    rw [pass_passed_self, Finset.insert_eq_of_mem hMem]
  · exact pass_passed_of_ne h hi

theorem mem_pass {i : ℕ} {w' : α} (hMem : w' ∈ c.passed i) : w' ∈ (c.pass w j h).passed i := by
  by_cases hi : i = j
  · subst hi
    rw [pass_passed_self]
    exact Finset.mem_insert_of_mem hMem
  · rwa [pass_passed_of_ne h hi]

/-- The member has then passed all stages up to `j`. -/
theorem mem_pass_of_le {i : ℕ} (hi : i ≤ j) : w ∈ (c.pass w j h).passed i := by
  rcases Nat.lt_or_eq_of_le hi with hLt | rfl
  · exact mem_pass h (h i hLt)
  · rw [pass_passed_self]
    exact Finset.mem_insert_self w _

variable [Fintype α] {k : ℕ} (hk : c.Frontier k)

include hk

/-- **The next stage.** Stages are completed in order. -/
theorem Frontier.pass_completes (hNew : w ∉ c.passed j)
    (hAll : insert w (c.passed j) = Finset.univ) : j = k ∧ (c.pass w j h).Frontier (k + 1) := by
  have hNot : ¬ j < k := fun hLt => hNew ((hk j).mpr hLt ▸ Finset.mem_univ w)
  -- everybody else has passed `j`, and `w` all stages before it
  have hBefore : ∀ i < j, c.passed i = Finset.univ := by
    intro i hi
    refine Finset.univ_subset_iff.mp fun w' hw' => ?_
    rw [← hAll] at hw'
    rcases Finset.mem_insert.mp hw' with rfl | hw'
    · exact h i hi
    · exact c.passed_mono (by omega) hw'
  have hEq : j = k := by
    by_contra hNe
    exact absurd ((hk k).mp (hBefore k (by omega))) (Nat.lt_irrefl k)
  refine ⟨hEq, fun i => ?_⟩
  by_cases hi : i = j
  · subst hi
    rw [pass_passed_self]
    simp only [hAll, true_iff]
    omega
  · rw [pass_passed_of_ne h hi, hk i]
    omega

/-- A pass that completes no stage. -/
theorem Frontier.pass_keeps (hRest : insert w (c.passed j) ≠ Finset.univ) :
    (c.pass w j h).Frontier k := by
  intro i
  by_cases hi : i = j
  · subst hi
    rw [pass_passed_self]
    refine ⟨fun hEq => absurd hEq hRest, fun hLt => ?_⟩
    rw [(hk i).mpr hLt, Finset.insert_eq_of_mem (Finset.mem_univ w)]
  · rw [pass_passed_of_ne h hi, hk i]

/-- The frontier after a pass. -/
theorem Frontier.pass : (c.pass w j h).Frontier
    (if w ∉ c.passed j ∧ insert w (c.passed j) = Finset.univ then k + 1 else k) := by
  split
  · next hDone => exact (hk.pass_completes h hDone.1 hDone.2).2
  · next hNot =>
    by_cases hMem : w ∈ c.passed j
    · intro i
      rw [pass_passed_of_mem h hMem]
      exact hk i
    · exact hk.pass_keeps h fun hAll => hNot ⟨hMem, hAll⟩

end Cascade
