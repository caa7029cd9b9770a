import Mathlib.Data.BitVec
import Mathlib.Data.Finset.Basic
import Mathlib.Data.Fintype.Basic

/-!
# Bitmaps as sets

A bit vector of width `m` read as a set of members of `Fin n`, `n ≤ m`: `Holds b S`
says that the bits of `b` are exactly the members of `S`. The lemmas translate the
operations that set, clear and test the bit of one member.
-/

namespace Bitmap

variable {m n : ℕ}

/-- The bits of `b` are the members of `S`. -/
def Holds (b : BitVec m) (S : Finset (Fin n)) : Prop :=
  ∀ i, b.getLsbD i = true ↔ ∃ w ∈ S, w.val = i

theorem getLsbD_bit (w : Fin n) (hn : n ≤ m) (i : ℕ) :
    ((1#m) <<< w.val).getLsbD i = true ↔ w.val = i := by
  have hw := w.isLt
  rw [BitVec.getLsbD_shiftLeft]
  simp only [BitVec.getLsbD_one, Bool.and_eq_true, decide_eq_true_eq, Bool.not_eq_true',
    decide_eq_false_iff_not]
  omega

theorem holds_zero : Holds (0#m) (∅ : Finset (Fin n)) := by
  intro i
  simp

namespace Holds

variable {b : BitVec m} {S : Finset (Fin n)}

theorem mem (h : Holds b S) (w : Fin n) : b.getLsbD w.val = true ↔ w ∈ S := by
  rw [h w.val]
  constructor
  · rintro ⟨w', hw', hEq⟩
    rwa [Fin.ext hEq] at hw'
  · exact fun hw => ⟨w, hw, rfl⟩

theorem set_bit (h : Holds b S) (hn : n ≤ m) (w : Fin n) :
    Holds (b ||| (1#m) <<< w.val) (insert w S) := by
  intro i
  rw [BitVec.getLsbD_or, Bool.or_eq_true, h i, getLsbD_bit w hn]
  constructor
  · rintro (⟨w', hw', rfl⟩ | rfl)
    · exact ⟨w', Finset.mem_insert_of_mem hw', rfl⟩
    · exact ⟨w, Finset.mem_insert_self _ _, rfl⟩
  · rintro ⟨w', hw', rfl⟩
    rcases Finset.mem_insert.mp hw' with rfl | hw'
    · exact .inr rfl
    · exact .inl ⟨w', hw', rfl⟩

theorem clear_bit (h : Holds b S) (hn : n ≤ m) (w : Fin n) :
    Holds (b &&& ~~~((1#m) <<< w.val)) (S.erase w) := by
  intro i
  rw [BitVec.getLsbD_and, Bool.and_eq_true, BitVec.getLsbD_not, Bool.and_eq_true, h i,
    Bool.not_eq_true', ← Bool.not_eq_true, getLsbD_bit w hn, decide_eq_true_eq]
  constructor
  · rintro ⟨⟨w', hw', rfl⟩, -, hNe⟩
    exact ⟨w', Finset.mem_erase.mpr ⟨fun hEq => hNe (by rw [hEq]), hw'⟩, rfl⟩
  · rintro ⟨w', hw', rfl⟩
    obtain ⟨hNe, hMem⟩ := Finset.mem_erase.mp hw'
    have hLt := w'.isLt
    exact ⟨⟨w', hMem, rfl⟩, by omega, fun hEq => hNe (Fin.ext hEq.symm)⟩

theorem test_bit (h : Holds b S) (hn : n ≤ m) (w : Fin n) :
    b &&& (1#m) <<< w.val = 0#m ↔ w ∉ S := by
  rw [← h.mem w]
  constructor
  · intro hZero hBit
    have hAt : (b &&& (1#m) <<< w.val).getLsbD w.val = true := by
      rw [BitVec.getLsbD_and, hBit, (getLsbD_bit w hn w.val).mpr rfl]
      rfl
    rw [hZero] at hAt
    simp at hAt
  · intro hBit
    apply BitVec.eq_of_getLsbD_eq
    intro i _
    rw [BitVec.getLsbD_and, BitVec.getLsbD_zero, Bool.and_eq_false_iff, ← Bool.not_eq_true,
      ← Bool.not_eq_true, getLsbD_bit w hn]
    by_cases hw : w.val = i
    · exact .inl (hw ▸ hBit)
    · exact .inr hw

/-- The set determines the bitmap. -/
theorem unique {b' : BitVec m} (h : Holds b S) (h' : Holds b' S) : b' = b := by
  apply BitVec.eq_of_getLsbD_eq
  intro i _
  rw [Bool.eq_iff_iff, h' i, h i]

theorem eq_zero_iff (h : Holds b S) : b = 0#m ↔ S = ∅ := by
  constructor
  · rintro rfl
    refine Finset.eq_empty_of_forall_notMem fun w hw => ?_
    have := (h.mem w).mpr hw
    simp at this
  · rintro rfl
    apply BitVec.eq_of_getLsbD_eq
    intro i _
    rw [BitVec.getLsbD_zero, ← Bool.not_eq_true, h i]
    simp

end Holds

end Bitmap
