import Mathlib.Data.Nat.ModEq

/-!
# Ones' complement sums

The checksum of internet headers: the words of a header are added up, a carry out of the
top is added at the bottom (`fold`), and the checksum is the complement of the result. A
receiver adds up all words, the checksum among them, and finds all ones (`fold_verifies`).
-/

namespace OnesComplement

/-- One step of adding with end-around carry, on words of `w` bits. -/
def fold (w n : ℕ) : ℕ := n % 2 ^ w + n / 2 ^ w

variable {w n : ℕ}

/-- The carry counts as much at the bottom as it did above the top. -/
theorem fold_modEq (w n : ℕ) : fold w n ≡ n [MOD 2 ^ w - 1] := by
  have hOne : 2 ^ w ≡ 1 [MOD 2 ^ w - 1] :=
    Nat.modEq_sub Nat.one_le_two_pow
  calc fold w n = n % 2 ^ w + 1 * (n / 2 ^ w) := by rw [fold, Nat.one_mul]
    _ ≡ n % 2 ^ w + 2 ^ w * (n / 2 ^ w) [MOD 2 ^ w - 1] :=
        Nat.ModEq.add_left _ (Nat.ModEq.mul_right _ hOne.symm)
    _ = n := Nat.mod_add_div n (2 ^ w)

theorem fold_pos (h : 0 < n) : 0 < fold w n := by
  unfold fold
  rcases Nat.eq_zero_or_pos (n / 2 ^ w) with hDiv | hDiv
  · have hSplit := Nat.mod_add_div n (2 ^ w)
    rw [hDiv, Nat.mul_zero] at hSplit
    omega
  · exact Nat.add_pos_right _ hDiv

/-- Two steps reduce the sum of fewer than `2 ^ w` words to one word. -/
theorem fold_fold_lt (h : n < 2 ^ w * 2 ^ w) : fold w (fold w n) < 2 ^ w := by
  have hPos : 0 < 2 ^ w := Nat.two_pow_pos w
  have hLow := Nat.mod_lt n hPos
  have hHigh : n / 2 ^ w < 2 ^ w := Nat.div_lt_of_lt_mul h
  -- the first step leaves a carry of at most one
  have hFirst : fold w n + 1 < 2 ^ w + 2 ^ w := by
    unfold fold
    omega
  rcases Nat.lt_or_ge (fold w n) (2 ^ w) with hLt | hGe
  · rw [fold, Nat.mod_eq_of_lt hLt, Nat.div_eq_of_lt hLt]
    omega
  · have hDiv : fold w n / 2 ^ w = 1 := Nat.div_eq_of_lt_le (by omega) (by omega)
    have hSplit := Nat.mod_add_div (fold w n) (2 ^ w)
    rw [hDiv, Nat.mul_one] at hSplit
    show fold w n % 2 ^ w + fold w n / 2 ^ w < 2 ^ w
    omega

/-- **Verification.** A sum to which the complement of its word is added comes out as all
ones. -/
theorem fold_verifies (hw : 0 < w) (h : n + 2 ^ w ≤ 2 ^ w * 2 ^ w) :
    fold w (fold w (n + (2 ^ w - 1 - fold w (fold w n)))) = 2 ^ w - 1 := by
  have hTwo : 2 ≤ 2 ^ w := Nat.le_self_pow hw.ne' 2
  have hWord := fold_fold_lt (w := w) (n := n) (by omega)
  obtain ⟨c, hc⟩ : ∃ c, c = 2 ^ w - 1 - fold w (fold w n) := ⟨_, rfl⟩
  rw [← hc]
  -- the sum is a multiple of all ones, and not zero
  have hMod : fold w (fold w (n + c)) ≡ 0 [MOD 2 ^ w - 1] := calc
    fold w (fold w (n + c)) ≡ fold w (n + c) [MOD 2 ^ w - 1] := fold_modEq _ _
    _ ≡ n + c [MOD 2 ^ w - 1] := fold_modEq _ _
    _ ≡ fold w (fold w n) + c [MOD 2 ^ w - 1] :=
        Nat.ModEq.add_right c ((fold_modEq w n).symm.trans (fold_modEq w (fold w n)).symm)
    _ = 2 ^ w - 1 := by omega
    _ ≡ 0 [MOD 2 ^ w - 1] := Nat.modEq_zero_iff_dvd.mpr dvd_rfl
  have hPos : 0 < n + c := by
    rcases Nat.eq_zero_or_pos n with rfl | hn
    · have hZero : fold w (fold w 0) = 0 := by simp [fold]
      omega
    · omega
  have hSum := fold_pos (w := w) (fold_pos (w := w) hPos)
  have hLt := fold_fold_lt (w := w) (n := n + c) (by omega)
  obtain ⟨m, hm⟩ := Nat.modEq_zero_iff_dvd.mp hMod
  have hOne : m = 1 := by
    rcases Nat.lt_or_ge m 2 with hSmall | hLarge
    · rcases Nat.eq_zero_or_pos m with rfl | hOne
      · omega
      · omega
    · have := Nat.mul_le_mul_left (2 ^ w - 1) hLarge
      omega
  rw [hm, hOne, Nat.mul_one]

end OnesComplement
