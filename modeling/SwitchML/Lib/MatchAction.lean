import Mathlib.Data.BitVec
import Mathlib.Data.List.Basic

/-!
# Match-action tables

A match-action table is a list of rows in priority order, each with a
ternary pattern on the key and an action; the action of the first row that
matches is taken, and the default action when none does.

* `KeyField` — a ternary pattern on one field of a key: any value, one value, or a
  value under a mask;
* `lookup` — the action of the first matching row;
* `lookup_append_miss`, `lookup_family` — how a lookup goes through blocks of
  rows that differ only in one parameter.
-/

namespace MatchAction

variable {κ α ι : Type}

-- ---------------------------------------------------------------------------
-- Ternary patterns
-- ---------------------------------------------------------------------------

/-- A ternary pattern on one field of a key. -/
abbrev KeyField (α : Type) := α → Bool

namespace KeyField

/-- `_`: every value matches. -/
def any : KeyField α := fun _ => true

/-- One value matches. -/
def exact [DecidableEq α] (a : α) : KeyField α := fun x => decide (x = a)

/-- `value &&& mask`: the bits under the mask have to agree. -/
def masked {w : Nat} (value mask : BitVec w) : KeyField (BitVec w) :=
  fun x => decide (x &&& mask = value &&& mask)

@[simp] theorem any_apply (x : α) : (any : KeyField α) x = true := rfl

@[simp] theorem exact_apply [DecidableEq α] (a x : α) :
    exact a x = decide (x = a) := rfl

@[simp] theorem masked_apply {w : Nat} (value mask x : BitVec w) :
    masked value mask x = decide (x &&& mask = value &&& mask) := rfl

/-- A pattern on the lowest `b` bits. -/
theorem masked_low {w i : Nat} (b : Nat) (mask x : BitVec w) (hMask : mask.toNat = 2 ^ b - 1)
    (hb : b ≤ w) (hi : i < 2 ^ b) :
    masked (BitVec.ofNat w i) mask x = true ↔ i = x.toNat % 2 ^ b := by
  have hLt : i < 2 ^ w := Nat.lt_of_lt_of_le hi (Nat.pow_le_pow_right (by decide) hb)
  rw [masked_apply, decide_eq_true_eq, ← BitVec.toNat_inj, BitVec.toNat_and, BitVec.toNat_and,
    hMask, BitVec.toNat_ofNat, Nat.mod_eq_of_lt hLt, Nat.and_two_pow_sub_one_eq_mod,
    Nat.and_two_pow_sub_one_eq_mod, Nat.mod_eq_of_lt hi]
  exact eq_comm

/-- A pattern on all bits from bit `k` on. -/
theorem masked_high {w k : Nat} {mask : BitVec w}
    (hMask : ∀ b < w, mask.getLsbD b = decide (k ≤ b)) (value x : BitVec w) :
    masked value mask x = true ↔ x.toNat / 2 ^ k = value.toNat / 2 ^ k := by
  have hShift : ∀ v : BitVec w, (v >>> k).toNat = v.toNat / 2 ^ k := fun v => by
    rw [BitVec.toNat_ushiftRight, Nat.shiftRight_eq_div_pow]
  rw [masked_apply, decide_eq_true_eq, ← hShift, ← hShift, BitVec.toNat_inj]
  constructor
  · intro h
    apply BitVec.eq_of_getLsbD_eq
    intro b hb
    rw [BitVec.getLsbD_ushiftRight, BitVec.getLsbD_ushiftRight]
    by_cases hLt : k + b < w
    · have hBit := congrArg (BitVec.getLsbD · (k + b)) h
      simpa [BitVec.getLsbD_and, hMask _ hLt] using hBit
    · rw [BitVec.getLsbD_of_ge _ _ (by omega), BitVec.getLsbD_of_ge _ _ (by omega)]
  · intro h
    apply BitVec.eq_of_getLsbD_eq
    intro b hb
    rw [BitVec.getLsbD_and, BitVec.getLsbD_and, hMask b hb]
    by_cases hk : k ≤ b
    · have hBit := congrArg (BitVec.getLsbD · (b - k)) h
      simp only [BitVec.getLsbD_ushiftRight, Nat.add_sub_cancel' hk] at hBit
      rw [hBit]
    · simp [hk]

end KeyField

-- ---------------------------------------------------------------------------
-- First-match lookup
-- ---------------------------------------------------------------------------

/-- The rows of a table in priority order: a pattern and an action. -/
abbrev Table (κ α : Type) := List (KeyField κ × α)

/-- The action of the first row that matches `k`, else the default action. -/
def lookup (dflt : α) (k : κ) : Table κ α → α
  | [] => dflt
  | (pat, act) :: rest => if pat k then act else lookup dflt k rest

@[simp] theorem lookup_nil (dflt : α) (k : κ) : lookup dflt k [] = dflt := rfl

theorem lookup_cons (dflt : α) (k : κ) (row : KeyField κ × α) (rest : Table κ α) :
    lookup dflt k (row :: rest) = if row.1 k then row.2 else lookup dflt k rest := rfl

theorem lookup_hit {dflt : α} {k : κ} {pat : KeyField κ} {act : α} {rest : Table κ α}
    (h : pat k = true) : lookup dflt k ((pat, act) :: rest) = act := by
  rw [lookup_cons, if_pos h]

theorem lookup_miss {dflt : α} {k : κ} {pat : KeyField κ} {act : α} {rest : Table κ α}
    (h : pat k = false) :
    lookup dflt k ((pat, act) :: rest) = lookup dflt k rest := by
  rw [lookup_cons, if_neg (by simp [h])]

/-- A block of rows none of which matches is passed over. -/
theorem lookup_append_miss {dflt : α} {k : κ} {rows : Table κ α}
    (h : ∀ row ∈ rows, row.1 k = false) (rest : Table κ α) :
    lookup dflt k (rows ++ rest) = lookup dflt k rest := by
  induction rows with
  | nil => rfl
  | cons row rows ih =>
    rw [List.cons_append, lookup_miss (h row List.mem_cons_self)]
    exact ih fun r hr => h r (List.mem_cons_of_mem _ hr)

/-- An action other than the default one is that of a row that matches. -/
theorem lookup_eq_or_mem (dflt : α) (k : κ) (rows : Table κ α) :
    lookup dflt k rows = dflt ∨ ∃ row ∈ rows, row.1 k = true ∧ lookup dflt k rows = row.2 := by
  induction rows with
  | nil => exact .inl rfl
  | cons row rows ih =>
    by_cases hHit : row.1 k = true
    · exact .inr ⟨row, List.mem_cons_self, hHit, lookup_hit hHit⟩
    · rw [lookup_cons, if_neg hHit]
      exact ih.imp_right fun ⟨r, hr, h⟩ => ⟨r, List.mem_cons_of_mem _ hr, h⟩

/-- In a family of rows indexed by `ι` whose patterns exclude each other, the row
of the index that matches is taken, wherever it stands. -/
theorem lookup_family {dflt : α} {k : κ} {pat : ι → KeyField κ} {act : ι → α}
    {idx : List ι} {i : ι} (hi : i ∈ idx) (hHit : pat i k = true)
    (hOnly : ∀ j ∈ idx, pat j k = true → j = i) (rest : Table κ α) :
    lookup dflt k (idx.map (fun j => (pat j, act j)) ++ rest) = act i := by
  induction idx with
  | nil => simp at hi
  | cons j idx ih =>
    rw [List.map_cons, List.cons_append]
    by_cases hj : pat j k = true
    · rw [lookup_hit hj, hOnly j List.mem_cons_self hj]
    · have hne : i ≠ j := fun h => hj (h ▸ hHit)
      have hmem : i ∈ idx := by
        rcases List.mem_cons.mp hi with h | h
        · exact absurd h hne
        · exact h
      rw [lookup_miss (by simpa using hj)]
      exact ih hmem fun l hl => hOnly l (List.mem_cons_of_mem _ hl)

end MatchAction
