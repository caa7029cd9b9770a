import Mathlib.Data.List.Basic

/-!
# In-order acceptance

A receiver of messages that are cut into numbered packets, behind a network that may
lose, duplicate and reorder them. It takes packet 0 of every message, and any other
packet only when the packet before it, of the same message, was the last one it took
and nothing else came in between. `positions` runs it over a list of packets.

`positions_split` is what such a receiver gives: between two packets 0 it takes the packets up
to the first one that is not the next of the message, and nothing after this gap.
-/

namespace InOrder

variable {κ : Type*} [DecidableEq κ]

/-- The position after a packet: the packet itself if it is taken, none if it is not. -/
def accept (pos : Option (κ × ℕ)) (p : κ × ℕ) : Option (κ × ℕ) :=
  if p.2 = 0 ∨ pos = some (p.1, p.2 - 1) then some p else none

/-- The positions after each packet of a list. -/
def positions (pos : Option (κ × ℕ)) : List (κ × ℕ) → List (Option (κ × ℕ))
  | [] => []
  | p :: ps => accept pos p :: positions (accept pos p) ps

theorem accept_zero (pos : Option (κ × ℕ)) (k : κ) : accept pos (k, 0) = some (k, 0) := by
  simp [accept]

theorem accept_next (k : κ) (i : ℕ) : accept (some (k, i)) (k, i + 1) = some (k, i + 1) := by
  simp [accept]

theorem accept_gap {pos : Option (κ × ℕ)} {p : κ × ℕ} (h0 : p.2 ≠ 0)
    (hGap : pos ≠ some (p.1, p.2 - 1)) : accept pos p = none := by
  simp [accept, h0, hGap]

theorem positions_append (pos : Option (κ × ℕ)) (ps qs : List (κ × ℕ)) :
    ∃ pos', positions pos (ps ++ qs) = positions pos ps ++ positions pos' qs := by
  induction ps generalizing pos with
  | nil => exact ⟨pos, rfl⟩
  | cons p ps ih =>
    obtain ⟨pos', h⟩ := ih (accept pos p)
    exact ⟨pos', congrArg (accept pos p :: ·) h⟩

/-- Behind a gap nothing is taken up to the next packet 0. -/
theorem positions_lost {ps : List (κ × ℕ)} (h0 : ∀ p ∈ ps, p.2 ≠ 0) :
    positions none ps = List.replicate ps.length none := by
  induction ps with
  | nil => rfl
  | cons p ps ih =>
    have hp : accept none p = none := accept_gap (h0 p (by simp)) (by simp)
    rw [positions, hp, ih fun q hq => h0 q (by simp [hq])]
    rfl

/-- **In-order acceptance.** After packet `i` of message `k`, and up to the next packet
0, the packets taken are the next ones of that message, as many as come in sequence. -/
theorem positions_split {ps : List (κ × ℕ)} (h0 : ∀ p ∈ ps, p.2 ≠ 0) (k : κ) (i : ℕ) :
    ∃ m ≤ ps.length, ps.take m = (List.range m).map (fun j => (k, i + 1 + j)) ∧
      ps[m]? ≠ some (k, i + 1 + m) ∧
      positions (some (k, i)) ps =
        (ps.take m).map some ++ List.replicate (ps.length - m) none := by
  induction ps generalizing i with
  | nil => exact ⟨0, Nat.le_refl _, rfl, by simp, rfl⟩
  | cons p ps ih =>
    have hTail : ∀ q ∈ ps, q.2 ≠ 0 := fun q hq => h0 q (by simp [hq])
    by_cases hNext : p = (k, i + 1)
    · -- the next packet: it belongs to the run that starts one packet later
      obtain ⟨m, hm, hTake, hStop, hPos⟩ := ih hTail (i + 1)
      refine ⟨m + 1, by simpa using hm, ?_, ?_, ?_⟩
      · rw [List.take_succ_cons, hTake, List.range_succ_eq_map, List.map_cons, List.map_map, hNext]
        exact congrArg _ (List.map_congr_left fun j _ => by simp; omega)
      · rw [List.getElem?_cons_succ, show i + 1 + (m + 1) = i + 1 + 1 + m by omega]
        exact hStop
      · rw [positions, hNext, accept_next, hPos]
        simp
    · have hGap : accept (some (k, i)) p = none := by
        refine accept_gap (h0 p (by simp)) fun hEq => hNext ?_
        have hPos := h0 p (by simp)
        obtain ⟨hk, hi⟩ := Prod.mk.inj (Option.some.inj hEq)
        exact Prod.ext hk.symm (by simp only; omega)
      refine ⟨0, Nat.zero_le _, rfl, by simpa using hNext, ?_⟩
      rw [positions, hGap, positions_lost hTail]
      rfl

end InOrder
