import Mathlib.Data.Finset.Card
import Mathlib.Data.Fintype.Card

/-!
# SwitchML client — the barrier

`Barrier::wait` as atomic steps under its mutex. A participant that arrives copies the flag
and decrements the count; the last one flips the flag, resets the count and returns at once,
the others wait and return when they wake up and find the flag flipped. Waking up without a
reason is a step that changes nothing.

How often each participant has called `wait` and returned from it is recorded beside the
barrier.

* `RoundInv` — the participants are in two neighbouring rounds. Those in the current round
  wait with the flag as it is, those left over from the round before with the flag as it was;
* `rounds_separate` — nobody returns before all have called, a flip ends the round of the one
  who causes it, the count stays in range, and nobody is left waiting for a flip that was.
-/

namespace SwitchML.Client

/-- The barrier and its `N` participants. -/
structure BarrierState (N : ℕ) where
  count : ℤ
  flag : Bool
  -- the copy of the flag, of a participant that is in `wait`
  waiting : Fin N → Option Bool
  calls : Fin N → ℕ
  returns : Fin N → ℕ

namespace BarrierState

variable {N : ℕ}

def init (N : ℕ) : BarrierState N where
  count := N
  flag := false
  waiting := fun _ => none
  calls := fun _ => 0
  returns := fun _ => 0

inductive Action (N : ℕ) where
  | arrive (p : Fin N)
  | wake (p : Fin N)

/-- None for a participant that is in `wait` already, and for one that is not. -/
def step (s : BarrierState N) : Action N → Option (BarrierState N)
  | .arrive p =>
    if s.waiting p = none then
      let flagCopy := s.flag
      let s : BarrierState N := { s with
        count := s.count - 1
        calls := Function.update s.calls p (s.calls p + 1) }
      if s.count > 0 then
        some { s with waiting := Function.update s.waiting p (some flagCopy) }
      else
        some { s with
          flag := !s.flag
          count := N
          returns := Function.update s.returns p (s.returns p + 1) }
    else none
  | .wake p =>
    match s.waiting p with
    | none => none
    | some flagCopy =>
      if flagCopy = s.flag then some s
      else
        some { s with
          waiting := Function.update s.waiting p none
          returns := Function.update s.returns p (s.returns p + 1) }

inductive Reachable : BarrierState N → Prop
  | init : Reachable (init N)
  | step {s s' : BarrierState N} (a : Action N) : Reachable s → s.step a = some s' → Reachable s'

-- ---------------------------------------------------------------------------
-- Steps
-- ---------------------------------------------------------------------------

/-- A participant arrives and waits. -/
def join (s : BarrierState N) (p : Fin N) : BarrierState N :=
  { s with
    count := s.count - 1
    calls := Function.update s.calls p (s.calls p + 1)
    waiting := Function.update s.waiting p (some s.flag) }

/-- The last participant arrives. -/
def release (s : BarrierState N) (p : Fin N) : BarrierState N :=
  { s with
    flag := !s.flag
    count := N
    calls := Function.update s.calls p (s.calls p + 1)
    returns := Function.update s.returns p (s.returns p + 1) }

/-- A participant finds the flag flipped. -/
def leave (s : BarrierState N) (p : Fin N) : BarrierState N :=
  { s with
    waiting := Function.update s.waiting p none
    returns := Function.update s.returns p (s.returns p + 1) }

variable {s s' : BarrierState N} {round : ℕ}

theorem step_cases {a : Action N} (h : s.step a = some s') :
    (∃ p, a = .arrive p ∧ s.waiting p = none ∧
      (1 < s.count ∧ s' = s.join p ∨ s.count ≤ 1 ∧ s' = s.release p)) ∨
    ∃ p flagCopy, a = .wake p ∧ s.waiting p = some flagCopy ∧
      (flagCopy = s.flag ∧ s' = s ∨ flagCopy ≠ s.flag ∧ s' = s.leave p) := by
  cases a with
  | arrive p =>
    refine .inl ⟨p, rfl, ?_⟩
    unfold step at h
    dsimp only at h
    split at h
    swap
    · cases h
    next hOut =>
    refine ⟨hOut, ?_⟩
    split at h
    · next hMore => exact .inl ⟨by omega, (Option.some.inj h).symm⟩
    · next hLast => exact .inr ⟨by omega, (Option.some.inj h).symm⟩
  | wake p =>
    refine .inr ⟨p, ?_⟩
    unfold step at h
    dsimp only at h
    split at h
    · cases h
    next flagCopy hIn =>
    refine ⟨flagCopy, rfl, hIn, ?_⟩
    split at h
    · next hSame => exact .inl ⟨hSame, (Option.some.inj h).symm⟩
    · next hFlipped => exact .inr ⟨hFlipped, (Option.some.inj h).symm⟩

-- ---------------------------------------------------------------------------
-- The invariant
-- ---------------------------------------------------------------------------

/-- Where a participant is when `round` rounds are over: outside, in the round that is going
on, or still in the one before. -/
inductive Placed (s : BarrierState N) (round : ℕ) (p : Fin N) : Prop
  | outside (h : s.waiting p = none) (hCalls : s.calls p = round) (hReturns : s.returns p = round)
  | inside (h : s.waiting p = some s.flag) (hCalls : s.calls p = round + 1)
      (hReturns : s.returns p = round)
  | behind (h : s.waiting p = some !s.flag) (hCalls : s.calls p = round)
      (hReturns : s.returns p + 1 = round)

/-- `round` rounds are over, and `count` participants are still to come to the next. -/
structure RoundInv (s : BarrierState N) (round : ℕ) : Prop where
  placed : ∀ p, s.Placed round p
  count : s.count = (Finset.univ.filter fun p => s.calls p = round).card
  pos : 0 < s.count

theorem roundInv_init (hN : 0 < N) : (init N).RoundInv 0 where
  placed _ := .outside rfl rfl rfl
  count := by simp [init]
  pos := by simpa [init] using hN

/-- Steps of others do not matter to a participant while the flag stays. -/
theorem Placed.frame {p : Fin N} (h : s.Placed round p) (hFlag : s'.flag = s.flag)
    (hWaiting : s'.waiting p = s.waiting p) (hCalls : s'.calls p = s.calls p)
    (hReturns : s'.returns p = s.returns p) : s'.Placed round p := by
  cases h with
  | outside h hc hr => exact .outside (hWaiting.trans h) (hCalls.trans hc) (hReturns.trans hr)
  | inside h hc hr =>
    exact .inside (by rw [hWaiting, h, hFlag]) (hCalls.trans hc) (hReturns.trans hr)
  | behind h hc hr =>
    exact .behind (by rw [hWaiting, h, hFlag]) (hCalls.trans hc) (by rw [hReturns, hr])

theorem RoundInv.calls_of_out (h : s.RoundInv round) {p : Fin N} (hOut : s.waiting p = none) :
    s.calls p = round ∧ s.returns p = round := by
  cases h.placed p with
  | outside _ hc hr => exact ⟨hc, hr⟩
  | inside h' => rw [hOut] at h'; cases h'
  | behind h' => rw [hOut] at h'; cases h'

theorem RoundInv.join (h : s.RoundInv round) {p : Fin N} (hOut : s.waiting p = none)
    (hMore : 1 < s.count) : (s.join p).RoundInv round := by
  obtain ⟨hCalls, hReturns⟩ := h.calls_of_out hOut
  refine ⟨fun q => ?_, ?_, ?_⟩
  · by_cases hq : q = p
    · subst hq
      exact .inside (by simp [BarrierState.join]) (by simp [BarrierState.join, hCalls]) hReturns
    · exact (h.placed q).frame rfl (by simp [BarrierState.join, hq])
        (by simp [BarrierState.join, hq]) rfl
  · have hErase : (Finset.univ.filter fun q => (s.join p).calls q = round) =
        (Finset.univ.filter fun q => s.calls q = round).erase p := by
      ext q
      rw [Finset.mem_erase, Finset.mem_filter, Finset.mem_filter]
      by_cases hq : q = p
      · subst hq
        simp [BarrierState.join, hCalls]
      · have hSame : (s.join p).calls q = s.calls q := Function.update_of_ne hq _ _
        simp [hSame, hq]
    have hMem : p ∈ Finset.univ.filter fun q => s.calls q = round := by simp [hCalls]
    have hCard := Finset.card_erase_add_one hMem
    have hCount := h.count
    rw [hErase]
    show s.count - 1 = _
    omega
  · show 0 < s.count - 1
    omega

/-- When the last one arrives, all others wait in the round that ends. -/
theorem RoundInv.inside_of_last (h : s.RoundInv round) {p : Fin N} (hOut : s.waiting p = none)
    (hLast : s.count ≤ 1) {q : Fin N} (hq : q ≠ p) :
    s.waiting q = some s.flag ∧ s.calls q = round + 1 ∧ s.returns q = round := by
  have hOnly : s.calls q ≠ round := by
    intro hCalls
    have hCard : (Finset.univ.filter fun q => s.calls q = round).card ≤ 1 := by
      have := h.count
      omega
    exact hq (Finset.card_le_one.mp hCard q (by simp [hCalls]) p (by simp [h.calls_of_out hOut]))
  cases h.placed q with
  | outside _ hc => exact absurd hc hOnly
  | inside hIn hc hr => exact ⟨hIn, hc, hr⟩
  | behind _ hc => exact absurd hc hOnly

theorem RoundInv.calls_release (h : s.RoundInv round) {p : Fin N} (hOut : s.waiting p = none)
    (hLast : s.count ≤ 1) (q : Fin N) : (s.release p).calls q = round + 1 := by
  by_cases hq : q = p
  · subst hq
    simp [BarrierState.release, h.calls_of_out hOut]
  · simpa [BarrierState.release, hq] using (h.inside_of_last hOut hLast hq).2.1

theorem RoundInv.release (h : s.RoundInv round) {p : Fin N} (hOut : s.waiting p = none)
    (hLast : s.count ≤ 1) : (s.release p).RoundInv (round + 1) := by
  have hReturns := (h.calls_of_out hOut).2
  have hAll := h.calls_release hOut hLast
  refine ⟨fun q => ?_, ?_, ?_⟩
  · by_cases hq : q = p
    · subst hq
      exact .outside hOut (hAll q) (by simp [BarrierState.release, hReturns])
    · obtain ⟨hIn, -, hr⟩ := h.inside_of_last hOut hLast hq
      exact .behind (by simp [BarrierState.release, hIn]) (hAll q)
        (by simp [BarrierState.release, hq, hr])
  · have hCount : (s.release p).count = N := rfl
    simp [hAll, hCount]
  · show (0 : ℤ) < N
    have := p.pos
    omega

theorem RoundInv.leave (h : s.RoundInv round) {p : Fin N} {flagCopy : Bool}
    (hIn : s.waiting p = some flagCopy) (hFlipped : flagCopy ≠ s.flag) :
    (s.leave p).RoundInv round := by
  refine ⟨fun q => ?_, h.count, h.pos⟩
  by_cases hq : q = p
  · subst hq
    cases h.placed q with
    | outside hOut => rw [hIn] at hOut; cases hOut
    | inside hSame => exact absurd (Option.some.inj (hIn.symm.trans hSame)) hFlipped
    | behind _ hc hr =>
      exact .outside (by simp [BarrierState.leave]) hc (by simp [BarrierState.leave, hr])
  · exact (h.placed q).frame rfl (by simp [BarrierState.leave, hq]) rfl
      (by simp [BarrierState.leave, hq])

/-- **Step lemma.** A step keeps the round or, by the last arrival, ends it. -/
theorem RoundInv.step (h : s.RoundInv round) {a : Action N} (hStep : s.step a = some s') :
    s'.RoundInv round ∨ s'.RoundInv (round + 1) := by
  rcases step_cases hStep with ⟨p, -, hOut, hArrive⟩ | ⟨p, flagCopy, -, hIn, hWake⟩
  · rcases hArrive with ⟨hMore, rfl⟩ | ⟨hLast, rfl⟩
    · exact .inl (h.join hOut hMore)
    · exact .inr (h.release hOut hLast)
  · rcases hWake with ⟨-, rfl⟩ | ⟨hFlipped, rfl⟩
    · exact .inl h
    · exact .inl (h.leave hIn hFlipped)

/-- **Run lemma.** -/
theorem Reachable.roundInv (hN : 0 < N) (h : s.Reachable) : ∃ round, s.RoundInv round := by
  induction h with
  | init => exact ⟨0, roundInv_init hN⟩
  | step a _ hStep ih =>
    obtain ⟨round, hInv⟩ := ih
    rcases hInv.step hStep with hInv | hInv
    · exact ⟨round, hInv⟩
    · exact ⟨round + 1, hInv⟩

/-- Somebody is still to come to the round that is going on. -/
theorem RoundInv.exists_calls_eq (h : s.RoundInv round) : ∃ p, s.calls p = round := by
  have hPos : 0 < (Finset.univ.filter fun p => s.calls p = round).card := by
    have := h.count
    have := h.pos
    omega
  obtain ⟨p, hp⟩ := Finset.card_pos.mp hPos
  exact ⟨p, (Finset.mem_filter.mp hp).2⟩

theorem RoundInv.bounds (h : s.RoundInv round) (p : Fin N) :
    s.returns p ≤ round ∧ round ≤ s.calls p := by
  cases h.placed p with
  | outside _ hc hr => omega
  | inside _ hc hr => omega
  | behind _ hc hr => omega

/-- **The barrier separates rounds.** In every state that any interleaving of any number of
rounds reaches:

* nobody has returned more often than anybody has called;
* an arrival that flips the flag ends its own round, to which all have come;
* a participant that would find the flag flipped waits in a round to which all have come;
* the count is from 1 to `N`;
* if all have come to the round in which a participant waits, the flag is not its copy. -/
theorem rounds_separate (hN : 0 < N) (h : s.Reachable) :
    (∀ p q, s.returns p ≤ s.calls q) ∧
    (∀ p s', s.step (.arrive p) = some s' → s'.flag ≠ s.flag → ∀ q, s'.calls q = s'.calls p) ∧
    (∀ p flagCopy, s.waiting p = some flagCopy → flagCopy ≠ s.flag → ∀ q, s.calls p ≤ s.calls q) ∧
    (1 ≤ s.count ∧ s.count ≤ N) ∧
    (∀ r, (∀ q, r ≤ s.calls q) → ∀ p flagCopy, s.waiting p = some flagCopy → s.calls p = r →
      flagCopy ≠ s.flag) := by
  obtain ⟨round, hInv⟩ := h.roundInv hN
  refine ⟨fun p q => ?_, fun p s' hStep hFlip q => ?_, fun p flagCopy hIn hFlipped q => ?_, ?_,
    fun r hAll p flagCopy hIn hCalls => ?_⟩
  · exact (hInv.bounds p).1.trans (hInv.bounds q).2
  · rcases step_cases hStep with ⟨p', hArrive, hOut, ⟨-, rfl⟩ | ⟨hLast, rfl⟩⟩ | ⟨_, _, hWake, -⟩
    · exact absurd rfl hFlip
    · cases hArrive
      rw [hInv.calls_release hOut hLast q, hInv.calls_release hOut hLast p]
    · cases hWake
  · -- in the round that is going on, the copy is the flag
    have hBounds := hInv.bounds q
    cases hInv.placed p with
    | outside hOut => rw [hIn] at hOut; cases hOut
    | inside hSame => exact absurd (Option.some.inj (hIn.symm.trans hSame)) hFlipped
    | behind _ hc => omega
  · have hCard := Finset.card_le_univ (Finset.univ.filter fun p => s.calls p = round)
    rw [Fintype.card_fin] at hCard
    have hCount := hInv.count
    have hPos := hInv.pos
    omega
  · -- not all have come to the round that is going on
    obtain ⟨q, hq⟩ := hInv.exists_calls_eq
    have hLe := hAll q
    cases hInv.placed p with
    | outside hOut => rw [hIn] at hOut; cases hOut
    | inside _ hc => omega
    | behind hFlip =>
      rw [Option.some.inj (hIn.symm.trans hFlip)]
      exact Bool.not_ne_self _

/-- Two participants meet once. -/
theorem rounds_separate_two :
    ∃ s : BarrierState 2, s.Reachable ∧ s.calls 1 = 1 ∧ s.returns 1 = 1 ∧
      ∀ p q, s.returns p ≤ s.calls q := by
  have hFirst : (BarrierState.init 2).Reachable := .init
  have hJoin := Reachable.step (.arrive 0) hFirst rfl
  have hRelease := Reachable.step (.arrive 1) hJoin rfl
  exact ⟨_, hRelease, rfl, rfl, (rounds_separate (by decide) hRelease).1⟩

end BarrierState

end SwitchML.Client
