import Mathlib.Data.Fintype.Basic
import SwitchML.Lib.History

/-!
# Processes with barriers

A number of processes, each with a program of its own that barriers cut into segments. Any
process may take the next step at any time; it waits at a barrier until all others have
arrived there. An action of a program acts on a state that all share, and may end the
process, which then arrives nowhere.

* `State.Arrived` — the process has come to the end of its segment, or is further on;
* `Inv` — what holds after every schedule. The trace lists the actions in the order they
  were taken;
* `Inv.trace_eq` — the trace is that of segment 0, then that of segment 1, and so on,
  whatever the schedule. If someone is behind barrier `k`, the actions of each process in
  segment `k` are all those of its program (`Inv.acts_slice`), and none has failed
  (`Inv.slice_ok`);
* `Inv.owned` — a part of the state that one process writes, as all others see it;
* `Inv.passed_sweeps` — if nobody fails, a schedule that gives everybody turns again and
  again takes all of them past every barrier.
-/

namespace Barriers

variable {ι A σ : Type*}

/-- What the processes do: the actions of each between two barriers, and the effect of an
action, with false if the process ends there. -/
structure Program (ι A σ : Type*) where
  segment : ι → ℕ → List A
  exec : ι → A → σ → σ × Bool

/-- An action that was taken. -/
structure Event (ι A : Type*) where
  process : ι
  segment : ℕ
  act : A
  ok : Bool

structure State (ι A σ : Type*) where
  shared : σ
  -- the number of barriers behind the process
  passed : ι → ℕ
  -- what is left of the segment
  todo : ι → List A
  halted : ι → Bool
  trace : List (Event ι A)

/-- The process has come to barrier `k`. -/
def State.Arrived (s : State ι A σ) (k : ℕ) (i : ι) : Prop :=
  k < s.passed i ∨ k = s.passed i ∧ (s.todo i).isEmpty = true ∧ s.halted i = false

instance (s : State ι A σ) (k : ℕ) (i : ι) : Decidable (s.Arrived k i) :=
  inferInstanceAs (Decidable (_ ∨ _))

/-- The actions in segment `k`. -/
def State.slice (s : State ι A σ) (k : ℕ) : List (Event ι A) :=
  s.trace.filter fun e => decide (e.segment = k)

namespace Program

variable (P : Program ι A σ)

def init (x : σ) : State ι A σ where
  shared := x
  passed := fun _ => 0
  todo := fun i => P.segment i 0
  halted := fun _ => false
  trace := []

/-- The effect of what was done on the shared state. -/
def effect (x : σ) (e : Event ι A) : σ := (P.exec e.process e.act x).1

/-- The event says how the action ended. -/
def Truthful (x : σ) (e : Event ι A) : Prop := e.ok = (P.exec e.process e.act x).2

variable [DecidableEq ι] [Fintype ι]

/-- Process `i` takes the action at hand, or passes the barrier if all have arrived. -/
def step (s : State ι A σ) (i : ι) : State ι A σ :=
  if s.halted i then s
  else match s.todo i with
    | a :: rest =>
      let result := P.exec i a s.shared
      { s with
        shared := result.1
        todo := Function.update s.todo i rest
        halted := Function.update s.halted i !result.2
        trace := s.trace ++ [⟨i, s.passed i, a, result.2⟩] }
    | [] =>
      if ∀ j, s.Arrived (s.passed i) j then
        { s with
          passed := Function.update s.passed i (s.passed i + 1)
          todo := Function.update s.todo i (P.segment i (s.passed i + 1)) }
      else s

def run (s : State ι A σ) (schedule : List ι) : State ι A σ := schedule.foldl P.step s

end Program

-- ---------------------------------------------------------------------------
-- Steps
-- ---------------------------------------------------------------------------

variable {P : Program ι A σ} {s : State ι A σ} {x : σ}

/-- The process takes an action. -/
def State.act (P : Program ι A σ) [DecidableEq ι] (s : State ι A σ) (i : ι) (a : A)
    (rest : List A) : State ι A σ :=
  { s with
    shared := (P.exec i a s.shared).1
    todo := Function.update s.todo i rest
    halted := Function.update s.halted i !(P.exec i a s.shared).2
    trace := s.trace ++ [⟨i, s.passed i, a, (P.exec i a s.shared).2⟩] }

/-- The process passes a barrier. -/
def State.pass (P : Program ι A σ) [DecidableEq ι] (s : State ι A σ) (i : ι) : State ι A σ :=
  { s with
    passed := Function.update s.passed i (s.passed i + 1)
    todo := Function.update s.todo i (P.segment i (s.passed i + 1)) }

theorem step_cases [DecidableEq ι] [Fintype ι] (P : Program ι A σ) (s : State ι A σ) (i : ι) :
    P.step s i = s ∨
    (∃ a rest, s.halted i = false ∧ s.todo i = a :: rest ∧ P.step s i = s.act P i a rest) ∨
    (s.halted i = false ∧ s.todo i = [] ∧ (∀ j, s.Arrived (s.passed i) j) ∧
      P.step s i = s.pass P i) := by
  unfold Program.step
  cases hHalted : s.halted i with
  | true => exact .inl rfl
  | false =>
    rw [if_neg Bool.false_ne_true]
    cases hTodo : s.todo i with
    | cons a rest => exact .inr (.inl ⟨a, rest, rfl, rfl, rfl⟩)
    | nil =>
      by_cases hAll : ∀ j, s.Arrived (s.passed i) j
      · exact .inr (.inr ⟨rfl, rfl, hAll, if_pos hAll⟩)
      · exact .inl (if_neg hAll)

/-- What can happen in one step, of whatever process. -/
inductive Moves [DecidableEq ι] (P : Program ι A σ) (s : State ι A σ) : State ι A σ → Prop
  | stay : Moves P s s
  | act (i : ι) (a : A) (rest : List A) (hHalted : s.halted i = false)
      (hTodo : s.todo i = a :: rest) : Moves P s (s.act P i a rest)
  | pass (i : ι) (hHalted : s.halted i = false) (hTodo : s.todo i = [])
      (hAll : ∀ j, s.Arrived (s.passed i) j) : Moves P s (s.pass P i)

-- ---------------------------------------------------------------------------
-- Lists in order
-- ---------------------------------------------------------------------------

/-- A list in which what satisfies `p` comes first. -/
theorem eq_filter_append {α : Type*} {p : α → Bool} {l : List α}
    (h : l.Pairwise fun a b => p b = true → p a = true) :
    l = l.filter p ++ l.filter fun a => !p a := by
  induction l with
  | nil => rfl
  | cons a l ih =>
    obtain ⟨hHead, hTail⟩ := List.pairwise_cons.mp h
    cases ha : p a with
    | true =>
      rw [List.filter_cons_of_pos ha, List.filter_cons_of_neg (by simp [ha]), List.cons_append,
        ← ih hTail]
    | false =>
      have hNone : l.filter p = [] := by
        refine List.filter_eq_nil_iff.mpr fun b hb hp => ?_
        exact absurd (hHead b hb hp) (by simp [ha])
      have hAll : (l.filter fun a => !p a) = l := by
        refine List.filter_eq_self.mpr fun b hb => ?_
        simpa using List.filter_eq_nil_iff.mp hNone b hb
      rw [List.filter_cons_of_neg (by simp [ha]), List.filter_cons_of_pos (by simp [ha]), hNone,
        hAll, List.nil_append]

/-- A list in the order of a key is what has key 0, then what has key 1, and so on. -/
theorem eq_flatMap_filter {α : Type*} {key : α → ℕ} {l : List α}
    (h : l.Pairwise fun a b => key a ≤ key b) (n : ℕ) :
    l = (List.range n).flatMap (fun k => l.filter fun a => decide (key a = k)) ++
      l.filter fun a => decide (n ≤ key a) := by
  induction n with
  | zero => simp
  | succ n ih =>
    have hRest : (l.filter fun a => decide (n ≤ key a)) =
        (l.filter fun a => decide (key a = n)) ++ l.filter fun a => decide (n + 1 ≤ key a) := by
      have hSorted : (l.filter fun a => decide (n ≤ key a)).Pairwise
          fun a b => decide (key b = n) = true → decide (key a = n) = true := by
        refine (h.filter _).imp_of_mem fun {a b} ha _ hLe hb => ?_
        have hGe := of_decide_eq_true (List.mem_filter.mp ha).2
        have hEq := of_decide_eq_true hb
        exact decide_eq_true (by omega)
      rw [eq_filter_append hSorted, List.filter_filter, List.filter_filter]
      congr 1 <;> refine List.filter_congr fun a _ => ?_
      · by_cases hEq : key a = n <;> simp [hEq]
      · rw [Bool.eq_iff_iff]
        simp only [Bool.and_eq_true, Bool.not_eq_true', decide_eq_false_iff_not, decide_eq_true_eq]
        omega
    rw [List.range_succ, List.flatMap_append, List.flatMap_singleton, List.append_assoc, ← hRest]
    exact ih

-- ---------------------------------------------------------------------------
-- What every schedule keeps
-- ---------------------------------------------------------------------------

/-- What a process has not done yet of segment `k`. -/
def State.left (P : Program ι A σ) (s : State ι A σ) (i : ι) (k : ℕ) : List A :=
  if k < s.passed i then [] else if k = s.passed i then s.todo i else P.segment i k

theorem State.left_of_lt {i : ι} {k : ℕ} (h : k < s.passed i) : s.left P i k = [] := if_pos h

theorem State.left_of_eq {i : ι} {k : ℕ} (h : k = s.passed i) : s.left P i k = s.todo i := by
  rw [left, if_neg (by omega), if_pos h]

theorem State.left_of_gt {i : ι} {k : ℕ} (h : s.passed i < k) : s.left P i k = P.segment i k := by
  rw [left, if_neg (by omega), if_neg (by omega)]

section Schedules

variable [DecidableEq ι]

/-- The actions of a process in segment `k`. -/
def State.acts (s : State ι A σ) (i : ι) (k : ℕ) : List A :=
  ((s.slice k).filter fun e => decide (e.process = i)).map Event.act

/-- After any schedule from `x`: each process has done part of its program, nobody is behind
a barrier that somebody has not come to, and the shared state is what the actions made of
it. An action that failed is the last one of its process. -/
structure Inv (P : Program ι A σ) (x : σ) (s : State ι A σ) : Prop where
  acts : ∀ i k, s.acts i k ++ s.left P i k = P.segment i k
  arrived : ∀ i k, k < s.passed i → ∀ j, s.Arrived k j
  sorted : s.trace.Pairwise fun e e' => e.segment ≤ e'.segment
  segment_le : ∀ e ∈ s.trace, e.segment ≤ s.passed e.process
  shared : s.shared = s.trace.foldl P.effect x
  truthful : History.Throughout P.effect P.Truthful x s.trace
  halted : ∀ e ∈ s.trace, e.ok = false →
    s.halted e.process = true ∧ s.passed e.process = e.segment

theorem inv_init (P : Program ι A σ) (x : σ) : Inv P x (P.init x) where
  acts i k := by
    rcases Nat.eq_zero_or_pos k with rfl | hk
    · rfl
    · simp [State.acts, State.slice, State.left, Program.init, Nat.ne_of_gt hk]
  arrived i k hk := absurd hk (Nat.not_lt_zero k)
  sorted := .nil
  segment_le e he := absurd he (List.not_mem_nil)
  shared := rfl
  truthful := trivial
  halted e he := absurd he (List.not_mem_nil)

theorem Inv.act (h : Inv P x s) {i : ι} {a : A} {rest : List A} (hHalted : s.halted i = false)
    (hTodo : s.todo i = a :: rest) : Inv P x (s.act P i a rest) := by
  -- nobody is behind the next barrier of a process with something left to do
  have hBehind : ∀ j, s.passed j ≤ s.passed i := by
    intro j
    by_contra hLt
    rcases h.arrived j (s.passed i) (Nat.lt_of_not_le hLt) i with hSelf | ⟨-, hNil, -⟩
    · exact absurd hSelf (Nat.lt_irrefl _)
    · simp [hTodo] at hNil
  refine ⟨fun j k => ?_, fun j k hk j' => ?_, ?_, fun e he => ?_, ?_, ?_, fun e he hFail => ?_⟩
  · have hActs : (s.act P i a rest).acts j k =
        s.acts j k ++ if j = i ∧ k = s.passed i then [a] else [] := by
      unfold State.acts State.slice State.act
      simp only [List.filter_append, List.map_append, List.filter_singleton, eq_comm (b := k),
        eq_comm (b := j)]
      by_cases hk : k = s.passed i
      · by_cases hj : j = i
        · simp [hk, hj]
        · simp [hk, hj]
      · simp [hk]
    rw [hActs, ← h.acts j k, List.append_assoc]
    congr 1
    have hPassed : (s.act P i a rest).passed j = s.passed j := rfl
    rcases Nat.lt_trichotomy k (s.passed j) with hk | hk | hk
    · rw [State.left_of_lt hk, State.left_of_lt (hPassed ▸ hk)]
      split
      · next hHere => exact absurd hHere.2 (by rw [← hHere.1]; omega)
      · rfl
    · rw [State.left_of_eq hk, State.left_of_eq (hPassed ▸ hk)]
      by_cases hj : j = i
      · subst hj
        simp [State.act, hk, hTodo]
      · simp [State.act, hj]
    · rw [State.left_of_gt hk, State.left_of_gt (hPassed ▸ hk)]
      split
      · next hHere => exact absurd hHere.2 (by rw [← hHere.1]; omega)
      · rfl
  · -- who has arrived somewhere else stays there
    rcases h.arrived j k hk j' with hLt | ⟨hEq, hNil, hAlive⟩
    · exact .inl hLt
    · have hOther : j' ≠ i := by
        rintro rfl
        simp [hTodo] at hNil
      refine .inr ⟨hEq, ?_, ?_⟩
      · simpa [State.act, Function.update_of_ne hOther] using hNil
      · simpa [State.act, Function.update_of_ne hOther] using hAlive
  · refine List.pairwise_append.mpr ⟨h.sorted, List.pairwise_singleton _ _, ?_⟩
    intro e he e' he'
    rw [List.mem_singleton.mp he']
    exact (h.segment_le e he).trans (hBehind e.process)
  · rcases List.mem_append.mp he with he | he
    · exact h.segment_le e he
    · rw [List.mem_singleton.mp he]
      exact Nat.le_refl _
  · rw [State.act, List.foldl_append, ← h.shared]
    rfl
  · refine (History.throughout_append ..).mpr ⟨h.truthful, ?_, trivial⟩
    rw [← h.shared]
    rfl
  · rcases List.mem_append.mp he with he | he
    · obtain ⟨hStopped, hAt⟩ := h.halted e he hFail
      have hOther : e.process ≠ i := by
        intro hEq
        rw [hEq, hHalted] at hStopped
        cases hStopped
      exact ⟨by simpa [State.act, Function.update_of_ne hOther] using hStopped, hAt⟩
    · rw [List.mem_singleton.mp he] at hFail ⊢
      refine ⟨?_, rfl⟩
      dsimp only at hFail
      simp [State.act, hFail]

theorem Inv.pass (h : Inv P x s) {i : ι} (hHalted : s.halted i = false) (hTodo : s.todo i = [])
    (hAll : ∀ j, s.Arrived (s.passed i) j) : Inv P x (s.pass P i) := by
  have hArrived : ∀ j k, s.Arrived k j → (s.pass P i).Arrived k j := by
    intro j k hArr
    by_cases hj : j = i
    · subst hj
      have hLe : k ≤ s.passed j := hArr.elim Nat.le_of_lt fun hEq => Nat.le_of_eq hEq.1
      exact .inl (by simpa [State.pass] using Nat.lt_succ_of_le hLe)
    · simpa [State.Arrived, State.pass, hj] using hArr
  refine ⟨fun j k => ?_, fun j k hk j' => hArrived j' k ?_, h.sorted, fun e he => ?_, h.shared,
    h.truthful, fun e he hFail => ?_⟩
  · rw [← h.acts j k]
    have hActs : (s.pass P i).acts j k = s.acts j k := rfl
    rw [hActs]
    congr 1
    by_cases hj : j = i
    · subst hj
      have hPassed : (s.pass P j).passed j = s.passed j + 1 := Function.update_self ..
      rcases Nat.lt_trichotomy k (s.passed j + 1) with hk | hk | hk
      · rw [State.left_of_lt (hPassed ▸ hk)]
        rcases Nat.lt_succ_iff_lt_or_eq.mp hk with hk | hk
        · rw [State.left_of_lt hk]
        · rw [State.left_of_eq hk, hTodo]
      · rw [State.left_of_eq (hPassed ▸ hk), State.left_of_gt (by omega), hk]
        exact Function.update_self ..
      · rw [State.left_of_gt (hPassed ▸ hk), State.left_of_gt (by omega)]
    · simp [State.left, State.pass, hj]
  · by_cases hj : j = i
    · subst hj
      rcases Nat.lt_succ_iff_lt_or_eq.mp (by simpa [State.pass] using hk) with hk | rfl
      · exact h.arrived j k hk j'
      · exact hAll j'
    · refine h.arrived j k ?_ j'
      simpa [State.pass, Function.update_of_ne hj] using hk
  · have hLe := h.segment_le e he
    unfold State.pass
    dsimp only
    by_cases hj : e.process = i
    · rw [hj, Function.update_self]
      rw [hj] at hLe
      omega
    · rw [Function.update_of_ne hj]
      exact hLe
  · obtain ⟨hStopped, hAt⟩ := h.halted e he hFail
    have hOther : e.process ≠ i := by
      intro hEq
      rw [hEq, hHalted] at hStopped
      cases hStopped
    exact ⟨hStopped, by simpa [State.pass, Function.update_of_ne hOther] using hAt⟩

theorem Inv.moves {s' : State ι A σ} (h : Inv P x s) (hMoves : Moves P s s') : Inv P x s' := by
  cases hMoves with
  | stay => exact h
  | act i a rest hHalted hTodo => exact h.act hHalted hTodo
  | pass i hHalted hTodo hAll => exact h.pass hHalted hTodo hAll

theorem Inv.step [Fintype ι] (h : Inv P x s) (i : ι) : Inv P x (P.step s i) := by
  rcases step_cases P s i with hStay | ⟨a, rest, hHalted, hTodo, hStep⟩ |
    ⟨hHalted, hTodo, hAll, hStep⟩
  · rwa [hStay]
  · exact hStep ▸ h.moves (.act i a rest hHalted hTodo)
  · exact hStep ▸ h.moves (.pass i hHalted hTodo hAll)

/-- **Every schedule.** -/
theorem Inv.run [Fintype ι] (h : Inv P x s) (schedule : List ι) : Inv P x (P.run s schedule) := by
  induction schedule generalizing s with
  | nil => exact h
  | cons i schedule ih => exact ih (h.step i)

-- ---------------------------------------------------------------------------
-- The trace in segments
-- ---------------------------------------------------------------------------

theorem Inv.trace_eq (h : Inv P x s) (n : ℕ) :
    s.trace = (List.range n).flatMap s.slice ++ s.trace.filter fun e => decide (n ≤ e.segment) :=
  eq_flatMap_filter h.sorted n

theorem Inv.act_mem (h : Inv P x s) {e : Event ι A} (he : e ∈ s.trace) :
    e.act ∈ P.segment e.process e.segment := by
  rw [← h.acts e.process e.segment]
  refine List.mem_append_left _ (List.mem_map_of_mem (List.mem_filter.mpr ⟨?_, by simp⟩))
  exact List.mem_filter.mpr ⟨he, by simp⟩

theorem Inv.todo_mem (h : Inv P x s) {i : ι} {a : A} (ha : a ∈ s.todo i) :
    a ∈ P.segment i (s.passed i) := by
  rw [← h.acts i (s.passed i), State.left_of_eq rfl]
  exact List.mem_append_right _ ha

/-- Behind barrier `k`, each process has done all of segment `k`. -/
theorem Inv.acts_slice (h : Inv P x s) {i : ι} {k : ℕ} (hi : k < s.passed i) (j : ι) :
    ((s.slice k).filter fun e => decide (e.process = j)).map Event.act = P.segment j k := by
  have hNone : s.left P j k = [] := by
    rcases h.arrived i k hi j with hLt | ⟨hEq, hNil, -⟩
    · exact State.left_of_lt hLt
    · exact (State.left_of_eq hEq).trans (List.isEmpty_iff.mp hNil)
  rw [← h.acts j k, hNone, List.append_nil]
  rfl

/-- Behind barrier `k`, no action of segment `k` has failed. -/
theorem Inv.slice_ok (h : Inv P x s) {i : ι} {k : ℕ} (hi : k < s.passed i) :
    ∀ e ∈ s.slice k, e.ok = true := by
  intro e he
  obtain ⟨hMem, hAt⟩ := List.mem_filter.mp he
  have hSegment := of_decide_eq_true hAt
  by_contra hFail
  obtain ⟨hStopped, hPassed⟩ := h.halted e hMem (Bool.eq_false_iff.mpr hFail)
  rcases h.arrived i k hi e.process with hLt | ⟨-, -, hAlive⟩
  · omega
  · rw [hAlive] at hStopped
    cases hStopped

/-- What a process has done, in the order of its program. -/
theorem Inv.done_eq (h : Inv P x s) (i : ι) :
    (s.trace.filter fun e => decide (e.process = i)).map Event.act =
      (List.range (s.passed i)).flatMap (P.segment i) ++ s.acts i (s.passed i) := by
  have hLater : ((s.trace.filter fun e => decide (s.passed i + 1 ≤ e.segment)).filter
      fun e => decide (e.process = i)) = [] := by
    refine List.filter_eq_nil_iff.mpr fun e he hProcess => ?_
    obtain ⟨hMem, hAt⟩ := List.mem_filter.mp he
    have hLe := h.segment_le e hMem
    rw [of_decide_eq_true hProcess] at hLe
    exact absurd (of_decide_eq_true hAt) (by omega)
  have hSegments : (List.range (s.passed i)).flatMap (s.acts i) =
      (List.range (s.passed i)).flatMap (P.segment i) := by
    rw [List.flatMap_def, List.flatMap_def]
    refine congrArg List.flatten (List.map_congr_left fun k hk => ?_)
    rw [← h.acts i k, State.left_of_lt (List.mem_range.mp hk), List.append_nil]
  conv_lhs => rw [h.trace_eq (s.passed i + 1)]
  rw [List.filter_append, hLater, List.append_nil, List.filter_flatMap, List.map_flatMap,
    List.range_succ, List.flatMap_append, List.flatMap_singleton, ← hSegments]
  rfl

/-- **A single writer.** What only process `i` changes is what its program so far has made of
it, whatever the others do. -/
theorem Inv.owned {β : Type*} (view : σ → β) {f : β → A → β} {i : ι}
    (hOwn : ∀ a y, view (P.exec i a y).1 = f (view y) a)
    (hOther : ∀ j, j ≠ i → ∀ a y, view (P.exec j a y).1 = view y) (h : Inv P x s) :
    view s.shared =
      ((List.range (s.passed i)).flatMap (P.segment i) ++ s.acts i (s.passed i)).foldl f
        (view x) := by
  rw [h.shared, ← h.done_eq i]
  clear h
  generalize s.trace = trace
  induction trace generalizing x with
  | nil => rfl
  | cons e trace ih =>
    rw [List.foldl_cons, ih, Program.effect, List.filter_cons]
    by_cases hProcess : e.process = i
    · rw [if_pos (decide_eq_true hProcess), List.map_cons, List.foldl_cons, hProcess, hOwn]
    · rw [if_neg (by simpa using hProcess), hOther _ hProcess]

end Schedules

-- ---------------------------------------------------------------------------
-- Fair schedules
-- ---------------------------------------------------------------------------

/-- The process has at most `m` actions to take before barrier `K`. -/
def State.Near (s : State ι A σ) (K m : ℕ) (i : ι) : Prop :=
  K < s.passed i ∨ s.passed i = K ∧ (s.todo i).length ≤ m

section Fair

variable [DecidableEq ι] [Fintype ι] {K m : ℕ} {i : ι}

theorem passed_le_step (P : Program ι A σ) (s : State ι A σ) (j i : ι) :
    s.passed i ≤ (P.step s j).passed i := by
  rcases step_cases P s j with hStay | ⟨a, rest, -, -, hStep⟩ | ⟨-, -, -, hStep⟩
  · rw [hStay]
  · rw [hStep]
    exact Nat.le_refl _
  · rw [hStep]
    by_cases hj : i = j
    · simp [State.pass, hj]
    · simp [State.pass, hj]

theorem passed_le_run (P : Program ι A σ) (s : State ι A σ) (schedule : List ι) (i : ι) :
    s.passed i ≤ (P.run s schedule).passed i := by
  induction schedule generalizing s with
  | nil => exact Nat.le_refl _
  | cons j schedule ih => exact (passed_le_step P s j i).trans (ih _)

theorem State.Near.step (h : s.Near K m i) (j : ι) : (P.step s j).Near K m i := by
  rcases step_cases P s j with hStay | ⟨a, rest, -, hTodo, hStep⟩ | ⟨-, -, -, hStep⟩
  · rwa [hStay]
  · rw [hStep]
    refine h.imp_right fun ⟨hPassed, hLe⟩ => ⟨hPassed, ?_⟩
    by_cases hj : i = j
    · subst hj
      rw [hTodo, List.length_cons] at hLe
      simpa [State.act] using Nat.le_of_succ_le hLe
    · simpa [State.act, hj] using hLe
  · rw [hStep]
    by_cases hj : i = j
    · subst hj
      have hLe : K ≤ s.passed i := h.elim Nat.le_of_lt fun hEq => Nat.le_of_eq hEq.1.symm
      exact .inl (by simpa [State.pass] using Nat.lt_succ_of_le hLe)
    · simpa [State.Near, State.pass, hj] using h

theorem State.Near.run (h : s.Near K m i) (schedule : List ι) : (P.run s schedule).Near K m i := by
  induction schedule generalizing s with
  | nil => exact h
  | cons j schedule ih => exact ih (h.step j)

/-- A turn of its own brings a process nearer. -/
theorem State.Near.turn (h : s.Near K (m + 1) i) (hAlive : s.halted i = false) :
    (P.step s i).Near K m i := by
  rcases h with hLt | ⟨hPassed, hLe⟩
  · exact State.Near.step (.inl hLt) i
  · unfold Program.step
    rw [hAlive, if_neg Bool.false_ne_true]
    cases hTodo : s.todo i with
    | nil =>
      dsimp only
      split
      · exact .inl (by simp [hPassed])
      · exact .inr ⟨hPassed, by simp [hTodo]⟩
    | cons a rest =>
      rw [hTodo, List.length_cons] at hLe
      exact .inr ⟨hPassed, by simpa using Nat.le_of_succ_le_succ hLe⟩

/-- If all have arrived, a turn takes a process past the barrier. -/
theorem passed_of_near (h : ∀ j, s.Near K 0 j) (hAlive : ∀ j, s.halted j = false) (i : ι) :
    K < (P.step s i).passed i := by
  rcases h i with hLt | ⟨hPassed, hNil⟩
  · exact hLt.trans_le (passed_le_step P s i i)
  · have hTodo : s.todo i = [] := List.length_eq_zero_iff.mp (Nat.le_zero.mp hNil)
    have hAll : ∀ j, s.Arrived (s.passed i) j := by
      intro j
      rcases h j with hLt | ⟨hEq, hNilJ⟩
      · exact .inl (hPassed ▸ hLt)
      · refine .inr ⟨hPassed.trans hEq.symm, ?_, hAlive j⟩
        exact List.isEmpty_iff.mpr (List.length_eq_zero_iff.mp (Nat.le_zero.mp hNilJ))
    unfold Program.step
    rw [hAlive i, if_neg Bool.false_ne_true, hTodo]
    dsimp only
    rw [if_pos hAll]
    simp [hPassed]

/-- Each process of the list has had a turn. -/
theorem near_sweep (hAlive : ∀ schedule i, (P.run s schedule).halted i = false)
    (h : ∀ i, s.Near K (m + 1) i) (ws : List ι) : ∀ i ∈ ws, (P.run s ws).Near K m i := by
  induction ws generalizing s with
  | nil => exact fun i hi => absurd hi List.not_mem_nil
  | cons j ws ih =>
    intro i hi
    rcases List.mem_cons.mp hi with rfl | hi
    · exact State.Near.run ((h i).turn (hAlive [] i)) ws
    · exact ih (fun schedule => hAlive (j :: schedule)) (fun k => (h k).step j) i hi

theorem passed_sweep (hAlive : ∀ schedule i, (P.run s schedule).halted i = false)
    (h : ∀ i, s.Near K 0 i) (ws : List ι) : ∀ i ∈ ws, K < (P.run s ws).passed i := by
  induction ws generalizing s with
  | nil => exact fun i hi => absurd hi List.not_mem_nil
  | cons j ws ih =>
    intro i hi
    rcases List.mem_cons.mp hi with rfl | hi
    · exact (passed_of_near h (hAlive []) i).trans_le (passed_le_run P _ ws i)
    · exact ih (fun schedule => hAlive (j :: schedule)) (fun k => (h k).step j) i hi

/-- Who has at most `m` actions to take is behind the barrier after `m + 1` sweeps. -/
theorem passed_sweeps (hAlive : ∀ schedule i, (P.run s schedule).halted i = false)
    (h : ∀ i, s.Near K m i) {sweeps : List (List ι)} (hSweeps : ∀ ws ∈ sweeps, ∀ i, i ∈ ws)
    (hLength : m + 1 ≤ sweeps.length) : ∀ i, K < (P.run s sweeps.flatten).passed i := by
  induction m generalizing s sweeps with
  | zero =>
    cases sweeps with
    | nil => simp at hLength
    | cons ws sweeps =>
      intro i
      rw [List.flatten_cons, Program.run, List.foldl_append]
      exact (passed_sweep hAlive h ws i (hSweeps ws List.mem_cons_self i)).trans_le
        (passed_le_run P _ _ i)
  | succ m ih =>
    cases sweeps with
    | nil => simp at hLength
    | cons ws sweeps =>
      rw [List.flatten_cons, Program.run, List.foldl_append]
      refine ih (fun schedule i => ?_)
        (fun i => near_sweep hAlive h ws i (hSweeps ws List.mem_cons_self i))
        (fun ws' hws' => hSweeps ws' (List.mem_cons_of_mem _ hws'))
        (Nat.le_of_succ_le_succ hLength)
      have hBoth := hAlive (ws ++ schedule) i
      rwa [Program.run, List.foldl_append] at hBoth

/-- **Every barrier is passed.** If nobody fails and no segment has more than `L` actions,
`L + 1` sweeps take everybody past the next barrier. -/
theorem Inv.passed_sweeps {L : ℕ} (h : Inv P x s)
    (hAlive : ∀ schedule i, (P.run s schedule).halted i = false)
    (hLen : ∀ i k, (P.segment i k).length ≤ L) {sweeps : List (List ι)}
    (hSweeps : ∀ ws ∈ sweeps, ∀ i, i ∈ ws) (hLength : K * (L + 1) ≤ sweeps.length) :
    ∀ i, K ≤ (P.run s sweeps.flatten).passed i := by
  induction K generalizing s sweeps with
  | zero => exact fun i => Nat.zero_le _
  | succ K ih =>
    obtain ⟨before, after, hSplit, hBefore⟩ : ∃ before after, sweeps = before ++ after ∧
        before.length = K * (L + 1) :=
      ⟨sweeps.take (K * (L + 1)), sweeps.drop (K * (L + 1)), (List.take_append_drop _ _).symm,
        List.length_take_of_le (Nat.le_trans (Nat.mul_le_mul_right _ (Nat.le_succ K)) hLength)⟩
    subst hSplit
    have hReached := ih h hAlive (fun ws hws => hSweeps ws (List.mem_append_left _ hws))
      (Nat.le_of_eq hBefore.symm)
    have hInv := h.run before.flatten
    rw [List.flatten_append, Program.run, List.foldl_append]
    rw [Program.run] at hReached hInv
    refine Barriers.passed_sweeps (m := L) (fun schedule i => ?_) (fun i => ?_)
      (fun ws hws => hSweeps ws (List.mem_append_right _ hws)) ?_
    · have hBoth := hAlive (before.flatten ++ schedule) i
      rwa [Program.run, List.foldl_append] at hBoth
    · -- what is left of a segment is not longer than the segment
      rcases Nat.lt_or_eq_of_le (hReached i) with hLt | hEq
      · exact .inl hLt
      · refine .inr ⟨hEq.symm, ?_⟩
        have hActs := congrArg List.length (hInv.acts i K)
        rw [State.left_of_eq hEq, List.length_append] at hActs
        exact (Nat.le_add_left _ _).trans (hActs.le.trans (hLen i K))
    · rw [List.length_append, hBefore, Nat.succ_mul] at hLength
      omega

end Fair

end Barriers
