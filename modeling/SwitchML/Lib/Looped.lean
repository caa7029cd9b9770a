import Mathlib.Data.List.Forall2

/-!
# Machines that packets pass through again

A machine handles one packet at a time: one that arrives, or one that an earlier pass put on
a loop back to the machine. What is on the loops may come back in any order. Two such
machines that treat related packets alike do so over whole runs, whatever the order
(`Simulates.run`).

`R` is the memory of the machine, `A` are the packets that arrive, `P` those on the loops
and `O` those that leave; `E` is what the environment draws for a pass.
-/

namespace Looped

variable {E R A A' P P' O O' : Type*}

/-- Where a packet goes after a pass. -/
inductive Exit (P O : Type*) where
  | gone
  | back (p : P)
  | out (o : O)

/-- Both packets go to the same place. -/
inductive Exit.Rel (onLoop : P → P' → Prop) (outside : O → O' → Prop) :
    Exit P O → Exit P' O' → Prop
  | gone : Exit.Rel onLoop outside .gone .gone
  | back {p : P} {p' : P'} (h : onLoop p p') : Exit.Rel onLoop outside (.back p) (.back p')
  | out {o : O} {o' : O'} (h : outside o o') : Exit.Rel onLoop outside (.out o) (.out o')

/-- What a pass does to the memory and to the packet. -/
structure Machine (E R A P O : Type*) where
  first : E → A → R → R × Exit P O
  again : E → P → R → R × Exit P O

/-- The packets on the loops and those that left are in the order in which they did. -/
structure State (R P O : Type*) where
  memory : R
  loops : List P := []
  outs : List O := []

inductive Input (E A : Type*) where
  | arrive (e : E) (a : A)
  -- the packet at a position of the loops
  | again (e : E) (i : ℕ)

/-- The same step with another packet. -/
def Input.map (f : A → A') : Input E A → Input E A'
  | .arrive e a => .arrive e (f a)
  | .again e i => .again e i

/-- The same step, with packets that are related. -/
inductive Input.Rel (arrives : A → A' → Prop) : Input E A → Input E A' → Prop
  | arrive (e : E) {a : A} {a' : A'} (h : arrives a a') :
      Input.Rel arrives (.arrive e a) (.arrive e a')
  | again (e : E) (i : ℕ) : Input.Rel arrives (.again e i) (.again e i)

/-- Two descriptions of one list of packets. -/
theorem Input.forall₂_map {B : Type*} {arrives : A → A' → Prop} {f : B → A} {g : B → A'}
    (h : ∀ b, arrives (f b) (g b)) (inputs : List (Input E B)) :
    List.Forall₂ (Input.Rel arrives) (inputs.map (Input.map f)) (inputs.map (Input.map g)) := by
  rw [List.forall₂_map_left_iff, List.forall₂_map_right_iff, List.forall₂_same]
  intro input _
  cases input with
  | arrive e b => exact .arrive e (h b)
  | again e i => exact .again e i

namespace Machine

def leave (s : State R P O) : R × Exit P O → State R P O
  | (memory, .gone) => { s with memory := memory }
  | (memory, .back p) => { s with memory := memory, loops := s.loops ++ [p] }
  | (memory, .out o) => { s with memory := memory, outs := s.outs ++ [o] }

/-- A step; there may be no packet at the position. -/
def step (m : Machine E R A P O) (s : State R P O) : Input E A → State R P O
  | .arrive e a => leave s (m.first e a s.memory)
  | .again e i =>
    match s.loops[i]? with
    | none => s
    | some p => leave { s with loops := s.loops.eraseIdx i } (m.again e p s.memory)

def run (m : Machine E R A P O) (s : State R P O) (inputs : List (Input E A)) : State R P O :=
  inputs.foldl m.step s

end Machine

-- ---------------------------------------------------------------------------
-- Simulation
-- ---------------------------------------------------------------------------

theorem forall₂_eraseIdx {S : P → P' → Prop} {l : List P} {l' : List P'}
    (h : List.Forall₂ S l l') (i : ℕ) : List.Forall₂ S (l.eraseIdx i) (l'.eraseIdx i) := by
  induction h generalizing i with
  | nil => exact List.Forall₂.nil
  | cons hHead hTail ih =>
    cases i with
    | zero => exact hTail
    | succ i => exact List.Forall₂.cons hHead (ih i)

/-- At each position, both lists have an element or none has. -/
theorem forall₂_getElem? {S : P → P' → Prop} {l : List P} {l' : List P'}
    (h : List.Forall₂ S l l') (i : ℕ) :
    (l[i]? = none ∧ l'[i]? = none) ∨ ∃ p p', l[i]? = some p ∧ l'[i]? = some p' ∧ S p p' := by
  induction h generalizing i with
  | nil => exact .inl ⟨rfl, rfl⟩
  | @cons p p' _ _ hHead _ ih =>
    cases i with
    | zero => exact .inr ⟨p, p', rfl, rfl, hHead⟩
    | succ i => exact ih i

section Simulation

variable (arrives : A → A' → Prop) (onLoop : P → P' → Prop) (outside : O → O' → Prop)

/-- The memories are the same, and the packets are related one by one. -/
structure State.Rel (s : State R P O) (s' : State R P' O') : Prop where
  memory : s'.memory = s.memory
  loops : List.Forall₂ onLoop s.loops s'.loops
  outs : List.Forall₂ outside s.outs s'.outs

/-- One pass of related packets, on any memory, has the same effect on it, and the packets
are related after it. -/
structure Simulates (m : Machine E R A P O) (m' : Machine E R A' P' O') : Prop where
  first : ∀ {a a'}, arrives a a' → ∀ e r, (m'.first e a' r).1 = (m.first e a r).1 ∧
    Exit.Rel onLoop outside (m.first e a r).2 (m'.first e a' r).2
  again : ∀ {p p'}, onLoop p p' → ∀ e r, (m'.again e p' r).1 = (m.again e p r).1 ∧
    Exit.Rel onLoop outside (m.again e p r).2 (m'.again e p' r).2

variable {arrives onLoop outside} {m : Machine E R A P O} {m' : Machine E R A' P' O'}
  {s : State R P O} {s' : State R P' O'}

theorem State.Rel.leave (h : State.Rel onLoop outside s s') {r : R × Exit P O}
    {r' : R × Exit P' O'} (hMemory : r'.1 = r.1) (hExit : Exit.Rel onLoop outside r.2 r'.2) :
    State.Rel onLoop outside (Machine.leave s r) (Machine.leave s' r') := by
  obtain ⟨memory, exit⟩ := r
  obtain ⟨memory', exit'⟩ := r'
  cases hExit with
  | gone => exact ⟨hMemory, h.loops, h.outs⟩
  | back hBack =>
    exact ⟨hMemory, List.rel_append h.loops (.cons hBack .nil), h.outs⟩
  | out hOut =>
    exact ⟨hMemory, h.loops, List.rel_append h.outs (.cons hOut .nil)⟩

theorem Simulates.step (h : Simulates arrives onLoop outside m m')
    (hState : State.Rel onLoop outside s s') {input : Input E A} {input' : Input E A'}
    (hInput : Input.Rel arrives input input') :
    State.Rel onLoop outside (m.step s input) (m'.step s' input') := by
  cases hInput with
  | @arrive e a a' hArrives =>
    have hPass := h.first hArrives e s.memory
    rw [← hState.memory] at hPass
    simp only [Machine.step]
    rw [← hState.memory]
    exact hState.leave hPass.1 hPass.2
  | again e i =>
    simp only [Machine.step]
    rcases forall₂_getElem? hState.loops i with ⟨hNone, hNone'⟩ | ⟨p, p', hSome, hSome', hLoop⟩
    · rw [hNone, hNone']
      exact hState
    · have hErased : State.Rel onLoop outside { s with loops := s.loops.eraseIdx i }
          { s' with loops := s'.loops.eraseIdx i } :=
        ⟨hState.memory, forall₂_eraseIdx hState.loops i, hState.outs⟩
      have hPass := h.again hLoop e s'.memory
      rw [hSome, hSome']
      dsimp only
      rw [← hState.memory]
      exact hErased.leave hPass.1 hPass.2

/-- **Runs.** -/
theorem Simulates.run (h : Simulates arrives onLoop outside m m')
    (hState : State.Rel onLoop outside s s') {inputs : List (Input E A)}
    {inputs' : List (Input E A')} (hInputs : List.Forall₂ (Input.Rel arrives) inputs inputs') :
    State.Rel onLoop outside (m.run s inputs) (m'.run s' inputs') := by
  induction hInputs generalizing s s' with
  | nil => exact hState
  | cons hInput _ ih => exact ih (h.step hState hInput)

end Simulation

end Looped
