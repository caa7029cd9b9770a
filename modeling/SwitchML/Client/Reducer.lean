import SwitchML.Client.Barrier
import SwitchML.Lib.Barriers

/-!
# SwitchML client — the reducer and its threads

`Reducer` starts its threads once and keeps them. A call of `allreduce_inplace` writes what
is to be reduced into fields that the threads read, and waits at the barrier twice: for the
threads to start, and for them to be done. The threads wait at the same barrier, look whether
they are to end, read the fields, reduce, wait again and start over. Nothing else keeps the
threads from reading fields that are being written.

The barrier is that of `Barrier.hpp`, so the first part is about programs in general that
wait for each other there: `Threads` runs a program with the steps of `BarrierState`, and
`Threads.Synced.run` shows that it does what barriers promise.

* `reducer` — the programs of the main thread, for any list of calls, and of the others;
* `Stage` — where a thread is in its loop;
* `reductions_in_step` — every thread reduces what the calls say, in their order and each
  once. A call returns when all threads are done with it, no thread starts on a call that has
  not been made, the fields do not change while a thread is busy, and the threads that end
  have done everything.
-/

namespace SwitchML.Client

-- ---------------------------------------------------------------------------
-- Programs on the barrier
-- ---------------------------------------------------------------------------

/-- Threads that run a program and wait for each other. -/
structure Threads (N : ℕ) (A σ : Type) where
  program : Barriers.State (Fin N) A σ
  barrier : BarrierState N

namespace Threads

variable {N : ℕ} {A σ : Type} (P : Barriers.Program (Fin N) A σ)

def init (x : σ) : Threads N A σ where
  program := P.init x
  barrier := .init N

/-- A step in `wait`. Who returns from it goes on with its program. -/
def wait (s : Threads N A σ) (p : Fin N) (action : BarrierState.Action N) : Threads N A σ :=
  match s.barrier.step action with
  | none => s
  | some barrier =>
    { program := if barrier.waiting p = none then s.program.pass P p else s.program
      barrier := barrier }

def step (s : Threads N A σ) (p : Fin N) : Threads N A σ :=
  if s.program.halted p then s
  else match s.barrier.waiting p, s.program.todo p with
    | some _, _ => s.wait P p (.wake p)
    | none, [] => s.wait P p (.arrive p)
    | none, a :: rest => { s with program := s.program.act P p a rest }

def run (s : Threads N A σ) (schedule : List (Fin N)) : Threads N A σ := schedule.foldl (step P) s

/-- The barrier and the program agree: who has returned `k` times has passed `k` barriers, and
who waits has nothing left to do. -/
structure Synced (x : σ) (s : Threads N A σ) : Prop where
  round : ∃ round, s.barrier.RoundInv round
  inv : Barriers.Inv P x s.program
  returns : ∀ p, s.barrier.returns p = s.program.passed p
  waiting : ∀ p, s.barrier.waiting p ≠ none →
    s.program.todo p = [] ∧ s.program.halted p = false

variable {P} {x : σ} {s : Threads N A σ}

theorem synced_init (hN : 0 < N) : Synced P x (init P x) where
  round := ⟨0, BarrierState.roundInv_init hN⟩
  inv := Barriers.inv_init P x
  returns _ := rfl
  waiting _ h := absurd rfl h

theorem Synced.arrived_of_waiting (h : Synced P x s) {p : Fin N}
    (hWaiting : s.barrier.waiting p ≠ none) : s.program.Arrived (s.program.passed p) p := by
  obtain ⟨hTodo, hAlive⟩ := h.waiting p hWaiting
  exact .inr ⟨rfl, by rw [hTodo]; rfl, hAlive⟩

/-- Someone returns: the program passes its barrier. -/
theorem Synced.pass (h : Synced P x s) {p : Fin N} {barrier : BarrierState N} {round : ℕ}
    (hRound : barrier.RoundInv round) (hOut : barrier.waiting p = none)
    (hReturns : barrier.returns = Function.update s.barrier.returns p (s.barrier.returns p + 1))
    (hWaiting : ∀ q, q ≠ p → barrier.waiting q = s.barrier.waiting q)
    (hHalted : s.program.halted p = false) (hTodo : s.program.todo p = [])
    (hAll : ∀ q, s.program.Arrived (s.program.passed p) q) :
    Synced P x { program := s.program.pass P p, barrier := barrier } where
  round := ⟨round, hRound⟩
  inv := h.inv.pass hHalted hTodo hAll
  returns q := by
    by_cases hq : q = p
    · subst hq
      simp [hReturns, Barriers.State.pass, h.returns]
    · simp [hReturns, Barriers.State.pass, hq, h.returns]
  waiting q hIn := by
    have hq : q ≠ p := by
      rintro rfl
      exact hIn hOut
    rw [hWaiting q hq] at hIn
    simpa [Barriers.State.pass, hq] using h.waiting q hIn

/-- **Step lemma.** -/
theorem Synced.step (h : Synced P x s) (p : Fin N) :
    Synced P x (s.step P p) ∧ Barriers.Moves P s.program (s.step P p).program := by
  obtain ⟨round, hRound⟩ := h.round
  unfold Threads.step
  cases hHalted : s.program.halted p with
  | true => exact ⟨h, .stay⟩
  | false =>
    rw [if_neg Bool.false_ne_true]
    cases hWait : s.barrier.waiting p with
    | some flagCopy =>
      have hTodo := (h.waiting p (by simp [hWait])).1
      dsimp only
      unfold Threads.wait
      by_cases hSame : flagCopy = s.barrier.flag
      · -- nothing has changed
        have hStep : s.barrier.step (.wake p) = some s.barrier := by
          simp [BarrierState.step, hWait, hSame]
        rw [hStep]
        dsimp only
        rw [if_neg (by simp [hWait])]
        exact ⟨h, .stay⟩
      · have hStep : s.barrier.step (.wake p) = some (s.barrier.leave p) := by
          simp [BarrierState.step, hWait, hSame, BarrierState.leave]
        have hOut : (s.barrier.leave p).waiting p = none := by simp [BarrierState.leave]
        -- the round it waited for is over, so all have come to it
        have hBehind : s.barrier.returns p + 1 = round := by
          cases hRound.placed p with
          | outside hNone => rw [hWait] at hNone; cases hNone
          | inside hIn => exact absurd (Option.some.inj (hWait.symm.trans hIn)) hSame
          | behind _ _ hReturns => exact hReturns
        have hAll : ∀ q, s.program.Arrived (s.program.passed p) q := by
          intro q
          have hp := h.returns p
          have hq := h.returns q
          cases hRound.placed q with
          | outside _ _ hReturns => exact .inl (by omega)
          | inside _ _ hReturns => exact .inl (by omega)
          | behind hIn _ hReturns =>
            have hEq : s.program.passed p = s.program.passed q := by omega
            rw [hEq]
            exact h.arrived_of_waiting (by simp [hIn])
        rw [hStep]
        dsimp only
        rw [if_pos hOut]
        exact ⟨h.pass (hRound.leave hWait hSame) hOut rfl
          (fun q hq => by simp [BarrierState.leave, hq]) hHalted hTodo hAll,
          .pass p hHalted hTodo hAll⟩
    | none =>
      cases hTodo : s.program.todo p with
      | cons a rest =>
        refine ⟨⟨h.round, h.inv.act hHalted hTodo, h.returns, fun q hIn => ?_⟩,
          .act p a rest hHalted hTodo⟩
        have hq : q ≠ p := by
          rintro rfl
          exact hIn hWait
        simpa [Barriers.State.act, hq] using h.waiting q hIn
      | nil =>
        dsimp only
        unfold Threads.wait
        by_cases hMore : 1 < s.barrier.count
        · have hStep : s.barrier.step (.arrive p) = some (s.barrier.join p) := by
            simp [BarrierState.step, hWait, hMore, BarrierState.join]
          have hIn : (s.barrier.join p).waiting p ≠ none := by simp [BarrierState.join]
          rw [hStep]
          dsimp only
          rw [if_neg hIn]
          refine ⟨⟨⟨round, hRound.join hWait hMore⟩, h.inv, h.returns, fun q hq => ?_⟩, .stay⟩
          by_cases hSelf : q = p
          · subst hSelf
            exact ⟨hTodo, hHalted⟩
          · exact h.waiting q (by simpa [BarrierState.join, hSelf] using hq)
        · have hLast : s.barrier.count ≤ 1 := by omega
          have hStep : s.barrier.step (.arrive p) = some (s.barrier.release p) := by
            simp [BarrierState.step, hWait, hMore, BarrierState.release]
          have hAll : ∀ q, s.program.Arrived (s.program.passed p) q := by
            intro q
            by_cases hq : q = p
            · subst hq
              exact .inr ⟨rfl, by rw [hTodo]; rfl, hHalted⟩
            · obtain ⟨hIn, -, hReturns⟩ := hRound.inside_of_last hWait hLast hq
              have hEq : s.program.passed p = s.program.passed q := by
                rw [← h.returns, ← h.returns, hReturns, (hRound.calls_of_out hWait).2]
              rw [hEq]
              exact h.arrived_of_waiting (by simp [hIn])
          rw [hStep]
          dsimp only
          rw [if_pos (show (s.barrier.release p).waiting p = none from hWait)]
          exact ⟨h.pass (hRound.release hWait hLast) hWait rfl (fun _ _ => rfl) hHalted hTodo hAll,
            .pass p hHalted hTodo hAll⟩

/-- **Run lemma.** What the moves of a program keep holds after every schedule. -/
theorem Synced.run {K : Barriers.State (Fin N) A σ → Prop}
    (hKeeps : ∀ st st', Barriers.Inv P x st → Barriers.Moves P st st' → K st → K st')
    (h : Synced P x s) (hStart : K s.program) (schedule : List (Fin N)) :
    Synced P x (s.run P schedule) ∧ K (s.run P schedule).program := by
  induction schedule generalizing s with
  | nil => exact ⟨h, hStart⟩
  | cons p schedule ih =>
    obtain ⟨hNext, hMoves⟩ := h.step p
    exact ih hNext (hKeeps _ _ h.inv hMoves hStart)

end Threads

-- ---------------------------------------------------------------------------
-- The reducer
-- ---------------------------------------------------------------------------

/-- The arguments of `allreduce_inplace`. -/
structure AllreduceCall where
  mr : ℕ
  address : ℕ
  len : ℤ
deriving DecidableEq, Repr

/-- The fields of `Reducer` that a call changes, with its initial values. -/
structure ReducerFields where
  shutdown : Bool := false
  srcBuffer : ℕ := 0
  dstBuffer : ℕ := 0
  length : ℤ := 0
  dstMr : ℕ := 0
  -- incremented before its first use
  reductionId : ℤ := -1
deriving DecidableEq, Repr

/-- What a thread has read for its reduction, and the reductions that it has done. -/
structure ThreadView where
  length : ℤ := 0
  buffer : ℕ := 0
  ran : List (ℕ × ℤ) := []

structure ReducerState (cores : ℕ) where
  fields : ReducerFields := {}
  views : Fin (cores + 1) → ThreadView := fun _ => {}

inductive ReducerAct where
  | setSrcBuffer (address : ℕ)
  | setDstBuffer (address : ℕ)
  | setLength (len : ℤ)
  | setDstMr (mr : ℕ)
  | nextReduction
  | shutDown
  | joinThreads
  | checkShutdown
  | readLength
  | readBuffer
  | finish
deriving DecidableEq, Repr

/-- What the main thread assigns. -/
def ReducerFields.assign (f : ReducerFields) : ReducerAct → ReducerFields
  | .setSrcBuffer address => { f with srcBuffer := address }
  | .setDstBuffer address => { f with dstBuffer := address }
  | .setLength len => { f with length := len }
  | .setDstMr mr => { f with dstMr := mr }
  | .nextReduction => { f with reductionId := f.reductionId + 1 }
  | .shutDown => { f with shutdown := true }
  | _ => f

/-- What `allreduce_inplace` does before its first barrier. -/
def AllreduceCall.setUp (c : AllreduceCall) : List ReducerAct :=
  [.setSrcBuffer c.address, .setDstBuffer c.address, .setLength c.len, .setDstMr c.mr,
    .nextReduction]

/-- A turn of the loop of a thread, from the barrier at its start to that at its end.
`compute_thread_pointers` reads the length before the buffer. -/
def threadLoop : List ReducerAct := [.checkShutdown, .readLength, .readBuffer, .finish]

/-- The main thread among the participants of the barrier. -/
def mainThread (cores : ℕ) : Fin (cores + 1) := ⟨0, Nat.succ_pos cores⟩

/-- The main thread makes the calls and destroys the reducer. All
others are in `ClientThread::operator()`. -/
def reducer (cores : ℕ) (calls : List AllreduceCall) :
    Barriers.Program (Fin (cores + 1)) ReducerAct (ReducerState cores) where
  segment i k :=
    if i = mainThread cores then
      if k % 2 = 0 then
        match calls[k / 2]? with
        | some c => c.setUp
        | none => if k / 2 = calls.length then [.shutDown] else []
      else if k = 2 * calls.length + 1 then [.joinThreads] else []
    else if k % 2 = 1 then threadLoop else []
  exec i act x :=
    if i = mainThread cores then
      ({ x with fields := x.fields.assign act }, decide (act ≠ .joinThreads))
    else
      let v := x.views i
      match act with
      | .checkShutdown => (x, !x.fields.shutdown)
      | .readLength =>
        ({ x with views := Function.update x.views i { v with length := x.fields.length } }, true)
      | .readBuffer =>
        ({ x with views := Function.update x.views i { v with buffer := x.fields.srcBuffer } },
          true)
      | .finish =>
        ({ x with
           views := Function.update x.views i { v with ran := v.ran ++ [(v.buffer, v.length)] } },
          true)
      | _ => (x, true)

/-- The reduction of a call, as its threads see it. -/
def AllreduceCall.view (c : AllreduceCall) : ℕ × ℤ := (c.address, c.len)

/-- The fields in a call. -/
def AllreduceCall.fields (c : AllreduceCall) (id : ℕ) : ReducerFields where
  srcBuffer := c.address
  dstBuffer := c.address
  length := c.len
  dstMr := c.mr
  reductionId := id

-- ---------------------------------------------------------------------------
-- The fields
-- ---------------------------------------------------------------------------

section Calls

variable {cores : ℕ} {calls : List AllreduceCall}

theorem segment_main_even {q : ℕ} {c : AllreduceCall} (hc : calls[q]? = some c) :
    (reducer cores calls).segment (mainThread cores) (2 * q) = c.setUp := by
  simp [reducer, hc]

theorem segment_main_last :
    (reducer cores calls).segment (mainThread cores) (2 * calls.length) = [.shutDown] := by
  simp [reducer]

theorem segment_main_odd {q : ℕ} (hq : q ≠ calls.length) :
    (reducer cores calls).segment (mainThread cores) (2 * q + 1) = [] := by
  have hMod : (2 * q + 1) % 2 = 1 := by omega
  have hNot : 2 * q + 1 ≠ 2 * calls.length + 1 := by omega
  simp only [reducer, if_true, hMod, one_ne_zero, if_false, hNot]

theorem segment_thread_even {t : Fin (cores + 1)} (ht : t ≠ mainThread cores) (q : ℕ) :
    (reducer cores calls).segment t (2 * q) = [] := by
  simp [reducer, ht]

theorem segment_thread_odd {t : Fin (cores + 1)} (ht : t ≠ mainThread cores) (q : ℕ) :
    (reducer cores calls).segment t (2 * q + 1) = threadLoop := by
  have hMod : (2 * q + 1) % 2 = 1 := by omega
  simp [reducer, ht, hMod]

variable (cores) in
/-- The fields once the main thread has come to the barrier of call `q`, or to that of the
destructor. -/
theorem foldl_assign (q : ℕ) (hq : q ≤ calls.length) :
    let f := ((List.range (2 * q + 1)).flatMap
      ((reducer cores calls).segment (mainThread cores))).foldl ReducerFields.assign {}
    (∀ c, calls[q]? = some c → f = c.fields q) ∧ f.shutdown = decide (q = calls.length) := by
  induction q with
  | zero =>
    rw [Nat.mul_zero, List.range_one, List.flatMap_singleton]
    cases hCalls : calls[0]? with
    | some c =>
      obtain ⟨hLt, -⟩ := List.getElem?_eq_some_iff.mp hCalls
      have hSetUp : (reducer cores calls).segment (mainThread cores) 0 = c.setUp :=
        segment_main_even hCalls
      rw [hSetUp]
      simp [AllreduceCall.setUp, ReducerFields.assign, AllreduceCall.fields, Nat.ne_of_lt hLt]
    | none =>
      have hNil : calls = [] := by simpa using hCalls
      subst hNil
      simp [reducer, ReducerFields.assign]
  | succ q ih =>
    obtain ⟨hFields, hShutdown⟩ := ih (Nat.le_of_succ_le hq)
    obtain ⟨c, hc⟩ : ∃ c, calls[q]? = some c := ⟨_, List.getElem?_eq_getElem hq⟩
    rw [show 2 * (q + 1) + 1 = 2 * q + 1 + 1 + 1 by omega, List.range_succ, List.range_succ,
      List.flatMap_append, List.flatMap_append, List.flatMap_singleton, List.flatMap_singleton,
      segment_main_odd (Nat.ne_of_lt hq), List.append_nil, List.foldl_append, hFields c hc,
      show 2 * q + 1 + 1 = 2 * (q + 1) by omega]
    cases hNext : calls[q + 1]? with
    | some c' =>
      obtain ⟨hLt, -⟩ := List.getElem?_eq_some_iff.mp hNext
      rw [segment_main_even hNext]
      simp [AllreduceCall.setUp, ReducerFields.assign, AllreduceCall.fields, Nat.ne_of_lt hLt]
    | none =>
      have hLast : q + 1 = calls.length :=
        Nat.le_antisymm hq (List.getElem?_eq_none_iff.mp hNext)
      rw [hLast, segment_main_last]
      simp [ReducerFields.assign]

variable {st : Barriers.State (Fin (cores + 1)) ReducerAct (ReducerState cores)}
  {t : Fin (cores + 1)} {q : ℕ}

/-- **No writes under a reader.** While a thread is between its barriers, the fields are those
of the call. -/
theorem fields_inside (h : Barriers.Inv (reducer cores calls) {} st)
    (hPassed : st.passed t = 2 * q + 1) (hInside : ¬ st.Arrived (2 * q + 1) t) :
    st.shared.fields = ((List.range (2 * q + 1)).flatMap
      ((reducer cores calls).segment (mainThread cores))).foldl ReducerFields.assign {} := by
  have hOwned : st.shared.fields = ((List.range (st.passed (mainThread cores))).flatMap
      ((reducer cores calls).segment (mainThread cores)) ++
        st.acts (mainThread cores) (st.passed (mainThread cores))).foldl ReducerFields.assign {} :=
    h.owned ReducerState.fields (fun a y => rfl) fun j hj a y => by
      cases a <;> simp [reducer, hj]
  have hNotPast : st.passed (mainThread cores) ≤ 2 * q + 1 := by
    by_contra hLt
    exact hInside (h.arrived (mainThread cores) (2 * q + 1) (by omega) t)
  have hActs := h.acts (mainThread cores) (st.passed (mainThread cores))
  rw [Barriers.State.left_of_eq rfl] at hActs
  rw [hOwned]
  rcases h.arrived t (2 * q) (by omega) (mainThread cores) with hLt | ⟨hEq, hNil, -⟩
  · -- it has gone on, and waits or joins
    have hAt : st.passed (mainThread cores) = 2 * q + 1 := by omega
    rw [hAt] at hActs ⊢
    rw [List.foldl_append]
    by_cases hLast : q = calls.length
    · have hJoin : ∀ a ∈ st.acts (mainThread cores) (2 * q + 1), a = .joinThreads := by
        intro a ha
        have hMem : a ∈ (reducer cores calls).segment (mainThread cores) (2 * q + 1) :=
          hActs ▸ List.mem_append_left _ ha
        have hMod : (2 * q + 1) % 2 = 1 := by omega
        simpa [reducer, hMod, hLast] using hMem
      generalize st.acts (mainThread cores) (2 * q + 1) = acts at hJoin
      induction acts with
      | nil => rfl
      | cons a acts ih =>
        rw [List.foldl_cons, hJoin a List.mem_cons_self]
        exact ih fun b hb => hJoin b (List.mem_cons_of_mem _ hb)
    · rw [segment_main_odd hLast, List.append_eq_nil_iff] at hActs
      rw [hActs.1]
      rfl
  · rw [List.isEmpty_iff.mp hNil, List.append_nil] at hActs
    rw [hActs, ← hEq, List.range_succ, List.flatMap_append, List.flatMap_singleton]

-- ---------------------------------------------------------------------------
-- The threads
-- ---------------------------------------------------------------------------

/-- A thread is at the start of its loop, or in its turn for call `q`, or at the end of it. -/
inductive Stage (calls : List AllreduceCall)
    (st : Barriers.State (Fin (cores + 1)) ReducerAct (ReducerState cores))
    (t : Fin (cores + 1)) (q : ℕ) : Prop
  | idle (hPassed : st.passed t = 2 * q) (hTodo : st.todo t = []) (hAlive : st.halted t = false)
  | woken (hPassed : st.passed t = 2 * q + 1) (hTodo : st.todo t = threadLoop)
      (hAlive : st.halted t = false)
  | reading {c : AllreduceCall} (hPassed : st.passed t = 2 * q + 1) (hc : calls[q]? = some c)
      (hTodo : st.todo t = [.readLength, .readBuffer, .finish]) (hAlive : st.halted t = false)
  | readingOn {c : AllreduceCall} (hPassed : st.passed t = 2 * q + 1) (hc : calls[q]? = some c)
      (hTodo : st.todo t = [.readBuffer, .finish]) (hAlive : st.halted t = false)
      (hLength : (st.shared.views t).length = c.len)
  | reducing {c : AllreduceCall} (hPassed : st.passed t = 2 * q + 1) (hc : calls[q]? = some c)
      (hTodo : st.todo t = [.finish]) (hAlive : st.halted t = false)
      (hLength : (st.shared.views t).length = c.len)
      (hBuffer : (st.shared.views t).buffer = c.address)
  | done (hPassed : st.passed t + 1 = 2 * q) (hTodo : st.todo t = []) (hAlive : st.halted t = false)
  | ended (hPassed : st.passed t = 2 * q + 1) (hAll : q = calls.length)
      (hHalted : st.halted t = true)

/-- The thread has done the first `q` reductions and is on its way to the next. -/
structure OnTurn (calls : List AllreduceCall)
    (st : Barriers.State (Fin (cores + 1)) ReducerAct (ReducerState cores))
    (t : Fin (cores + 1)) (q : ℕ) : Prop where
  le : q ≤ calls.length
  ran : (st.shared.views t).ran = (calls.take q).map AllreduceCall.view
  stage : Stage calls st t q

/-- The steps of others do not matter to a thread. -/
theorem OnTurn.frame {st' : Barriers.State (Fin (cores + 1)) ReducerAct (ReducerState cores)}
    (h : OnTurn calls st t q) (hPassed : st'.passed t = st.passed t)
    (hTodo : st'.todo t = st.todo t) (hHalted : st'.halted t = st.halted t)
    (hView : st'.shared.views t = st.shared.views t) : OnTurn calls st' t q := by
  refine ⟨h.le, by rw [hView, h.ran], ?_⟩
  cases h.stage with
  | idle hp ht ha => exact .idle (hPassed.trans hp) (hTodo.trans ht) (hHalted.trans ha)
  | woken hp ht ha => exact .woken (hPassed.trans hp) (hTodo.trans ht) (hHalted.trans ha)
  | reading hp hc ht ha =>
    exact .reading (hPassed.trans hp) hc (hTodo.trans ht) (hHalted.trans ha)
  | readingOn hp hc ht ha hl =>
    exact .readingOn (hPassed.trans hp) hc (hTodo.trans ht) (hHalted.trans ha) (by rw [hView, hl])
  | reducing hp hc ht ha hl hb =>
    exact .reducing (hPassed.trans hp) hc (hTodo.trans ht) (hHalted.trans ha) (by rw [hView, hl])
      (by rw [hView, hb])
  | done hp ht ha => exact .done (by rw [hPassed, hp]) (hTodo.trans ht) (hHalted.trans ha)
  | ended hp hAll hh => exact .ended (hPassed.trans hp) hAll (hHalted.trans hh)

theorem views_exec_other {i : Fin (cores + 1)} (hi : t ≠ i) (a : ReducerAct)
    (x : ReducerState cores) :
    ((reducer cores calls).exec i a x).1.views t = x.views t := by
  by_cases hMain : i = mainThread cores
  · simp [reducer, hMain]
  · cases a <;> simp [reducer, hMain, hi]

/-- A thread with something to do is inside. -/
theorem not_arrived_of_todo {a : ReducerAct} {rest : List ReducerAct} {k : ℕ}
    (hPassed : st.passed t = k) (hTodo : st.todo t = a :: rest) : ¬ st.Arrived k t := by
  rintro (hLt | ⟨-, hNil, -⟩)
  · omega
  · simp [hTodo] at hNil

/-- A step of the thread itself. -/
theorem OnTurn.act (hInv : Barriers.Inv (reducer cores calls) {} st) (ht : t ≠ mainThread cores)
    (h : OnTurn calls st t q) {a : ReducerAct} {rest : List ReducerAct}
    (hAlive : st.halted t = false) (hAct : st.todo t = a :: rest) :
    ∃ q', OnTurn calls (st.act (reducer cores calls) t a rest) t q' := by
  cases h.stage with
  | idle _ hTodo | done _ hTodo => rw [hTodo] at hAct; cases hAct
  | ended _ _ hHalted => rw [hAlive] at hHalted; cases hHalted
  | woken hPassed hTodo =>
    rw [hTodo] at hAct
    obtain ⟨rfl, rfl⟩ := List.cons.inj hAct
    have hFields := fields_inside hInv hPassed (not_arrived_of_todo hPassed hTodo)
    obtain ⟨-, hShutdown⟩ := foldl_assign cores q h.le
    rw [← hFields] at hShutdown
    refine ⟨q, h.le, by simpa [Barriers.State.act, reducer, ht] using h.ran, ?_⟩
    by_cases hLast : q = calls.length
    · exact .ended hPassed hLast (by simp [Barriers.State.act, reducer, ht, hShutdown, hLast])
    · exact .reading hPassed (List.getElem?_eq_getElem (Nat.lt_of_le_of_ne h.le hLast))
        (by simp [Barriers.State.act])
        (by simp [Barriers.State.act, reducer, ht, hShutdown, hLast])
  | reading hPassed hc hTodo =>
    rw [hTodo] at hAct
    obtain ⟨rfl, rfl⟩ := List.cons.inj hAct
    have hFields := fields_inside hInv hPassed (not_arrived_of_todo hPassed hTodo)
    rw [(foldl_assign cores q h.le).1 _ hc] at hFields
    exact ⟨q, h.le, by simpa [Barriers.State.act, reducer, ht] using h.ran,
      .readingOn hPassed hc (by simp [Barriers.State.act])
        (by simp [Barriers.State.act, reducer, ht])
        (by simp [Barriers.State.act, reducer, ht, hFields, AllreduceCall.fields])⟩
  | readingOn hPassed hc hTodo _ hLength =>
    rw [hTodo] at hAct
    obtain ⟨rfl, rfl⟩ := List.cons.inj hAct
    have hFields := fields_inside hInv hPassed (not_arrived_of_todo hPassed hTodo)
    rw [(foldl_assign cores q h.le).1 _ hc] at hFields
    exact ⟨q, h.le, by simpa [Barriers.State.act, reducer, ht] using h.ran,
      .reducing hPassed hc (by simp [Barriers.State.act])
        (by simp [Barriers.State.act, reducer, ht])
        (by simpa [Barriers.State.act, reducer, ht] using hLength)
        (by simp [Barriers.State.act, reducer, ht, hFields, AllreduceCall.fields])⟩
  | @reducing c hPassed hc hTodo _ hLength hBuffer =>
    rw [hTodo] at hAct
    obtain ⟨rfl, rfl⟩ := List.cons.inj hAct
    obtain ⟨hLt, -⟩ := List.getElem?_eq_some_iff.mp hc
    have hRan : (calls.take (q + 1)).map AllreduceCall.view =
        (calls.take q).map AllreduceCall.view ++ [(c.address, c.len)] := by
      simp [List.take_add_one, hc, AllreduceCall.view]
    exact ⟨q + 1, hLt,
      by simp [Barriers.State.act, reducer, ht, hRan, h.ran, hLength, hBuffer],
      .done (by rw [Barriers.State.act, hPassed]; omega) (by simp [Barriers.State.act])
        (by simp [Barriers.State.act, reducer, ht])⟩

/-- The thread passes a barrier. -/
theorem OnTurn.pass (ht : t ≠ mainThread cores) (h : OnTurn calls st t q)
    (hAlive : st.halted t = false) (hNil : st.todo t = []) :
    OnTurn calls (st.pass (reducer cores calls) t) t q := by
  refine ⟨h.le, h.ran, ?_⟩
  cases h.stage with
  | idle hPassed =>
    refine .woken (by simp [Barriers.State.pass, hPassed]) ?_ hAlive
    simp [Barriers.State.pass, hPassed, segment_thread_odd ht]
  | done hPassed =>
    refine .idle (by simp [Barriers.State.pass, hPassed]) ?_ hAlive
    simp [Barriers.State.pass, hPassed, segment_thread_even ht]
  | ended _ _ hHalted => rw [hAlive] at hHalted; cases hHalted
  | woken _ hTodo | reading _ _ hTodo | readingOn _ _ hTodo | reducing _ _ hTodo =>
    rw [hNil] at hTodo
    cases hTodo

/-- **Step lemma.** -/
theorem onTurn_moves {st' : Barriers.State (Fin (cores + 1)) ReducerAct (ReducerState cores)}
    (hInv : Barriers.Inv (reducer cores calls) {} st)
    (hMoves : Barriers.Moves (reducer cores calls) st st')
    (h : ∀ t, t ≠ mainThread cores → ∃ q, OnTurn calls st t q) :
    ∀ t, t ≠ mainThread cores → ∃ q, OnTurn calls st' t q := by
  intro t ht
  obtain ⟨q, hq⟩ := h t ht
  cases hMoves with
  | stay => exact ⟨q, hq⟩
  | act i a rest hAlive hTodo =>
    by_cases hi : t = i
    · subst hi
      exact hq.act hInv ht hAlive hTodo
    · refine ⟨q, hq.frame rfl ?_ ?_ ?_⟩
      · simp [Barriers.State.act, hi]
      · simp [Barriers.State.act, hi]
      · exact views_exec_other hi a st.shared
  | pass i hAlive hTodo =>
    by_cases hi : t = i
    · subst hi
      exact ⟨q, hq.pass ht hAlive hTodo⟩
    · refine ⟨q, hq.frame ?_ ?_ rfl rfl⟩
      · simp [Barriers.State.pass, hi]
      · simp [Barriers.State.pass, hi]

/-- The number of calls that have returned. -/
def callsReturned (calls : List AllreduceCall)
    (st : Barriers.State (Fin (cores + 1)) ReducerAct (ReducerState cores)) : ℕ :=
  min (st.passed (mainThread cores) / 2) calls.length

/-- A call returns when the thread is done with it, and the thread is ahead by no more than
the call that is going on. -/
theorem OnTurn.returned (hInv : Barriers.Inv (reducer cores calls) {} st)
    (h : OnTurn calls st t q) :
    callsReturned calls st ≤ q ∧ q ≤ callsReturned calls st + 1 := by
  have hLe := h.le
  unfold callsReturned
  constructor
  · by_contra hLt
    -- the call after the thread's has returned, so the thread has been at its end
    rcases hInv.arrived (mainThread cores) (2 * q + 1) (by omega) t with hPast | ⟨hEq, hNil, hAlive⟩
    · cases h.stage <;> omega
    · cases h.stage with
      | idle | done => omega
      | ended _ _ hHalted => rw [hAlive] at hHalted; cases hHalted
      | woken _ hTodo | reading _ _ hTodo | readingOn _ _ hTodo | reducing _ _ hTodo =>
        rw [hTodo] at hNil
        cases hNil
  · by_contra hLt
    have hStarted : 2 * q - 2 < st.passed t := by
      cases h.stage <;> omega
    rcases hInv.arrived t (2 * q - 2) hStarted (mainThread cores) with hPast | ⟨hEq, -, -⟩ <;> omega

end Calls

/-- **Reductions keep step.** For any number of threads, any list of calls of
`allreduce_inplace` followed by the end of the reducer, and any order of the steps of all
threads, at any time, for each thread:

* it has done the reductions of the first calls, in their order and each once, with the
  buffers and lengths of the calls;
* the calls that have returned are among them, and at most the next call is too;
* if it is in its loop for a call, the fields are those of the call;
* if it has ended, it has done all calls. -/
theorem reductions_in_step (cores : ℕ) (calls : List AllreduceCall)
    (schedule : List (Fin (cores + 1))) (t : Fin (cores + 1)) (ht : t ≠ mainThread cores) :
    let st := (Threads.run (reducer cores calls) (.init (reducer cores calls) {}) schedule).program
    ∃ q, (st.shared.views t).ran = (calls.take q).map AllreduceCall.view ∧ q ≤ calls.length ∧
      (callsReturned calls st ≤ q ∧ q ≤ callsReturned calls st + 1) ∧
      (st.todo t ≠ [] → st.todo t ≠ threadLoop → st.halted t = false →
        ∃ c, calls[q]? = some c ∧ st.shared.fields = c.fields q) ∧
      (st.halted t = true → q = calls.length ∧ st.shared.fields.shutdown = true) := by
  intro st
  have hStart : ∀ t : Fin (cores + 1), t ≠ mainThread cores →
      ∃ q, OnTurn calls ((reducer cores calls).init {}) t q := by
    refine fun t ht => ⟨0, Nat.zero_le _, rfl, .idle rfl ?_ rfl⟩
    exact segment_thread_even ht 0
  obtain ⟨hSynced, hTurns⟩ := (Threads.synced_init (Nat.succ_pos cores)).run
    (fun _ _ => onTurn_moves) hStart schedule
  have hInv : Barriers.Inv (reducer cores calls) {} st := hSynced.inv
  obtain ⟨q, hq⟩ := hTurns t ht
  refine ⟨q, hq.ran, hq.le, hq.returned hInv, fun hSome hStarted hAlive => ?_, fun hEnded => ?_⟩
  · have hInside : ∀ {c : AllreduceCall} {a : ReducerAct} {rest : List ReducerAct},
        st.passed t = 2 * q + 1 → calls[q]? = some c → st.todo t = a :: rest →
        ∃ c, calls[q]? = some c ∧ st.shared.fields = c.fields q := by
      intro c a rest hPassed hc hTodo
      rw [fields_inside hInv hPassed (not_arrived_of_todo hPassed hTodo)]
      exact ⟨c, hc, (foldl_assign cores q hq.le).1 c hc⟩
    cases hq.stage with
    | idle _ hTodo | done _ hTodo => exact absurd hTodo hSome
    | woken _ hTodo => exact absurd hTodo hStarted
    | ended _ _ hHalted => rw [hAlive] at hHalted; cases hHalted
    | reading hPassed hc hTodo => exact hInside hPassed hc hTodo
    | readingOn hPassed hc hTodo => exact hInside hPassed hc hTodo
    | reducing hPassed hc hTodo => exact hInside hPassed hc hTodo
  · cases hq.stage with
    | ended hPassed hAll =>
      have hNotArrived : ¬ st.Arrived (2 * q + 1) t := by
        rintro (hLt | ⟨-, -, hAlive⟩)
        · exact absurd (hPassed ▸ hLt) (Nat.lt_irrefl _)
        · rw [hEnded] at hAlive
          cases hAlive
      refine ⟨hAll, ?_⟩
      rw [fields_inside hInv hPassed hNotArrived, (foldl_assign cores q hq.le).2]
      exact decide_eq_true hAll
    | idle _ _ hAlive | woken _ _ hAlive | reading _ _ _ hAlive | readingOn _ _ _ hAlive
    | reducing _ _ _ hAlive | done _ _ hAlive =>
      rw [hEnded] at hAlive
      cases hAlive

def soleCall : AllreduceCall := ⟨1, 2, 3⟩

def soleThread : Fin 2 := ⟨1, Nat.one_lt_two⟩

/-- The main thread calls, the other reduces, and both go on to the end of the reducer. -/
def soleSchedule : List (Fin 2) :=
  List.replicate 6 (mainThread 1) ++ List.replicate 6 soleThread ++
    [mainThread 1, mainThread 1, soleThread, mainThread 1, mainThread 1, soleThread, soleThread]

def soleCallRun : Barriers.State (Fin 2) ReducerAct (ReducerState 1) :=
  (Threads.run (reducer 1 [soleCall]) (.init (reducer 1 [soleCall]) {})
    soleSchedule).program

theorem reductions_in_step_one :
    soleCallRun.halted soleThread = true ∧
      ∃ q, (soleCallRun.shared.views soleThread).ran = ([soleCall].take q).map AllreduceCall.view ∧
        q = 1 := by
  have hEnded : soleCallRun.halted soleThread = true := by decide +kernel
  refine ⟨hEnded, ?_⟩
  rw [soleCallRun] at hEnded ⊢
  obtain ⟨q, hRan, -, -, -, hAll⟩ :=
    reductions_in_step 1 [soleCall] soleSchedule soleThread (by decide)
  exact ⟨q, hRan, (hAll hEnded).1⟩

end SwitchML.Client
