import Mathlib.Data.List.Basic
import Mathlib.Data.List.Pairwise
import Mathlib.Logic.Function.Basic

/-!
# Staged aggregation with alternating buffers

Sources number their items 0, 1, 2, … and send each of them over a FIFO link,
possibly many times, through a line of stages. A stage counts, for each source,
the items it has taken; an item that comes again is a duplicate. When the last
stage has item `k` of every source it starts a reply, and a duplicate of an item
that is complete starts a reply to its source. A source goes on to its next item
when it gets a reply for the current one, and it tells replies apart only by the
parity of their number.

Links lose items at will. What the lines between the stages and the reply queue
keep is the order.

* `Step` — the moves of the protocol;
* `Inv` — what holds along every run; `Inv.step` is the step lemma;
* `Inv.counts_close` — any two stages differ by at most one item on any two
  sources, which is what makes two alternating buffers enough;
* `Single` — if nothing is lost or sent twice, there is at most one item of a
  source on the way and at most one reply.
-/

namespace Staged

variable {W : Type}

-- ---------------------------------------------------------------------------
-- The protocol
-- ---------------------------------------------------------------------------

/-- Whom a finished item is for. -/
inductive Dest (W : Type) where
  | all
  | one (w : W)
  | nobody
deriving DecidableEq

/-- The state of the protocol. `lane i w` is what source `w` has on the way to stage
`i > 0`, with a mark on the items that are not duplicates; `harvest` is the reply
queue, and `casts` the replies to all that have left it. -/
structure State (W : Type) where
  pos : W → ℕ
  up : W → List ℕ
  count : ℕ → W → ℕ
  lane : ℕ → W → List (ℕ × Bool)
  harvest : List (Dest W × ℕ)
  down : W → List ℕ
  casts : List ℕ

/-- The state before anything is sent. -/
def init : State W :=
  { pos := fun _ => 0, up := fun _ => [], count := fun _ _ => 0, lane := fun _ _ => []
    harvest := [], down := fun _ => [], casts := [] }

section Moves

variable [DecidableEq W] (s : State W)

def setUp (w : W) (l : List ℕ) : State W := { s with up := Function.update s.up w l }

def setDown (w : W) (l : List ℕ) : State W := { s with down := Function.update s.down w l }

def setLane (i : ℕ) (w : W) (l : List (ℕ × Bool)) : State W :=
  { s with lane := fun i' w' => if i' = i ∧ w' = w then l else s.lane i' w' }

/-- Stage `i` takes the next item of `w`. -/
def bump (i : ℕ) (w : W) : State W :=
  { s with count := fun i' w' => if i' = i ∧ w' = w then s.count i' w' + 1 else s.count i' w' }

def forward (i : ℕ) (w : W) (x : ℕ × Bool) : State W := setLane s i w (s.lane i w ++ [x])

def enqueue (d : Dest W) (k : ℕ) : State W := { s with harvest := s.harvest ++ [(d, k)] }

/-- A reply leaves the queue. -/
def emit (d : Dest W) (k : ℕ) (rest : List (Dest W × ℕ)) : State W :=
  { s with
    harvest := rest
    down := fun w => match d with
      | .all => s.down w ++ [k]
      | .one w' => if w = w' then s.down w ++ [k] else s.down w
      | .nobody => s.down w
    casts := match d with
      | .all => s.casts ++ [k]
      | _ => s.casts }

/-- Item `k` is in at stage `i`. -/
def Complete (i k : ℕ) : Prop := ∀ w, k < s.count i w

end Moves

variable [DecidableEq W]

/-- What stage `i` of `L` does with an item `k` of `w` it has looked at; `new` says that
the item is not a duplicate. -/
inductive Passed (L i : ℕ) (w : W) (k : ℕ) (new : Bool) (s : State W) : State W → Prop where
  | forward (h : i + 1 < L) : Passed L i w k new s (forward s (i + 1) w (k, new))
  | drop (h : new = false ∨ i + 1 = L) : Passed L i w k new s s
  | giveUp (h : i + 1 = L) (hC : new = true → Complete s i k) :
      Passed L i w k new s (enqueue s .nobody k)
  | answerAll (h : i + 1 = L) (hNew : new = true) (hC : Complete s i k) :
      Passed L i w k new s (enqueue s .all k)
  | answerOne (h : i + 1 = L) (hDup : new = false) (hC : Complete s i k) :
      Passed L i w k new s (enqueue s (.one w) k)

/-- The moves of the protocol with `L` stages. If `single` is set, no item is sent
twice. -/
inductive Step (L : ℕ) (single : Bool) (s : State W) : State W → Prop where
  | send (w : W) (h : single = true → s.up w = [] ∧ s.count 0 w = s.pos w) :
      Step L single s (setUp s w (s.up w ++ [s.pos w]))
  | loseUp (w : W) {l : List ℕ} (h : l.Sublist (s.up w)) : Step L single s (setUp s w l)
  | loseDown (w : W) {l : List ℕ} (h : l.Sublist (s.down w)) : Step L single s (setDown s w l)
  | advance (w : W) {k : ℕ} {rest : List ℕ} (h : s.down w = k :: rest)
      (hParity : k % 2 = s.pos w % 2) :
      Step L single s { setDown s w rest with pos := Function.update s.pos w (s.pos w + 1) }
  | arriveNew (w : W) {rest : List ℕ} {s' : State W} (h : s.up w = s.count 0 w :: rest)
      (hPass : Passed L 0 w (s.count 0 w) true (bump (setUp s w rest) 0 w) s') : Step L single s s'
  | arriveDup (w : W) {k : ℕ} {rest : List ℕ} {s' : State W} (h : s.up w = k :: rest)
      (hk : k + 1 = s.count 0 w) (hPass : Passed L 0 w k false (setUp s w rest) s') :
      Step L single s s'
  | passNew (i : ℕ) (w : W) {k : ℕ} {rest : List (ℕ × Bool)} {s' : State W} (hi : i + 1 < L)
      (h : s.lane (i + 1) w = (k, true) :: rest)
      (hPass : Passed L (i + 1) w k true (bump (setLane s (i + 1) w rest) (i + 1) w) s') :
      Step L single s s'
  | passDup (i : ℕ) (w : W) {k : ℕ} {rest : List (ℕ × Bool)} {s' : State W} (hi : i + 1 < L)
      (h : s.lane (i + 1) w = (k, false) :: rest)
      (hPass : Passed L (i + 1) w k false (setLane s (i + 1) w rest) s') : Step L single s s'
  | reply {d : Dest W} {k : ℕ} {rest : List (Dest W × ℕ)} (h : s.harvest = (d, k) :: rest) :
      Step L single s (emit s d k rest)

/-- What a stage does with an item it has looked at changes only a lane or the reply
queue. -/
theorem Passed.frame {L i : ℕ} {w : W} {k : ℕ} {new : Bool} {s s' : State W}
    (h : Passed L i w k new s s') :
    s'.pos = s.pos ∧ s'.up = s.up ∧ s'.count = s.count := by
  cases h <;> exact ⟨rfl, rfl, rfl⟩

-- ---------------------------------------------------------------------------
-- Lanes
-- ---------------------------------------------------------------------------

/-- What may be on the way between a stage that has taken `b` items of a source and the
next, which has taken `a`: the items in between in order, each followed by duplicates
of itself only. -/
def Lane : ℕ → ℕ → List (ℕ × Bool) → Prop
  | a, b, [] => a = b
  | a, b, (k, true) :: l => k = a ∧ Lane (a + 1) b l
  | a, b, (k, false) :: l => k + 1 = a ∧ Lane a b l

theorem Lane.le {a b : ℕ} {l : List (ℕ × Bool)} (h : Lane a b l) : a ≤ b := by
  induction l generalizing a with
  | nil => exact Nat.le_of_eq h
  | cons x l ih =>
    obtain ⟨k, new⟩ := x
    cases new with
    | true =>
      have := ih h.2
      omega
    | false => exact ih h.2

theorem Lane.push_new {a b : ℕ} {l : List (ℕ × Bool)} (h : Lane a b l) :
    Lane a (b + 1) (l ++ [(b, true)]) := by
  induction l generalizing a with
  | nil =>
    obtain rfl : a = b := h
    exact ⟨rfl, rfl⟩
  | cons x l ih =>
    obtain ⟨k, new⟩ := x
    cases new with
    | true => exact ⟨h.1, ih h.2⟩
    | false => exact ⟨h.1, ih h.2⟩

theorem Lane.push_dup {a b k : ℕ} {l : List (ℕ × Bool)} (h : Lane a b l) (hk : k + 1 = b) :
    Lane a b (l ++ [(k, false)]) := by
  induction l generalizing a with
  | nil =>
    obtain rfl : a = b := h
    exact ⟨hk, rfl⟩
  | cons x l ih =>
    obtain ⟨k', new⟩ := x
    cases new with
    | true => exact ⟨h.1, ih h.2⟩
    | false => exact ⟨h.1, ih h.2⟩

-- ---------------------------------------------------------------------------
-- The invariant
-- ---------------------------------------------------------------------------

/-- The part of the invariant that does not speak of the lanes. -/
structure Core (L : ℕ) (s : State W) : Prop where
  pos_le : ∀ i < L, ∀ w w', s.pos w ≤ s.count i w'
  count_le : ∀ w, s.count 0 w ≤ s.pos w + 1
  up_sorted : ∀ w, (s.up w).Pairwise (· ≤ ·)
  up_mem : ∀ w, ∀ k ∈ s.up w, s.count 0 w ≤ k + 1 ∧ k ≤ s.pos w
  harvest_sorted : s.harvest.Pairwise fun x y => x.1 ≠ .nobody → y.1 ≠ .nobody → x.2 ≤ y.2
  harvest_mem : ∀ x ∈ s.harvest, x.1 ≠ .nobody →
    (∀ i < L, Complete s i x.2) ∧ ∀ w, s.pos w ≤ x.2 + 1
  down_sorted : ∀ w, (s.down w).Pairwise (· ≤ ·)
  down_mem : ∀ w, ∀ k ∈ s.down w, (∀ i < L, Complete s i k) ∧ s.pos w ≤ k + 1 ∧
    ∀ x ∈ s.harvest, x.1 ≠ .nobody → k ≤ x.2
  harvest_casts : s.harvest.Pairwise fun x y => x.1 = .all → y.1 = .all → x.2 < y.2
  casts_sorted : s.casts.Pairwise (· < ·)
  casts_mem : ∀ k ∈ s.casts, (∀ i < L, Complete s i k) ∧
    ∀ x ∈ s.harvest, x.1 = .all → k < x.2

/-- The invariant of the protocol with `L` stages. -/
structure Inv (L : ℕ) (s : State W) : Prop extends Core L s where
  lanes : ∀ i, i + 1 < L → ∀ w, Lane (s.count (i + 1) w) (s.count i w) (s.lane (i + 1) w)

omit [DecidableEq W] in
theorem inv_init (L : ℕ) : Inv L (init : State W) := by
  refine ⟨?_, fun i hi w => rfl⟩
  constructor <;> simp [init]

/-- Between the look of stage `i` at item `k` and what it does with it: a new item is
counted, but not yet on the next lane. -/
structure Pending (L i : ℕ) (w : W) (k : ℕ) (new : Bool) (s : State W) : Prop
    extends Core L s where
  lt : i < L
  count_eq : s.count i w = k + 1
  lanes : ∀ j, j + 1 < L → ∀ w', ¬ (new = true ∧ j = i ∧ w' = w) →
    Lane (s.count (j + 1) w') (s.count j w') (s.lane (j + 1) w')
  lane : new = true → i + 1 < L → Lane (s.count (i + 1) w) k (s.lane (i + 1) w)
  -- no reply has been started for a new item
  pos_new : new = true → ∀ w', s.pos w' ≤ k
  harvest_new : new = true → ∀ x ∈ s.harvest, x.1 ≠ .nobody → x.2 < k
  down_new : new = true → ∀ w', ∀ x ∈ s.down w', x < k
  casts_new : new = true → ∀ x ∈ s.casts, x < k

namespace Core

variable {L : ℕ} {s : State W}

theorem setUp (h : Core L s) {w : W} {l : List ℕ} (hl : l.Sublist (s.up w)) :
    Core L (setUp s w l) := by
  refine { h with up_sorted := ?_, up_mem := ?_ }
  · intro w'
    by_cases hw : w' = w
    · subst hw
      simpa [Staged.setUp] using (h.up_sorted w').sublist hl
    · simpa [Staged.setUp, hw] using h.up_sorted w'
  · intro w' k hk
    by_cases hw : w' = w
    · subst hw
      exact h.up_mem w' k (hl.subset (by simpa [Staged.setUp] using hk))
    · exact h.up_mem w' k (by simpa [Staged.setUp, hw] using hk)

theorem setLane (h : Core L s) (i : ℕ) (w : W) (l : List (ℕ × Bool)) :
    Core L (setLane s i w l) := { h with }

omit [DecidableEq W] in
theorem complete_mono {s t : State W} (hCount : ∀ j w', s.count j w' ≤ t.count j w') {i k : ℕ}
    (h : Complete s i k) : Complete t i k :=
  fun w' => Nat.lt_of_lt_of_le (h w') (hCount i w')

theorem le_bump (s : State W) (i : ℕ) (w : W) (j : ℕ) (w' : W) :
    s.count j w' ≤ (bump s i w).count j w' := by
  simp only [bump]
  split <;> omega

/-- A stage may take an item if, in the case of the first stage, the source has sent
it and nothing older is on its link. -/
theorem bump (h : Core L s) {i : ℕ} {w : W}
    (hZero : i = 0 → s.count 0 w ≤ s.pos w ∧ ∀ k ∈ s.up w, s.count 0 w ≤ k) :
    Core L (bump s i w) := by
  have hMono : ∀ {j k : ℕ}, Complete s j k → Complete (Staged.bump s i w) j k :=
    fun hC => complete_mono (le_bump s i w) hC
  refine { h with
    pos_le := ?_, count_le := ?_, up_mem := ?_, harvest_mem := ?_, down_mem := ?_
    casts_mem := ?_ }
  · intro j hj w' w''
    exact Nat.le_trans (h.pos_le j hj w' w'') (le_bump s i w j w'')
  · intro w'
    have hOld := h.count_le w'
    simp only [Staged.bump]
    split
    · next hEq =>
      have := (hZero hEq.1.symm).1
      rw [hEq.2] at *
      omega
    · exact hOld
  · intro w' k hk
    have hOld := h.up_mem w' k hk
    refine ⟨?_, hOld.2⟩
    simp only [Staged.bump]
    split
    · next hEq =>
      obtain ⟨hi, rfl⟩ := hEq
      have := (hZero hi.symm).2 k hk
      omega
    · exact hOld.1
  · intro x hx hd
    exact ⟨fun j hj => hMono ((h.harvest_mem x hx hd).1 j hj), (h.harvest_mem x hx hd).2⟩
  · intro w' k hk
    exact ⟨fun j hj => hMono ((h.down_mem w' k hk).1 j hj), (h.down_mem w' k hk).2⟩
  · intro k hk
    exact ⟨fun j hj => hMono ((h.casts_mem k hk).1 j hj), (h.casts_mem k hk).2⟩

end Core

namespace Inv

variable {L : ℕ} {s : State W}

omit [DecidableEq W] in
theorem count_anti (h : Inv L s) {i j : ℕ} (hij : i ≤ j) (hj : j < L) (w : W) :
    s.count j w ≤ s.count i w := by
  induction j with
  | zero => exact Nat.le_of_eq (by rw [Nat.le_zero.mp hij])
  | succ j ih =>
    rcases Nat.lt_or_ge i (j + 1) with hlt | hge
    · have hLane := (h.lanes j hj w).le
      have hPrev := ih (by omega) (by omega)
      omega
    · exact Nat.le_of_eq (by rw [Nat.le_antisymm hij hge])

omit [DecidableEq W] in
/-- **Two buffers are enough.** -/
theorem counts_close (h : Inv L s) {i j : ℕ} (hi : i < L) (hj : j < L) (w w' : W) :
    s.count i w ≤ s.count j w' + 1 := by
  have hAnti := h.count_anti (Nat.zero_le i) hi w
  have hPos := h.pos_le j hj w w'
  have hCount := h.count_le w
  omega

omit [DecidableEq W] in
/-- While a stage waits for an item of `w`, it has of any other source that item or the
one before. -/
theorem filling (h : Inv L s) {i : ℕ} (hi : i < L) {w : W} (hw : s.count i w ≤ s.pos w) (w' : W) :
    s.count i w ≤ s.count i w' ∧ s.count i w' ≤ s.count i w + 1 :=
  ⟨Nat.le_trans hw (h.pos_le i hi w w'), h.counts_close hi hi w' w⟩

/-! ### Looking at an item -/

omit [DecidableEq W] in
/-- Nothing is known of an item that some stage has not taken from some source. -/
theorem fresh (h : Inv L s) {i : ℕ} (hi : i < L) (w : W) :
    (∀ w', s.pos w' ≤ s.count i w) ∧
    (∀ x ∈ s.harvest, x.1 ≠ .nobody → x.2 < s.count i w) ∧
    (∀ w', ∀ x ∈ s.down w', x < s.count i w) ∧ ∀ x ∈ s.casts, x < s.count i w :=
  ⟨fun w' => h.pos_le i hi w' w, fun x hx hd => (h.harvest_mem x hx hd).1 i hi w,
    fun w' x hx => (h.down_mem w' x hx).1 i hi w, fun x hx => (h.casts_mem x hx).1 i hi w⟩

theorem arriveNew (h : Inv L s) (hL : 0 < L) {w : W} {rest : List ℕ}
    (hUp : s.up w = s.count 0 w :: rest) :
    Pending L 0 w (s.count 0 w) true (bump (setUp s w rest) 0 w) := by
  have hSorted := h.up_sorted w
  rw [hUp, List.pairwise_cons] at hSorted
  have hCore := h.toCore.setUp (w := w) (l := rest) (by rw [hUp]; exact List.sublist_cons_self _ _)
  refine { hCore.bump (i := 0) (w := w) fun _ => ⟨?_, ?_⟩ with
    lt := hL, count_eq := by simp [bump, setUp], lanes := ?_, lane := ?_
    pos_new := fun _ => (h.fresh hL w).1, harvest_new := fun _ => (h.fresh hL w).2.1
    down_new := fun _ => (h.fresh hL w).2.2.1, casts_new := fun _ => (h.fresh hL w).2.2.2 }
  · exact (h.up_mem w _ (by rw [hUp]; exact List.mem_cons_self)).2
  · intro k hk
    exact hSorted.1 k (by simpa [setUp] using hk)
  · intro j hj w' hNot
    have hLane := h.lanes j hj w'
    have hj0 : ¬ (j = 0 ∧ w' = w) := fun hc => hNot ⟨rfl, hc⟩
    simpa [bump, setUp, hj0] using hLane
  · intro _ hLt
    simpa [bump, setUp] using h.lanes 0 hLt w

theorem arriveDup (h : Inv L s) (hL : 0 < L) {w : W} {k : ℕ} {rest : List ℕ}
    (hUp : s.up w = k :: rest) (hk : k + 1 = s.count 0 w) :
    Pending L 0 w k false (setUp s w rest) := by
  have hCore := h.toCore.setUp (w := w) (l := rest) (by rw [hUp]; exact List.sublist_cons_self _ _)
  exact { hCore with
    lt := hL, count_eq := hk.symm, lanes := fun j hj w' _ => h.lanes j hj w'
    lane := by simp, pos_new := by simp, harvest_new := by simp, down_new := by simp
    casts_new := by simp }

theorem passNew (h : Inv L s) {i : ℕ} (hi : i + 1 < L) {w : W} {k : ℕ} {rest : List (ℕ × Bool)}
    (hLane : s.lane (i + 1) w = (k, true) :: rest) :
    Pending L (i + 1) w k true (bump (setLane s (i + 1) w rest) (i + 1) w) := by
  have hHere := h.lanes i hi w
  rw [hLane] at hHere
  obtain ⟨rfl, hRest⟩ := hHere
  have hCore := h.toCore.setLane (i + 1) w rest
  refine { hCore.bump (i := i + 1) (w := w) (by simp) with
    lt := hi, count_eq := by simp [bump, setLane], lanes := ?_, lane := ?_
    pos_new := fun _ => (h.fresh hi w).1, harvest_new := fun _ => (h.fresh hi w).2.1
    down_new := fun _ => (h.fresh hi w).2.2.1, casts_new := fun _ => (h.fresh hi w).2.2.2 }
  · intro j hj w' hNot
    by_cases hSame : j = i ∧ w' = w
    · obtain ⟨rfl, rfl⟩ := hSame
      simpa [bump, setLane] using hRest
    · have hOther : ¬ (j = i + 1 ∧ w' = w) := fun hc => hNot ⟨rfl, hc⟩
      simpa [bump, setLane, hSame, hOther] using h.lanes j hj w'
  · intro _ hLt
    simpa [bump, setLane] using h.lanes (i + 1) hLt w

theorem passDup (h : Inv L s) {i : ℕ} (hi : i + 1 < L) {w : W} {k : ℕ} {rest : List (ℕ × Bool)}
    (hLane : s.lane (i + 1) w = (k, false) :: rest) :
    Pending L (i + 1) w k false (setLane s (i + 1) w rest) := by
  have hHere := h.lanes i hi w
  rw [hLane] at hHere
  obtain ⟨hk, hRest⟩ := hHere
  refine { h.toCore.setLane (i + 1) w rest with
    lt := hi, count_eq := hk.symm, lanes := ?_
    lane := by simp, pos_new := by simp, harvest_new := by simp, down_new := by simp
    casts_new := by simp }
  intro j hj w' _
  by_cases hSame : j = i ∧ w' = w
  · obtain ⟨rfl, rfl⟩ := hSame
    simpa [setLane] using hRest
  · simpa [setLane, hSame] using h.lanes j hj w'

/-! ### What a stage does with it -/

omit [DecidableEq W] in
/-- An item that is in at the last stage is in everywhere. -/
theorem complete_of_last (h : Inv L s) {i k : ℕ} (hi : i + 1 = L) (hC : Complete s i k) :
    ∀ j < L, Complete s j k := by
  intro j hj w
  have hAnti := h.count_anti (i := j) (j := i) (by omega) (by omega) w
  have hLast := hC w
  omega

omit [DecidableEq W] in
theorem enqueue (h : Inv L s) {d : Dest W} {k : ℕ}
    (hC : d ≠ .nobody → (∀ j < L, Complete s j k) ∧ (∀ w, s.pos w ≤ k + 1) ∧
      (∀ x ∈ s.harvest, x.1 ≠ .nobody → x.2 ≤ k) ∧ ∀ w, ∀ x ∈ s.down w, x ≤ k)
    (hAll : d = .all → (∀ x ∈ s.harvest, x.1 = .all → x.2 < k) ∧ ∀ x ∈ s.casts, x < k) :
    Inv L (enqueue s d k) := by
  refine { h with
    harvest_sorted := ?_, harvest_mem := ?_, down_mem := ?_, harvest_casts := ?_
    casts_mem := ?_ }
  · refine List.pairwise_append.mpr ⟨h.harvest_sorted, List.pairwise_singleton _ _, ?_⟩
    intro x hx y hy hxd hyd
    obtain rfl := List.mem_singleton.mp hy
    exact (hC hyd).2.2.1 x hx hxd
  · intro x hx hd
    rcases List.mem_append.mp hx with hx | hx
    · exact h.harvest_mem x hx hd
    · obtain rfl := List.mem_singleton.mp hx
      exact ⟨(hC hd).1, (hC hd).2.1⟩
  · intro w t ht
    obtain ⟨hComplete, hPos, hLe⟩ := h.down_mem w t ht
    refine ⟨hComplete, hPos, fun x hx hd => ?_⟩
    rcases List.mem_append.mp hx with hx | hx
    · exact hLe x hx hd
    · obtain rfl := List.mem_singleton.mp hx
      exact (hC hd).2.2.2 w t ht
  · refine List.pairwise_append.mpr ⟨h.harvest_casts, List.pairwise_singleton _ _, ?_⟩
    intro x hx y hy hxd hyd
    obtain rfl := List.mem_singleton.mp hy
    exact (hAll hyd).1 x hx hxd
  · intro t ht
    refine ⟨(h.casts_mem t ht).1, fun x hx hd => ?_⟩
    rcases List.mem_append.mp hx with hx | hx
    · exact (h.casts_mem t ht).2 x hx hd
    · obtain rfl := List.mem_singleton.mp hx
      exact (hAll hd).2 t ht

end Inv

namespace Pending

variable {L i k : ℕ} {w : W} {new : Bool} {s s' : State W}

omit [DecidableEq W] in
/-- A duplicate, and any item at the last stage, may be dropped. -/
theorem inv (h : Pending L i w k new s) (hDrop : new = false ∨ i + 1 = L) : Inv L s := by
  refine { h.toCore with lanes := fun j hj w' => h.lanes j hj w' ?_ }
  rintro ⟨rfl, rfl, -⟩
  rcases hDrop with hDrop | hDrop
  · exact absurd hDrop (by simp)
  · omega

theorem passed (h : Pending L i w k new s) (hPass : Passed L i w k new s s') : Inv L s' := by
  cases hPass with
  | forward hi =>
    refine { h.toCore.setLane (i + 1) w _ with lanes := fun j hj w' => ?_ }
    by_cases hSame : j = i ∧ w' = w
    · obtain ⟨rfl, rfl⟩ := hSame
      cases new with
      | true => simpa [forward, setLane, h.count_eq] using (h.lane rfl hi).push_new
      | false =>
        have hLane := h.lanes j hj w' (by simp)
        simpa [forward, setLane] using hLane.push_dup h.count_eq.symm
    · simpa [forward, setLane, hSame] using h.lanes j hj w' fun hc => hSame hc.2
  | drop hDrop => exact h.inv hDrop
  | giveUp hi _ =>
    exact (h.inv (.inr hi)).enqueue (fun hd => absurd rfl hd) (fun hd => by cases hd)
  | answerAll hi hNew hC =>
    have hInv := h.inv (.inr hi)
    refine hInv.enqueue (fun _ => ⟨hInv.complete_of_last hi hC, ?_, ?_, ?_⟩) fun _ => ⟨?_, ?_⟩
    · exact fun w' => Nat.le_succ_of_le (h.pos_new hNew w')
    · exact fun x hx hd => Nat.le_of_lt (h.harvest_new hNew x hx hd)
    · exact fun w' x hx => Nat.le_of_lt (h.down_new hNew w' x hx)
    · exact fun x hx hd => h.harvest_new hNew x hx (by simp [hd])
    · exact h.casts_new hNew
  | answerOne hi hDup hC =>
    have hInv := h.inv (.inr hi)
    have hLt : i < L := h.lt
    -- whatever is complete has been taken from `w`, which is at item `k`
    have hCount := h.count_eq
    refine hInv.enqueue (fun _ => ⟨hInv.complete_of_last hi hC, ?_, ?_, ?_⟩) (by simp)
    · intro w'
      have := h.pos_le i hLt w' w
      omega
    · intro x hx hd
      have := (h.harvest_mem x hx hd).1 i hLt w
      omega
    · intro w' x hx
      have := (h.down_mem w' x hx).1 i hLt w
      omega

end Pending

namespace Inv

variable {L : ℕ} {s s' : State W}

theorem send (h : Inv L s) (w : W) : Inv L (setUp s w (s.up w ++ [s.pos w])) := by
  refine { h with up_sorted := ?_, up_mem := ?_ }
  · intro w'
    by_cases hw : w' = w
    · subst hw
      simp only [setUp, Function.update_self]
      refine List.pairwise_append.mpr ⟨h.up_sorted w', List.pairwise_singleton _ _, ?_⟩
      intro x hx y hy
      obtain rfl := List.mem_singleton.mp hy
      exact (h.up_mem w' x hx).2
    · simpa [setUp, hw] using h.up_sorted w'
  · intro w' k hk
    by_cases hw : w' = w
    · subst hw
      simp only [setUp, Function.update_self, List.mem_append, List.mem_singleton] at hk
      rcases hk with hk | rfl
      · exact h.up_mem w' k hk
      · exact ⟨h.count_le w', Nat.le_refl _⟩
    · exact h.up_mem w' k (by simpa [setUp, hw] using hk)

theorem setDown (h : Inv L s) {w : W} {l : List ℕ} (hl : l.Sublist (s.down w)) :
    Inv L (setDown s w l) := by
  refine { h with down_sorted := ?_, down_mem := ?_ }
  · intro w'
    by_cases hw : w' = w
    · subst hw
      simpa [Staged.setDown] using (h.down_sorted w').sublist hl
    · simpa [Staged.setDown, hw] using h.down_sorted w'
  · intro w' k hk
    by_cases hw : w' = w
    · subst hw
      exact h.down_mem w' k (hl.subset (by simpa [Staged.setDown] using hk))
    · exact h.down_mem w' k (by simpa [Staged.setDown, hw] using hk)

omit [DecidableEq W] in
/-- A reply of the right parity is a reply to the current item. -/
theorem reply_current (h : Inv L s) (hL : 0 < L) {w : W} {k : ℕ} {rest : List ℕ}
    (hDown : s.down w = k :: rest) (hParity : k % 2 = s.pos w % 2) : k = s.pos w := by
  obtain ⟨hComplete, hPos, -⟩ := h.down_mem w k (by rw [hDown]; exact List.mem_cons_self)
  have hTaken := hComplete 0 hL w
  have hCount := h.count_le w
  omega

theorem advance (h : Inv L s) (hL : 0 < L) {w : W} {k : ℕ} {rest : List ℕ}
    (hDown : s.down w = k :: rest) (hParity : k % 2 = s.pos w % 2) :
    Inv L { Staged.setDown s w rest with pos := Function.update s.pos w (s.pos w + 1) } := by
  have hk := h.reply_current hL hDown hParity
  obtain ⟨hComplete, -, hQueue⟩ := h.down_mem w k (by rw [hDown]; exact List.mem_cons_self)
  have hSorted := h.down_sorted w
  rw [hDown, List.pairwise_cons] at hSorted
  have hRest := h.setDown (w := w) (l := rest) (by rw [hDown]; exact List.sublist_cons_self _ _)
  have hLe : ∀ w', s.pos w' ≤ Function.update s.pos w (s.pos w + 1) w' := by
    intro w'
    by_cases hw : w' = w
    · subst hw
      simp
    · simp [hw]
  -- the new position is bounded by whatever bounds the old one and `k + 1`
  have hNew : ∀ {w' : W} {b : ℕ}, s.pos w' ≤ b → k + 1 ≤ b →
      Function.update s.pos w (s.pos w + 1) w' ≤ b := by
    intro w' b hOld hKey
    by_cases hw : w' = w
    · subst hw
      simp only [Function.update_self]
      omega
    · simpa [hw] using hOld
  refine { hRest with
    pos_le := ?_, count_le := ?_, up_mem := ?_, harvest_mem := ?_, down_mem := ?_ }
  · exact fun i hi w' w'' => hNew (h.pos_le i hi w' w'') (hComplete i hi w'')
  · intro w'
    have hOld := h.count_le w'
    have := hLe w'
    exact Nat.le_trans hOld (by simpa using this)
  · intro w' t ht
    exact ⟨(h.up_mem w' t ht).1, Nat.le_trans (h.up_mem w' t ht).2 (hLe w')⟩
  · intro x hx hd
    refine ⟨(h.harvest_mem x hx hd).1, fun w' => hNew ((h.harvest_mem x hx hd).2 w') ?_⟩
    have := hQueue x hx hd
    omega
  · intro w' t ht
    obtain ⟨hC, hPos, hLeQ⟩ := hRest.down_mem w' t ht
    refine ⟨hC, ?_, hLeQ⟩
    by_cases hw : w' = w
    · subst hw
      have hMem : t ∈ rest := by simpa [Staged.setDown] using ht
      have := hSorted.1 t hMem
      exact hNew hPos (by omega)
    · simpa [Staged.setDown, hw] using hPos

theorem mem_emit_down {s : State W} {d : Dest W} {k : ℕ} {rest : List (Dest W × ℕ)} {w : W}
    {t : ℕ} (h : t ∈ (emit s d k rest).down w) : t ∈ s.down w ∨ t = k ∧ d ≠ .nobody := by
  cases d with
  | all => simpa [emit] using h
  | one w' =>
    by_cases hw : w = w'
    · simpa [emit, hw] using h
    · exact .inl (by simpa [emit, hw] using h)
  | nobody => exact .inl (by simpa [emit] using h)

theorem pairwise_emit_down {s : State W} {d : Dest W} {k : ℕ} {rest : List (Dest W × ℕ)}
    {w : W} (h : (s.down w).Pairwise (· ≤ ·)) (hLe : d ≠ .nobody → ∀ t ∈ s.down w, t ≤ k) :
    ((emit s d k rest).down w).Pairwise (· ≤ ·) := by
  have hPush : d ≠ .nobody → (s.down w ++ [k]).Pairwise (· ≤ ·) := fun hd =>
    List.pairwise_append.mpr ⟨h, List.pairwise_singleton _ _, fun x hx y hy => by
      obtain rfl := List.mem_singleton.mp hy
      exact hLe hd x hx⟩
  cases d with
  | all => exact hPush (by simp)
  | one w' =>
    by_cases hw : w = w'
    · simpa [emit, hw] using hw ▸ hPush (by simp)
    · simpa [emit, hw] using h
  | nobody => exact h

theorem reply (h : Inv L s) {d : Dest W} {k : ℕ} {rest : List (Dest W × ℕ)}
    (hHarvest : s.harvest = (d, k) :: rest) : Inv L (emit s d k rest) := by
  have hMem : (d, k) ∈ s.harvest := by rw [hHarvest]; exact List.mem_cons_self
  have hRest : ∀ {x}, x ∈ rest → x ∈ s.harvest := fun hx => by
    rw [hHarvest]; exact List.mem_cons_of_mem _ hx
  have hSorted := h.harvest_sorted
  rw [hHarvest, List.pairwise_cons] at hSorted
  have hCasts := h.harvest_casts
  rw [hHarvest, List.pairwise_cons] at hCasts
  refine { h with
    harvest_sorted := hSorted.2, harvest_mem := fun x hx => h.harvest_mem x (hRest hx)
    down_sorted := ?_, down_mem := ?_, harvest_casts := hCasts.2, casts_sorted := ?_
    casts_mem := ?_ }
  · exact fun w => pairwise_emit_down (h.down_sorted w) fun hd t ht =>
      (h.down_mem w t ht).2.2 _ hMem hd
  · intro w t ht
    rcases mem_emit_down ht with ht | ⟨rfl, hd⟩
    · obtain ⟨hC, hPos, hLe⟩ := h.down_mem w t ht
      exact ⟨hC, hPos, fun x hx => hLe x (hRest hx)⟩
    · obtain ⟨hC, hPos⟩ := h.harvest_mem _ hMem hd
      exact ⟨hC, hPos w, fun x hx hxd => hSorted.1 x hx hd hxd⟩
  · cases d with
    | all =>
      refine List.pairwise_append.mpr ⟨h.casts_sorted, List.pairwise_singleton _ _, ?_⟩
      intro x hx y hy
      obtain rfl := List.mem_singleton.mp hy
      exact (h.casts_mem x hx).2 _ hMem rfl
    | one w' => exact h.casts_sorted
    | nobody => exact h.casts_sorted
  · have hOld : ∀ t ∈ s.casts, (∀ i < L, Complete s i t) ∧ ∀ x ∈ rest, x.1 = .all → t < x.2 :=
      fun t ht => ⟨(h.casts_mem t ht).1, fun x hx => (h.casts_mem t ht).2 x (hRest hx)⟩
    intro t ht
    cases d with
    | all =>
      rcases List.mem_append.mp ht with ht | ht
      · exact hOld t ht
      · obtain rfl := List.mem_singleton.mp ht
        exact ⟨(h.harvest_mem _ hMem (by simp)).1, fun x hx => hCasts.1 x hx rfl⟩
    | one w' => exact hOld t ht
    | nobody => exact hOld t ht

/-- **Step lemma.** -/
theorem step (h : Inv L s) (hL : 0 < L) {single : Bool} (hStep : Step L single s s') :
    Inv L s' := by
  cases hStep with
  | send w _ => exact h.send w
  | loseUp w hl => exact { h.toCore.setUp hl with lanes := h.lanes }
  | loseDown w hl => exact h.setDown hl
  | advance w hDown hParity => exact h.advance hL hDown hParity
  | arriveNew w hUp hPass => exact (h.arriveNew hL hUp).passed hPass
  | arriveDup w hUp hk hPass => exact (h.arriveDup hL hUp hk).passed hPass
  | passNew i w hi hLane hPass => exact (h.passNew hi hLane).passed hPass
  | passDup i w hi hLane hPass => exact (h.passDup hi hLane).passed hPass
  | reply hHarvest => exact h.reply hHarvest

end Inv

-- ---------------------------------------------------------------------------
-- Nothing sent twice
-- ---------------------------------------------------------------------------

theorem Lane.length_eq {a b : ℕ} {l : List (ℕ × Bool)} (h : Lane a b l)
    (hNew : ∀ x ∈ l, x.2 = true) : a + l.length = b := by
  induction l generalizing a with
  | nil => exact h
  | cons x l ih =>
    obtain ⟨k, new⟩ := x
    obtain rfl : new = true := hNew (k, new) List.mem_cons_self
    have := ih h.2 fun x hx => hNew x (List.mem_cons_of_mem _ hx)
    rw [List.length_cons]
    omega

/-- What holds in addition if nothing is sent twice. -/
structure Single (L : ℕ) (s : State W) : Prop where
  up : ∀ w, s.up w = [] ∨ s.up w = [s.pos w] ∧ s.count 0 w = s.pos w
  lanes_new : ∀ i w, ∀ x ∈ s.lane i w, x.2 = true
  harvest_length : s.harvest.length ≤ 1
  harvest_mem : ∀ x ∈ s.harvest, (∀ i < L, Complete s i x.2) ∧ (∀ w, s.pos w ≤ x.2) ∧
    ∀ w, ∀ t ∈ s.down w, t < x.2

omit [DecidableEq W] in
theorem single_init (L : ℕ) : Single L (init : State W) := by
  constructor <;> simp [init]

namespace Single

variable {L : ℕ} {s s' : State W}

omit [DecidableEq W] in
theorem lane_length (h : Single L s) (hInv : Inv L s) {i : ℕ} (hi : i + 1 < L) (w : W) :
    (s.lane (i + 1) w).length ≤ 1 := by
  have hLength := (hInv.lanes i hi w).length_eq (h.lanes_new (i + 1) w)
  have hClose := hInv.counts_close (i := i) (j := i + 1) (by omega) hi w w
  omega

/-- A reply is started only when none is on the way: the one on the way would be for an
earlier item, and the source would still wait for it. -/
theorem passed {i : ℕ} {w : W} {k : ℕ} (h : Single L s) (hPend : Pending L i w k true s)
    (hPos : k ≤ s.pos w) (hFresh : ∀ x ∈ s.harvest, x.2 < k)
    (hPass : Passed L i w k true s s') : Single L s' := by
  have hEmpty : s.harvest = [] := by
    refine List.eq_nil_iff_forall_not_mem.mpr fun x hx => ?_
    have hLe := (h.harvest_mem x hx).2.1 w
    have hLt := hFresh x hx
    omega
  have hEnqueue : ∀ d : Dest W, i + 1 = L → Complete s i k → Single L (enqueue s d k) := by
    intro d hi hC
    refine { h with harvest_length := by simp [enqueue, hEmpty], harvest_mem := ?_ }
    intro x hx
    simp only [enqueue, hEmpty, List.nil_append, List.mem_singleton] at hx
    subst hx
    exact ⟨(hPend.inv (.inr hi)).complete_of_last hi hC, hPend.pos_new rfl, hPend.down_new rfl⟩
  cases hPass with
  | forward hi =>
    refine { h with lanes_new := ?_ }
    intro j w' x hx
    simp only [forward, setLane] at hx
    split at hx
    · rcases List.mem_append.mp hx with hx | hx
      · exact h.lanes_new _ _ x hx
      · rw [List.mem_singleton.mp hx]
    · exact h.lanes_new _ _ x hx
  | drop _ => exact h
  | giveUp hi hC => exact hEnqueue _ hi (hC rfl)
  | answerAll hi _ hC => exact hEnqueue _ hi hC
  | answerOne _ hDup _ => exact absurd hDup (by simp)

theorem arriveNew (h : Single L s) {w : W} {rest : List ℕ}
    (hUp : s.up w = s.count 0 w :: rest) : Single L (bump (setUp s w rest) 0 w) := by
  have hRest : rest = [] := by
    rcases h.up w with hNil | ⟨hOne, -⟩
    · rw [hNil] at hUp
      exact absurd hUp (by simp)
    · rw [hOne] at hUp
      exact (List.cons.inj hUp).2.symm
  refine { h with up := fun w' => ?_, harvest_mem := fun x hx => ?_ }
  · by_cases hw : w' = w
    · subst hw
      simp [bump, setUp, hRest]
    · simpa [bump, setUp, hw] using h.up w'
  · obtain ⟨hC, hRest⟩ := h.harvest_mem x hx
    exact ⟨fun i hi => Core.complete_mono (Core.le_bump _ 0 w) (hC i hi), hRest⟩

theorem passNew (h : Single L s) {i : ℕ} {w : W} {x : ℕ × Bool} {rest : List (ℕ × Bool)}
    (hLane : s.lane (i + 1) w = x :: rest) :
    Single L (bump (setLane s (i + 1) w rest) (i + 1) w) := by
  refine { h with up := fun w' => ?_, lanes_new := ?_, harvest_mem := fun x hx => ?_ }
  · simpa [bump, setLane] using h.up w'
  · intro j w' y hy
    simp only [bump, setLane] at hy
    split at hy
    · next hEq =>
      exact h.lanes_new (i + 1) w y (by rw [hLane]; exact List.mem_cons_of_mem _ hy)
    · exact h.lanes_new j w' y hy
  · obtain ⟨hC, hRest⟩ := h.harvest_mem x hx
    exact ⟨fun j hj => Core.complete_mono (Core.le_bump _ (i + 1) w) (hC j hj), hRest⟩

theorem setDown (h : Single L s) {w : W} {l : List ℕ} (hl : l.Sublist (s.down w)) :
    Single L (setDown s w l) := by
  refine { h with harvest_mem := fun x hx => ?_ }
  obtain ⟨hC, hPos, hDown⟩ := h.harvest_mem x hx
  refine ⟨hC, hPos, fun w' t ht => ?_⟩
  by_cases hw : w' = w
  · subst hw
    exact hDown w' t (hl.subset (by simpa [Staged.setDown] using ht))
  · exact hDown w' t (by simpa [Staged.setDown, hw] using ht)

omit [DecidableEq W] in
/-- After a reply the source has nothing on the way. -/
theorem after_reply (h : Single L s) (hInv : Inv L s) (hL : 0 < L) {w : W}
    {rest : List ℕ} (hDown : s.down w = s.pos w :: rest) :
    s.up w = [] ∧ s.count 0 w = s.pos w + 1 := by
  have hTaken := (hInv.down_mem w _ (by rw [hDown]; exact List.mem_cons_self)).1 0 hL w
  have hCount := hInv.count_le w
  refine ⟨?_, by omega⟩
  rcases h.up w with hNil | ⟨-, hEq⟩
  · exact hNil
  · omega

theorem advance (h : Single L s) (hInv : Inv L s) (hL : 0 < L) {w : W} {k : ℕ}
    {rest : List ℕ} (hDown : s.down w = k :: rest) (hParity : k % 2 = s.pos w % 2) :
    Single L { Staged.setDown s w rest with pos := Function.update s.pos w (s.pos w + 1) } := by
  obtain rfl := hInv.reply_current hL hDown hParity
  have hRest := h.setDown (w := w) (l := rest) (by rw [hDown]; exact List.sublist_cons_self _ _)
  refine { hRest with up := fun w' => ?_, harvest_mem := fun x hx => ?_ }
  · by_cases hw : w' = w
    · subst hw
      exact .inl (h.after_reply hInv hL hDown).1
    · simpa [Staged.setDown, hw] using h.up w'
  · obtain ⟨hC, hPos, hLt⟩ := hRest.harvest_mem x hx
    refine ⟨hC, fun w' => ?_, hLt⟩
    by_cases hw : w' = w
    · subst hw
      simp only [Function.update_self]
      exact (h.harvest_mem x hx).2.2 w' _ (by rw [hDown]; exact List.mem_cons_self)
    · simpa [Staged.setDown, hw] using hPos w'

/-- **Step lemma**, if nothing is sent twice. -/
theorem step (h : Single L s) (hInv : Inv L s) (hL : 0 < L) (hStep : Step L true s s') :
    Single L s' := by
  cases hStep with
  | send w hOnce =>
    obtain ⟨hUp, hCount⟩ := hOnce rfl
    refine { h with up := fun w' => ?_ }
    by_cases hw : w' = w
    · subst hw
      exact .inr ⟨by simp [setUp, hUp], hCount⟩
    · simpa [setUp, hw] using h.up w'
  | @loseUp w l hl =>
    refine { h with up := fun w' => ?_ }
    by_cases hw : w' = w
    · subst hw
      rcases h.up w' with hNil | ⟨hOne, hCount⟩
      · exact .inl (by simpa [setUp, hNil] using hl)
      · rw [hOne, List.sublist_singleton] at hl
        rcases hl with rfl | rfl
        · exact .inl (by simp [setUp])
        · exact .inr ⟨by simp [setUp], hCount⟩
    · simpa [setUp, hw] using h.up w'
  | loseDown w hl => exact h.setDown hl
  | advance w hDown hParity => exact h.advance hInv hL hDown hParity
  | arriveNew w hUp hPass =>
    refine (h.arriveNew hUp).passed (hInv.arriveNew hL hUp) ?_ ?_ hPass
    · exact (hInv.up_mem w _ (by rw [hUp]; exact List.mem_cons_self)).2
    · exact fun x hx => (h.harvest_mem x hx).1 0 hL w
  | arriveDup w hUp hk _ =>
    rcases h.up w with hNil | ⟨hOne, hCount⟩
    · rw [hNil] at hUp
      exact absurd hUp (by simp)
    · rw [hOne] at hUp
      have := (List.cons.inj hUp).1
      omega
  | passNew i w hi hLane hPass =>
    have hHere := hInv.lanes i hi w
    rw [hLane] at hHere
    have hBefore := hHere.2.le
    have hAnti := hInv.count_anti (Nat.zero_le i) (by omega) w
    have hCount := hInv.count_le w
    refine (h.passNew hLane).passed (hInv.passNew hi hLane) ?_ ?_ hPass
    · have := hHere.1
      simp only [bump, setLane]
      omega
    · intro x hx
      have := (h.harvest_mem x hx).1 (i + 1) hi w
      rw [hHere.1]
      exact this
  | passDup i w hi hLane _ =>
    have := h.lanes_new (i + 1) w _ (by rw [hLane]; exact List.mem_cons_self)
    exact absurd this (by simp)
  | @reply d k rest hHarvest =>
    have hNil : rest = [] := by
      have := h.harvest_length
      rw [hHarvest, List.length_cons] at this
      exact List.length_eq_zero_iff.mp (by omega)
    subst hNil
    exact { h with harvest_length := by simp [emit], harvest_mem := by simp [emit] }

end Single

end Staged
