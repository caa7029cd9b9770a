import Mathlib.Data.Int.Notation
import Mathlib.Data.Nat.Notation
import Mathlib.Logic.Function.Basic
import SwitchML.Lib.Linked

/-!
# SwitchML client — the queue of timeouts

`TimeoutQueue` of the client: an array of entries linked both ways, the newest first,
with an extra entry at the end of the array as the tail. Links that lead nowhere are
`-1`.

* `Recency` — what the queue is for, as operations on a list of live entries;
* `TimeoutQueue.Represents` — the array holds such a list;
  `TimeoutQueue.Represents.run` is the refinement of whole runs;
* `timeoutQueue_is_recency` — what this says about the links of the array and about
  `top` and `bottom`.
-/

namespace SwitchML.Client

open LinkedList

abbrev Timestamp := BitVec 64

structure TimeoutEntry where
  timestamp : Timestamp := 0
  next : ℤ := -1
  previous : ℤ := -1
deriving DecidableEq, Repr

/-- `entries` has `numEntries` entries and the tail. -/
structure TimeoutQueue where
  numEntries : ℕ
  entries : ℤ → TimeoutEntry
  head : ℤ

namespace TimeoutQueue

def init (numEntries : ℕ) : TimeoutQueue where
  numEntries := numEntries
  entries := fun _ => {}
  head := numEntries

variable (q : TimeoutQueue)

/-- The links of the array. -/
def links : Links ℤ where
  next i := (q.entries i).next
  prev i := (q.entries i).previous
  head := q.head

def modify (index : ℤ) (f : TimeoutEntry → TimeoutEntry) : TimeoutQueue :=
  { q with entries := Function.update q.entries index (f (q.entries index)) }

/-- Not the tail. The comparison with the size of the array is unsigned, so that it fails
for a negative index. -/
def isEntry (index : ℤ) : Bool := decide (0 ≤ index ∧ index < q.numEntries)

def remove (index : ℤ) : TimeoutQueue :=
  if q.isEntry index then
    let q := if (q.entries index).previous ≠ -1 then
        q.modify (q.entries index).previous fun e => { e with next := (q.entries index).next }
      else q
    let q := if (q.entries index).next ≠ -1 then
        q.modify (q.entries index).next fun e => { e with previous := (q.entries index).previous }
      else q
    let q := if q.head = index then { q with head := (q.entries index).next } else q
    q.modify index fun _ => {}
  else q

def push (index : ℤ) (timestamp : Timestamp) : TimeoutQueue :=
  if q.isEntry index then
    let q := q.remove index
    let q := q.modify index fun _ => { timestamp, previous := -1, next := q.head }
    let q := q.modify q.head fun e => { e with previous := index }
    { q with head := index }
  else q

def pop : TimeoutQueue := q.remove q.head

/-- The newest entry, the tail if there is none. -/
def top : ℤ × Timestamp := (q.head, (q.entries q.head).timestamp)

/-- The oldest entry, `-1` if there is none. -/
def bottom : ℤ × Timestamp :=
  let tail := (q.entries q.numEntries).previous
  (tail, if tail ≠ -1 then (q.entries tail).timestamp else 0)

end TimeoutQueue

-- ---------------------------------------------------------------------------
-- Recency queues
-- ---------------------------------------------------------------------------

/-- What the queue is for: the entries that wait for their timeout, the newest first. -/
abbrev Recency := List (ℤ × Timestamp)

namespace Recency

variable (live : Recency)

def remove (index : ℤ) : Recency := live.filter fun e => e.1 ≠ index

def push (numEntries : ℕ) (index : ℤ) (timestamp : Timestamp) : Recency :=
  if 0 ≤ index ∧ index < numEntries then (index, timestamp) :: live.remove index else live

def pop : Recency := live.tail

end Recency

/-- The array holds the entries of a recency queue. -/
structure TimeoutQueue.Represents (q : TimeoutQueue) (live : Recency) : Prop where
  inRange : ∀ e ∈ live, 0 ≤ e.1 ∧ e.1 < q.numEntries
  linked : Linked (-1) (q.numEntries : ℤ) q.links (live.map Prod.fst)
  timestamp : ∀ e ∈ live, (q.entries e.1).timestamp = e.2
  cleared : ∀ i ∉ live.map Prod.fst, (q.entries i).timestamp = 0

namespace TimeoutQueue

variable {q : TimeoutQueue} {live : Recency}

theorem represents_init (n : ℕ) : (init n).Represents [] where
  inRange := by simp
  linked := linked_nil (by omega)
  timestamp := by simp
  cleared _ _ := rfl

theorem modify_entries_self (index : ℤ) (f : TimeoutEntry → TimeoutEntry) :
    (q.modify index f).entries index = f (q.entries index) := Function.update_self ..

theorem modify_entries_of_ne {index i : ℤ} (h : i ≠ index) (f : TimeoutEntry → TimeoutEntry) :
    (q.modify index f).entries i = q.entries i := Function.update_of_ne h ..

/-- A link on is set. -/
theorem links_modify_next (index target : ℤ) :
    (q.modify index fun e => { e with next := target }).links =
      { q.links with next := Function.update q.links.next index target } := by
  unfold links modify
  congr 1 <;> funext i <;> by_cases hi : i = index <;> simp [hi]

/-- A link back is set. -/
theorem links_modify_previous (index target : ℤ) :
    (q.modify index fun e => { e with previous := target }).links =
      { q.links with prev := Function.update q.links.prev index target } := by
  unfold links modify
  congr 1 <;> funext i <;> by_cases hi : i = index <;> simp [hi]

theorem modify_timestamp (index : ℤ) {f : TimeoutEntry → TimeoutEntry}
    (hf : ∀ e, (f e).timestamp = e.timestamp) (i : ℤ) :
    ((q.modify index f).entries i).timestamp = (q.entries i).timestamp := by
  by_cases hi : i = index
  · rw [hi, modify_entries_self, hf]
  · rw [modify_entries_of_ne hi]

theorem links_modify_clear (index : ℤ) :
    (q.modify index fun _ => {}).links =
      { q.links with
        next := Function.update q.links.next index (-1)
        prev := Function.update q.links.prev index (-1) } := by
  unfold links modify
  congr 1 <;> funext i <;> by_cases hi : i = index <;> simp [hi]

/-- `remove` takes an entry out of the list. -/
theorem remove_links {index : ℤ} (hEntry : q.isEntry index = true)
    (hPrev : (q.entries index).previous ≠ index) (hNext : (q.entries index).next ≠ index) :
    (q.remove index).links = q.links.unlink (-1) index := by
  unfold remove
  rw [if_pos hEntry]
  extract_lets q₁ q₂ q₃
  -- the neighbours are other entries, so that this one is read unchanged
  have hFirst : q₁.entries index = q.entries index := by
    unfold q₁
    split
    · exact modify_entries_of_ne hPrev.symm _
    · rfl
  have hSecond : q₂.entries index = q.entries index := by
    unfold q₂
    rw [hFirst]
    split
    · rw [modify_entries_of_ne hNext.symm, hFirst]
    · exact hFirst
  have hNexts : q₁.links = Links.mk
      (if q.links.prev index ≠ -1 then
        Function.update q.links.next (q.links.prev index) (q.links.next index) else q.links.next)
      q.links.prev q.links.head := by
    unfold q₁
    split
    · next h =>
      rw [links_modify_next, if_pos (show q.links.prev index ≠ -1 from h)]
      rfl
    · next h => rw [if_neg (show ¬ q.links.prev index ≠ -1 from h)]
  have hPrevs : q₂.links = Links.mk q₁.links.next
      (if q.links.next index ≠ -1 then
        Function.update q.links.prev (q.links.next index) (q.links.prev index) else q.links.prev)
      q.links.head := by
    unfold q₂
    rw [hFirst]
    split
    · next h =>
      rw [links_modify_previous, if_pos (show q.links.next index ≠ -1 from h), hNexts]
      rfl
    · next h => rw [if_neg (show ¬ q.links.next index ≠ -1 from h), hNexts]
  have hHead : q₃.links = Links.mk q₂.links.next q₂.links.prev
      (if q.links.head = index then q.links.next index else q.links.head) := by
    have hSame : q₂.head = q.links.head := congrArg Links.head hPrevs
    unfold q₃
    rw [hSame, hSecond]
    split
    · rfl
    · rw [← hSame]
      rfl
  rw [links_modify_clear, hHead, hPrevs, hNexts]
  rfl

theorem remove_timestamp {index : ℤ} (hEntry : q.isEntry index = true) (i : ℤ) :
    ((q.remove index).entries i).timestamp =
      if i = index then 0 else (q.entries i).timestamp := by
  unfold remove
  rw [if_pos hEntry]
  extract_lets q₁ q₂ q₃
  have hFirst : (q₁.entries i).timestamp = (q.entries i).timestamp := by
    unfold q₁
    split
    · rw [modify_timestamp]
      exact fun _ => rfl
    · rfl
  have hSecond : (q₂.entries i).timestamp = (q₁.entries i).timestamp := by
    unfold q₂
    split
    · rw [modify_timestamp]
      exact fun _ => rfl
    · rfl
  have hThird : q₃.entries = q₂.entries := by
    unfold q₃
    split <;> rfl
  split
  · next hi => rw [hi, modify_entries_self]
  · next hi => rw [modify_entries_of_ne hi, hThird, hSecond, hFirst]

@[simp] theorem remove_numEntries (index : ℤ) : (q.remove index).numEntries = q.numEntries := by
  unfold remove modify
  dsimp only
  split_ifs <;> rfl

theorem isEntry_iff {index : ℤ} : q.isEntry index = true ↔ 0 ≤ index ∧ index < q.numEntries :=
  decide_eq_true_iff

end TimeoutQueue

-- ---------------------------------------------------------------------------
-- The operations
-- ---------------------------------------------------------------------------

namespace TimeoutQueue.Represents

variable {q : TimeoutQueue} {live : Recency}

theorem indices_nodup (h : q.Represents live) : (live.map Prod.fst).Nodup :=
  (List.nodup_append.mp (List.nodup_cons.mp h.linked.nodup).2).1

theorem notMem_of_notEntry (h : q.Represents live) {index : ℤ} (hEntry : q.isEntry index ≠ true) :
    index ∉ live.map Prod.fst := by
  intro hMem
  obtain ⟨e, he, rfl⟩ := List.mem_map.mp hMem
  exact hEntry (isEntry_iff.mpr (h.inRange e he))

theorem map_remove (h : q.Represents live) (index : ℤ) :
    (live.remove index).map Prod.fst = (live.map Prod.fst).erase index := by
  rw [h.indices_nodup.erase_eq_filter, Recency.remove, List.filter_map]
  congr 1
  exact List.filter_congr fun e _ => by simp [bne, beq_eq_decide]

/-- An index that is not in the queue is not removed from it. -/
theorem remove_eq_self {index : ℤ} (hMem : index ∉ live.map Prod.fst) : live.remove index = live :=
  List.filter_eq_self.mpr fun e he => by
    have hNe : e.1 ≠ index := fun hEq => hMem (hEq ▸ List.mem_map_of_mem he)
    simpa using hNe

theorem remove (h : q.Represents live) (index : ℤ) :
    (q.remove index).Represents (live.remove index) := by
  by_cases hEntry : q.isEntry index = true
  swap
  · have hSame : q.remove index = q := by simp [TimeoutQueue.remove, hEntry]
    rw [hSame, remove_eq_self (h.notMem_of_notEntry hEntry)]
    exact h
  obtain ⟨hLow, hHigh⟩ := isEntry_iff.mp hEntry
  have hTail : index ≠ q.numEntries := by omega
  obtain ⟨hPrev, hNext⟩ := h.linked.ne_self hTail (by omega)
  refine ⟨fun e he => ?_, ?_, fun e he => ?_, fun i hi => ?_⟩
  · rw [remove_numEntries]
    exact h.inRange e (List.mem_filter.mp he).1
  · rw [remove_numEntries, remove_links hEntry hPrev hNext, h.map_remove]
    exact h.linked.unlink hTail
  · obtain ⟨he, hNe⟩ := List.mem_filter.mp he
    rw [remove_timestamp hEntry, if_neg (by simpa using hNe), h.timestamp e he]
  · rw [remove_timestamp hEntry]
    split
    · rfl
    · next hNe =>
      rw [h.map_remove, List.mem_erase_of_ne hNe] at hi
      exact h.cleared i hi

/-- The part of `push` behind the call of `remove`. -/
theorem insert (h : q.Represents live) {index : ℤ} (hEntry : q.isEntry index = true)
    (hMem : index ∉ live.map Prod.fst) (timestamp : Timestamp) :
    let q₁ := q.modify index fun _ => { timestamp, previous := -1, next := q.head }
    let q₂ := q₁.modify q₁.head fun e => { e with previous := index }
    { q₂ with head := index }.Represents ((index, timestamp) :: live) := by
  intro q₁ q₂
  obtain ⟨hLow, hHigh⟩ := isEntry_iff.mp hEntry
  have hLinks : { q₂ with head := index }.links = q.links.pushFront (-1) index := by
    have hFirst : q₁.links = Links.mk (Function.update q.links.next index q.links.head)
        (Function.update q.links.prev index (-1)) q.links.head := by
      unfold q₁ links modify
      congr 1 <;> funext i <;> by_cases hi : i = index <;> simp [hi]
    have hSecond : q₂.links = { q₁.links with
        prev := Function.update q₁.links.prev q.links.head index } := links_modify_previous _ _
    rw [hFirst] at hSecond
    exact congrArg (fun s : Links ℤ => { s with head := index }) hSecond
  have hTimes : ∀ i, (q₂.entries i).timestamp =
      if i = index then timestamp else (q.entries i).timestamp := by
    intro i
    have hSecond : (q₂.entries i).timestamp = (q₁.entries i).timestamp := by
      unfold q₂
      rw [modify_timestamp]
      exact fun _ => rfl
    rw [hSecond]
    split
    · next hi => rw [hi, modify_entries_self]
    · next hi => rw [modify_entries_of_ne hi]
  refine ⟨fun e he => ?_, ?_, fun e he => ?_, fun i hi => ?_⟩
  · rcases List.mem_cons.mp he with rfl | he
    · exact ⟨hLow, hHigh⟩
    · exact h.inRange e he
  · rw [hLinks]
    exact h.linked.pushFront hMem (by omega) (by omega)
  · rw [hTimes]
    rcases List.mem_cons.mp he with rfl | he
    · exact if_pos rfl
    · have hNe : e.1 ≠ index := fun hEq => hMem (hEq ▸ List.mem_map_of_mem he)
      rw [if_neg hNe, h.timestamp e he]
  · rw [List.map_cons, List.mem_cons, not_or] at hi
    rw [hTimes, if_neg hi.1, h.cleared i hi.2]

theorem push (h : q.Represents live) (index : ℤ) (timestamp : Timestamp) :
    (q.push index timestamp).Represents (live.push q.numEntries index timestamp) := by
  unfold TimeoutQueue.push Recency.push
  by_cases hEntry : q.isEntry index = true
  · rw [if_pos hEntry, if_pos (isEntry_iff.mp hEntry)]
    refine (h.remove index).insert ?_ ?_ timestamp
    · rw [isEntry_iff, remove_numEntries]
      exact isEntry_iff.mp hEntry
    · rw [h.map_remove]
      exact h.indices_nodup.not_mem_erase
  · rw [if_neg hEntry, if_neg (mt isEntry_iff.mpr hEntry)]
    exact h

/-- The list starts at the head of the queue. -/
theorem head_eq (h : q.Represents live) : q.head = (live.head?.map Prod.fst).getD q.numEntries := by
  obtain ⟨c, hc, -⟩ := h.linked.head_cons
  cases live with
  | nil => exact (List.cons.inj hc).1.symm
  | cons e live => exact (List.cons.inj hc).1.symm

theorem pop (h : q.Represents live) : q.pop.Represents live.pop := by
  have hRemove := h.remove q.head
  have hHead := h.head_eq
  cases live with
  | nil => exact hRemove
  | cons e live =>
    have hNotMem : e.1 ∉ live.map Prod.fst := (List.nodup_cons.mp h.indices_nodup).1
    have hTail : Recency.remove (e :: live) e.1 = live := by
      rw [Recency.remove, List.filter_cons_of_neg (by simp)]
      exact remove_eq_self hNotMem
    rw [hHead, List.head?_cons, Option.map_some, Option.getD_some, hTail] at hRemove
    rw [TimeoutQueue.pop, hHead]
    exact hRemove

theorem top (h : q.Represents live) : q.top = live.head?.getD (q.numEntries, 0) := by
  have hHead := h.head_eq
  unfold TimeoutQueue.top
  cases live with
  | nil =>
    rw [hHead]
    exact Prod.ext rfl (h.cleared _ (by simp))
  | cons e live =>
    rw [hHead]
    exact Prod.ext rfl (h.timestamp e List.mem_cons_self)

theorem bottom (h : q.Represents live) : q.bottom = live.getLast?.getD (-1, 0) := by
  have hTail : (q.entries q.numEntries).previous = _ := h.linked.prev_tail
  unfold TimeoutQueue.bottom
  rw [hTail, List.getLast?_map]
  cases hLast : live.getLast? with
  | none => rfl
  | some e =>
    have he := List.mem_of_getLast? hLast
    have hNe : e.1 ≠ -1 := by
      have := (h.inRange e he).1
      omega
    simp [hNe, h.timestamp e he]

end TimeoutQueue.Represents

-- ---------------------------------------------------------------------------
-- Runs
-- ---------------------------------------------------------------------------

inductive TimeoutOp where
  | push (index : ℤ) (timestamp : Timestamp)
  | remove (index : ℤ)
  | pop

def TimeoutQueue.apply (q : TimeoutQueue) : TimeoutOp → TimeoutQueue
  | .push index timestamp => q.push index timestamp
  | .remove index => q.remove index
  | .pop => q.pop

def Recency.apply (numEntries : ℕ) (live : Recency) : TimeoutOp → Recency
  | .push index timestamp => live.push numEntries index timestamp
  | .remove index => live.remove index
  | .pop => live.pop

/-- The timestamps that are pushed, in order. -/
def pushTimes (ops : List TimeoutOp) : List Timestamp :=
  ops.filterMap fun
    | .push _ timestamp => some timestamp
    | _ => none

theorem TimeoutQueue.apply_numEntries (q : TimeoutQueue) (op : TimeoutOp) :
    (q.apply op).numEntries = q.numEntries := by
  cases op with
  | push index timestamp =>
    show (q.push index timestamp).numEntries = _
    unfold TimeoutQueue.push
    split
    · exact remove_numEntries index
    · rfl
  | remove index => exact remove_numEntries index
  | pop => exact remove_numEntries q.head

/-- **Step lemma.** -/
theorem TimeoutQueue.Represents.apply {q : TimeoutQueue} {live : Recency} (h : q.Represents live)
    (op : TimeoutOp) : (q.apply op).Represents (live.apply q.numEntries op) := by
  cases op with
  | push index timestamp => exact h.push index timestamp
  | remove index => exact h.remove index
  | pop => exact h.pop

/-- **Run lemma.** -/
theorem TimeoutQueue.Represents.run {q : TimeoutQueue} {live : Recency} (h : q.Represents live)
    (ops : List TimeoutOp) :
    (ops.foldl TimeoutQueue.apply q).Represents (ops.foldl (Recency.apply q.numEntries) live) ∧
      (ops.foldl TimeoutQueue.apply q).numEntries = q.numEntries := by
  induction ops generalizing q live with
  | nil => exact ⟨h, rfl⟩
  | cons op ops ih =>
    have hStep := ih (h.apply op)
    rw [apply_numEntries] at hStep
    exact hStep

/-- The newest first, and nothing that is still to be pushed is older. -/
structure Recency.Sorted (live : Recency) (times : List Timestamp) : Prop where
  sorted : live.Pairwise fun a b => b.2 ≤ a.2
  later : ∀ e ∈ live, ∀ t ∈ times, e.2 ≤ t

theorem Recency.Sorted.sublist {live live' : Recency} {times : List Timestamp}
    (h : live.Sorted times) (hSub : live'.Sublist live) : live'.Sorted times :=
  ⟨h.sorted.sublist hSub, fun e he => h.later e (hSub.subset he)⟩

/-- While timestamps do not decrease, the queue stays sorted. -/
theorem Recency.sorted_run (n : ℕ) (ops : List TimeoutOp) {live : Recency}
    (h : live.Sorted (pushTimes ops)) (hTimes : (pushTimes ops).Pairwise (· ≤ ·)) :
    (ops.foldl (Recency.apply n) live).Sorted [] := by
  induction ops generalizing live with
  | nil => exact h
  | cons op ops ih =>
    cases op with
    | push index timestamp =>
      have hCons : pushTimes (.push index timestamp :: ops) = timestamp :: pushTimes ops := rfl
      rw [hCons] at h hTimes
      obtain ⟨hFirst, hTimes⟩ := List.pairwise_cons.mp hTimes
      have hRest : live.Sorted (pushTimes ops) :=
        ⟨h.sorted, fun e he t ht => h.later e he t (List.mem_cons_of_mem _ ht)⟩
      refine ih ?_ hTimes
      show (live.push n index timestamp).Sorted _
      unfold Recency.push
      split
      · have hGone : (live.remove index).Sublist live := List.filter_sublist
        refine ⟨List.pairwise_cons.mpr ⟨fun e he => ?_, h.sorted.sublist hGone⟩,
          fun e he t ht => ?_⟩
        · exact h.later e (hGone.subset he) timestamp List.mem_cons_self
        · rcases List.mem_cons.mp he with rfl | he
          · exact hFirst t ht
          · exact hRest.later e (hGone.subset he) t ht
      · exact hRest
    | remove index => exact ih (h.sublist List.filter_sublist) hTimes
    | pop => exact ih (h.sublist (List.tail_sublist live)) hTimes

/-- The last one of a sorted queue is the oldest. -/
theorem Recency.Sorted.last_le {live : Recency} {times : List Timestamp} (h : live.Sorted times)
    {e : ℤ × Timestamp} (he : e ∈ live) : (live.getLast?.getD (-1, 0)).2 ≤ e.2 := by
  rcases List.eq_nil_or_concat' live with rfl | ⟨front, last, rfl⟩
  · simp at he
  · rw [List.getLast?_concat, Option.getD_some]
    rcases List.mem_append.mp he with he | he
    · exact (List.pairwise_append.mp h.sorted).2.2 e he last (List.mem_singleton_self _)
    · rw [List.mem_singleton.mp he]
      exact BitVec.le_refl _

/-- **`TimeoutQueue` is a recency queue.** After any sequence of operations the array holds
the entries that the operations leave in a list, the newest first: the links lead from the
head through exactly these to the tail and back the same way, all other entries have no
links, `top` and `bottom` are the ends of the list, and if timestamps do not decrease,
`bottom` is the oldest entry. -/
theorem timeoutQueue_is_recency (n : ℕ) (ops : List TimeoutOp) :
    let q := ops.foldl TimeoutQueue.apply (TimeoutQueue.init n)
    let live := ops.foldl (Recency.apply n) []
    let path := live.map Prod.fst ++ [(n : ℤ)]
    path.Nodup ∧ (∀ e ∈ live, 0 ≤ e.1 ∧ e.1 < n ∧ (q.entries e.1).timestamp = e.2) ∧
    (∀ (k : ℕ) (hk : k < path.length), (fun i => (q.entries i).next)^[k] q.head = path[k]) ∧
    (∀ a ∈ path, ∀ b ∈ path, (q.entries a).next = b ↔ (q.entries b).previous = a) ∧
    (q.entries q.head).previous = -1 ∧ (q.entries n).next = -1 ∧
    (∀ i ∉ path, (q.entries i).next = -1 ∧ (q.entries i).previous = -1) ∧
    q.top = live.head?.getD (n, 0) ∧ q.bottom = live.getLast?.getD (-1, 0) ∧
    (q.bottom = (-1, 0) ↔ live = []) ∧
    ((pushTimes ops).Pairwise (· ≤ ·) → ∀ e ∈ live, q.bottom.2 ≤ e.2) := by
  intro q live path
  obtain ⟨hRep, hNum⟩ : q.Represents live ∧ q.numEntries = n :=
    (TimeoutQueue.represents_init n).run ops
  have hLinked := hRep.linked
  have hTop := hRep.top
  rw [hNum] at hLinked hTop
  have hBottom := hRep.bottom
  refine ⟨(List.nodup_cons.mp hLinked.nodup).2, fun e he => ?_, hLinked.iterate_next,
    fun a ha b hb => hLinked.next_eq_iff ha hb, ?_, hLinked.last, hLinked.dead, hTop, hBottom, ?_,
    fun hTimes e he => ?_⟩
  · have hRange := hRep.inRange e he
    rw [hNum] at hRange
    exact ⟨hRange.1, hRange.2, hRep.timestamp e he⟩
  · obtain ⟨c, -, hFirst, -⟩ := hLinked.head_cons
    exact hFirst
  · rw [hBottom]
    rcases List.eq_nil_or_concat' live with hEmpty | ⟨front, last, hLast⟩
    · simp [hEmpty]
    · have hRange := hRep.inRange last (by simp [hLast])
      have hNe : last ≠ (-1, 0) := by
        rintro rfl
        exact absurd hRange.1 (by decide)
      simpa [hLast] using hNe
  · rw [hBottom]
    have hStart : Recency.Sorted [] (pushTimes ops) := ⟨.nil, by simp⟩
    exact (Recency.sorted_run n ops hStart hTimes).last_le he

end SwitchML.Client
