import Mathlib.Data.List.Chain
import Mathlib.Data.List.Nodup
import Mathlib.Logic.Function.Iterate

/-!
# Doubly linked lists in an arena

Cells named by the elements of any type are linked both ways. A name `nil` stands for
no cell, and the list ends with a cell `tail` that is never taken out.

* `Links.unlink`, `Links.pushFront` — take a cell out, and put one in front;
* `Linked` — the cells between the head and `tail` are those of a list, in order, and
  all other cells have no links;
* `Linked.unlink`, `Linked.pushFront` — the operations erase from the list and add to it.

The head is treated as the link that leads on from `nil` (`Links.after`). With it every
cell of the list has a cell before it and one behind it, and taking a cell out is one case.
-/

namespace LinkedList

variable {ι : Type} [DecidableEq ι]

/-- The links of the cells, and the cell the list starts with. -/
structure Links (ι : Type) where
  next : ι → ι
  prev : ι → ι
  head : ι

namespace Links

variable (nil : ι) (s : Links ι)

/-- Join the neighbours of a cell, and clear its own links. -/
def unlink (i : ι) : Links ι where
  next := Function.update
    (if s.prev i ≠ nil then Function.update s.next (s.prev i) (s.next i) else s.next) i nil
  prev := Function.update
    (if s.next i ≠ nil then Function.update s.prev (s.next i) (s.prev i) else s.prev) i nil
  head := if s.head = i then s.next i else s.head

/-- Put a cell in front of the list. -/
def pushFront (i : ι) : Links ι where
  next := Function.update s.next i s.head
  prev := Function.update (Function.update s.prev i nil) s.head i
  head := i

/-- Where to go on from a cell, or, from no cell, where to start. -/
def after (a : ι) : ι := if a = nil then s.head else s.next a

/-- The links between two neighbours. -/
def Joined (a b : ι) : Prop := s.after nil a = b ∧ s.prev b = a

end Links

/-- The cells of `l`, and after them `tail`, are linked in this order. -/
structure Linked (nil tail : ι) (s : Links ι) (l : List ι) : Prop where
  nodup : (nil :: (l ++ [tail])).Nodup
  chain : (nil :: (l ++ [tail])).IsChain (s.Joined nil)
  last : s.next tail = nil
  dead : ∀ i ∉ l ++ [tail], s.next i = nil ∧ s.prev i = nil

section Operations

variable {nil tail : ι} {s : Links ι} {l : List ι}

theorem linked_nil (hTail : nil ≠ tail) :
    Linked nil tail ⟨fun _ => nil, fun _ => nil, tail⟩ [] where
  nodup := by simpa using hTail
  chain := by simp [Links.Joined, Links.after]
  last := rfl
  dead _ _ := ⟨rfl, rfl⟩

/-- The list starts with the head. -/
theorem Linked.head_cons (h : Linked nil tail s l) :
    ∃ c, l ++ [tail] = s.head :: c ∧ s.prev s.head = nil ∧
      (s.head :: c).IsChain (s.Joined nil) := by
  obtain ⟨j, c, hc⟩ : ∃ j c, l ++ [tail] = j :: c := List.exists_cons_of_ne_nil (by simp)
  have hChain := h.chain
  rw [hc, List.isChain_cons_cons] at hChain
  obtain rfl : s.head = j := by simpa [Links.after] using hChain.1.1
  exact ⟨c, hc, hChain.1.2, hChain.2⟩

theorem Linked.head_mem (h : Linked nil tail s l) : s.head ∈ l ++ [tail] := by
  obtain ⟨c, hc, -⟩ := h.head_cons
  exact hc ▸ List.mem_cons_self

/-- A cell that is not in the list has nothing to be taken out of. -/
theorem Linked.unlink_of_notMem (h : Linked nil tail s l) {i : ι} (hi : i ∉ l) (hTail : i ≠ tail) :
    s.unlink nil i = s := by
  have hOut : i ∉ l ++ [tail] := by simp [hi, hTail]
  obtain ⟨hNext, hPrev⟩ := h.dead i hOut
  have hHead : s.head ≠ i := fun hEq => hOut (hEq ▸ h.head_mem)
  unfold Links.unlink
  simp only [hNext, hPrev, ne_eq, not_true_eq_false, if_false, if_neg hHead]
  rw [Function.update_eq_self_iff.mpr hNext.symm, Function.update_eq_self_iff.mpr hPrev.symm]

theorem Links.unlink_next_of_ne {i x : ι} (hx : x ≠ i) (hPrev : x = s.prev i → x = nil) :
    (s.unlink nil i).next x = s.next x := by
  simp only [Links.unlink, Function.update_of_ne hx]
  split
  · next hNil => exact Function.update_of_ne (fun hEq => hNil (hEq.symm.trans (hPrev hEq))) _ _
  · rfl

theorem Links.unlink_prev_of_ne {i y : ι} (hy : y ≠ i) (hNext : y ≠ s.next i) :
    (s.unlink nil i).prev y = s.prev y := by
  simp only [Links.unlink, Function.update_of_ne hy]
  split
  · exact Function.update_of_ne hNext _ _
  · rfl

/-- Neighbours other than the cell that is taken out stay neighbours. -/
theorem Links.Joined.unlink {i x y : ι} (hIn : s.after nil (s.prev i) = i)
    (hOut : s.prev (s.next i) = i) (h : s.Joined nil x y) (hx : x ≠ i) (hy : y ≠ i) :
    (s.unlink nil i).Joined nil x y := by
  have hx' : x ≠ s.prev i := fun hEq => hy (h.1.symm.trans (hEq ▸ hIn))
  have hy' : y ≠ s.next i := fun hEq => hx (h.2.symm.trans (hEq ▸ hOut))
  refine ⟨?_, (Links.unlink_prev_of_ne hy hy').trans h.2⟩
  unfold Links.after
  split
  · next hNil =>
    have hHead : s.head = y := by simpa [Links.after, hNil] using h.1
    simp [Links.unlink, hHead, hy]
  · next hNil =>
    rw [Links.unlink_next_of_ne hx fun hEq => absurd hEq hx']
    simpa [Links.after, hNil] using h.1

/-- The neighbours of the cell become neighbours. -/
theorem Links.joined_unlink {i : ι} (hIn : s.after nil (s.prev i) = i) (hPrev : s.prev i ≠ i)
    (hNext : s.next i ≠ i) (hNil : s.next i ≠ nil) :
    (s.unlink nil i).Joined nil (s.prev i) (s.next i) := by
  constructor
  · unfold Links.after at hIn ⊢
    split at hIn
    · next hFirst => simp [Links.unlink, hFirst, hIn]
    · next hFirst => simp [Links.unlink, hFirst, Function.update_of_ne hPrev]
  · simp [Links.unlink, hNil, Function.update_of_ne hNext]

/-- The cells around a cell of the list. -/
theorem Linked.around (h : Linked nil tail s l) {i : ι} (hi : i ∈ l) :
    ∃ a k j c, nil :: (l ++ [tail]) = a ++ k :: i :: j :: c ∧
      nil :: (l.erase i ++ [tail]) = a ++ k :: j :: c ∧ i ∉ a ++ k :: j :: c ∧
      (a ++ k :: j :: c).Nodup := by
  obtain ⟨a, b, -, rfl, hErase⟩ := List.exists_erase_eq hi
  obtain ⟨a', k, hk⟩ : ∃ a' k, nil :: a = a' ++ [k] :=
    (List.eq_nil_or_concat' (nil :: a)).resolve_left (List.cons_ne_nil _ _)
  obtain ⟨j, c, hj⟩ : ∃ j c, b ++ [tail] = j :: c := List.exists_cons_of_ne_nil (by simp)
  have hBefore : nil :: (a ++ i :: b ++ [tail]) = a' ++ k :: i :: j :: c := by
    have hSplit : nil :: (a ++ i :: b ++ [tail]) = (nil :: a) ++ i :: (b ++ [tail]) := by simp
    rw [hSplit, hk, hj, List.append_assoc, List.singleton_append]
  have hAfter : nil :: (a ++ b ++ [tail]) = a' ++ k :: j :: c := by
    have hSplit : nil :: (a ++ b ++ [tail]) = (nil :: a) ++ (b ++ [tail]) := by simp
    rw [hSplit, hk, hj, List.append_assoc, List.singleton_append]
  have hMiddle : (a' ++ k :: i :: j :: c).Perm (i :: (a' ++ k :: j :: c)) := by
    have hPerm : (a' ++ [k] ++ i :: j :: c).Perm (i :: (a' ++ [k] ++ j :: c)) := List.perm_middle
    simpa using hPerm
  have hNodup := h.nodup
  rw [hBefore, hMiddle.nodup_iff, List.nodup_cons] at hNodup
  exact ⟨a', k, j, c, hBefore, by rw [hErase, hAfter], hNodup⟩

/-- No cell but `nil` and the tail is linked to itself. -/
theorem Linked.ne_self (h : Linked nil tail s l) {i : ι} (hTail : i ≠ tail) (hNil : i ≠ nil) :
    s.prev i ≠ i ∧ s.next i ≠ i := by
  by_cases hi : i ∈ l
  · obtain ⟨a, k, j, c, hBefore, -, hFresh, -⟩ := h.around hi
    have hChain := h.chain
    rw [hBefore, List.isChain_append_cons_cons, List.isChain_cons_cons] at hChain
    obtain ⟨-, hIn, hOut, -⟩ := hChain
    obtain rfl : s.prev i = k := hIn.2
    obtain rfl : s.next i = j := by simpa [Links.after, hNil] using hOut.1
    exact ⟨fun hEq => hFresh (by simp [hEq]), fun hEq => hFresh (by simp [hEq])⟩
  · obtain ⟨hNext, hPrev⟩ := h.dead i (by simp [hi, hTail])
    exact ⟨hPrev ▸ hNil.symm, hNext ▸ hNil.symm⟩

/-- **Taking a cell out erases it.** -/
theorem Linked.unlink (h : Linked nil tail s l) {i : ι} (hTail : i ≠ tail) :
    Linked nil tail (s.unlink nil i) (l.erase i) := by
  by_cases hi : i ∈ l
  swap
  · rw [h.unlink_of_notMem hi hTail, List.erase_of_not_mem hi]
    exact h
  obtain ⟨a, k, j, c, hBefore, hAfter, hFresh, hNodup⟩ := h.around hi
  have hChain := h.chain
  rw [hBefore, List.isChain_append_cons_cons, List.isChain_cons_cons] at hChain
  obtain ⟨hFront, hIn, hOut, hBack⟩ := hChain
  have hNil : i ≠ nil := fun hEq => hFresh (by rw [← hAfter, hEq]; exact List.mem_cons_self)
  obtain rfl : s.prev i = k := hIn.2
  obtain rfl : s.next i = j := by simpa [Links.after, hNil] using hOut.1
  have hKeep : ∀ l' ⊆ a ++ s.prev i :: s.next i :: c, l'.IsChain (s.Joined nil) →
      l'.IsChain ((s.unlink nil i).Joined nil) := fun l' hSub hl' =>
    hl'.imp_of_mem_imp fun x y hx hy hxy => hxy.unlink hIn.1 hOut.2
      (fun hEq => hFresh (hEq ▸ hSub hx)) (fun hEq => hFresh (hEq ▸ hSub hy))
  have hDead := h.dead nil (List.nodup_cons.mp h.nodup).1
  have hNext : s.next i ≠ nil := fun hEq => hNil (hOut.2.symm.trans (hEq ▸ hDead.2))
  have hTailNil : tail ≠ nil := fun hEq => (List.nodup_cons.mp h.nodup).1 (by simp [hEq])
  constructor
  · exact hAfter ▸ hNodup
  · rw [hAfter, List.isChain_append_cons_cons]
    obtain ⟨hPrevSelf, hNextSelf⟩ := h.ne_self hTail hNil
    exact ⟨hKeep _ (by simp) hFront, Links.joined_unlink hIn.1 hPrevSelf hNextSelf hNext,
      hKeep _ (by simp) hBack⟩
  · rw [Links.unlink_next_of_ne hTail.symm, h.last]
    intro hEq
    have hBack : s.next tail = i := by simpa [← hEq, Links.after, hTailNil] using hIn.1
    exact absurd (hBack.symm.trans h.last) hNil
  · intro x hx
    rcases eq_or_ne x i with rfl | hxi
    · simp [Links.unlink]
    have hOld : x ∉ l ++ [tail] := by
      simpa [List.mem_erase_of_ne hxi] using hx
    have hMem : ∀ y, y = s.prev i ∨ y = s.next i → y ∈ nil :: (l ++ [tail]) := by
      intro y hy
      rw [hBefore]
      rcases hy with rfl | rfl <;> simp
    obtain ⟨hxNext, hxPrev⟩ := h.dead x hOld
    constructor
    · rw [Links.unlink_next_of_ne hxi, hxNext]
      exact fun hEq => (List.mem_cons.mp (hMem x (.inl hEq))).resolve_right hOld
    · rw [Links.unlink_prev_of_ne hxi, hxPrev]
      rintro rfl
      exact hOld ((List.mem_cons.mp (hMem _ (.inr rfl))).resolve_left hNext)

/-- **Putting a cell in front.** -/
theorem Linked.pushFront (h : Linked nil tail s l) {i : ι} (hi : i ∉ l) (hTail : i ≠ tail)
    (hNil : i ≠ nil) : Linked nil tail (s.pushFront nil i) (i :: l) := by
  have hFresh : i ∉ l ++ [tail] := by simp [hi, hTail]
  obtain ⟨hNilMem, hNodup⟩ := List.nodup_cons.mp h.nodup
  obtain ⟨c, hc, hFirst, hChain⟩ := h.head_cons
  have hHead : s.head ≠ i := fun hEq => hFresh (hEq ▸ h.head_mem)
  constructor
  · have hNilMem' : nil ∉ i :: (l ++ [tail]) := by simpa [hNil.symm] using hNilMem
    exact List.nodup_cons.mpr ⟨hNilMem', List.nodup_cons.mpr ⟨hFresh, hNodup⟩⟩
  · rw [List.cons_append, hc, List.isChain_cons_cons, List.isChain_cons_cons]
    refine ⟨?_, ?_, hChain.imp_of_mem_imp fun x y hx hy hxy => ?_⟩
    · simp [Links.Joined, Links.after, Links.pushFront, Function.update_of_ne hHead.symm]
    · simp [Links.Joined, Links.after, Links.pushFront, hNil]
    · rw [← hc] at hx hy
      have hxNil : x ≠ nil := fun hEq => hNilMem (hEq ▸ hx)
      have hxi : x ≠ i := fun hEq => hFresh (hEq ▸ hx)
      have hyi : y ≠ i := fun hEq => hFresh (hEq ▸ hy)
      have hyHead : y ≠ s.head := by
        rintro rfl
        exact hxNil (hxy.2.symm.trans hFirst)
      simpa [Links.Joined, Links.after, Links.pushFront, hxNil, hxi, hyi, hyHead] using hxy
  · simp [Links.pushFront, Function.update_of_ne hTail.symm, h.last]
  · intro x hx
    have hOld : x ∉ l ++ [tail] := fun hMem => hx (List.mem_cons_of_mem i hMem)
    have hxi : x ≠ i := fun hEq => hx (by simp [hEq])
    have hxHead : x ≠ s.head := fun hEq => hOld (hEq ▸ h.head_mem)
    simpa [Links.pushFront, hxi, hxHead] using h.dead x hOld

-- ---------------------------------------------------------------------------
-- Following the links
-- ---------------------------------------------------------------------------

theorem Linked.joined_getElem (h : Linked nil tail s l) (k : ℕ)
    (hk : k + 1 < (l ++ [tail]).length) :
    s.next (l ++ [tail])[k] = (l ++ [tail])[k + 1] ∧
      s.prev (l ++ [tail])[k + 1] = (l ++ [tail])[k] := by
  obtain ⟨hNext, hPrev⟩ := h.chain.getElem (k + 1) (by simpa using hk)
  simp only [List.getElem_cons_succ] at hNext hPrev
  have hNil : (l ++ [tail])[k] ≠ nil := fun hEq =>
    (List.nodup_cons.mp h.nodup).1 (hEq ▸ List.getElem_mem _)
  exact ⟨by simpa [Links.after, hNil] using hNext, hPrev⟩

/-- From the head, the links lead through the list and end at the tail. -/
theorem Linked.iterate_next (h : Linked nil tail s l) (k : ℕ) (hk : k < (l ++ [tail]).length) :
    s.next^[k] s.head = (l ++ [tail])[k] := by
  induction k with
  | zero =>
    obtain ⟨c, hc, -⟩ := h.head_cons
    simp [hc]
  | succ k ih => rw [Function.iterate_succ_apply', ih (by omega), (h.joined_getElem k hk).1]

/-- The links back are the links on, reversed. -/
theorem Linked.next_eq_iff (h : Linked nil tail s l) {a b : ι} (ha : a ∈ l ++ [tail])
    (hb : b ∈ l ++ [tail]) : s.next a = b ↔ s.prev b = a := by
  have hNil : ∀ x ∈ l ++ [tail], x ≠ nil := fun x hx hEq =>
    (List.nodup_cons.mp h.nodup).1 (hEq ▸ hx)
  constructor
  · rintro rfl
    obtain ⟨k, hk, rfl⟩ := List.mem_iff_getElem.mp ha
    rcases Nat.lt_or_ge (k + 1) (l ++ [tail]).length with hMore | hEnd
    · rw [(h.joined_getElem k hMore).1, (h.joined_getElem k hMore).2]
    · -- nothing follows the tail
      obtain rfl : k = l.length := by simp at hk hEnd; omega
      exact absurd (by simpa using h.last) (hNil _ hb)
  · rintro rfl
    obtain ⟨k, hk, rfl⟩ := List.mem_iff_getElem.mp hb
    cases k with
    | zero =>
      -- nothing comes before the head
      obtain ⟨c, hc, hFirst, -⟩ := h.head_cons
      exact absurd (by simpa [hc] using hFirst) (hNil _ ha)
    | succ k => rw [(h.joined_getElem k hk).2, (h.joined_getElem k hk).1]

/-- The last cell of the list is the one before the tail. -/
theorem Linked.prev_tail (h : Linked nil tail s l) : s.prev tail = l.getLast?.getD nil := by
  rcases List.eq_nil_or_concat' l with rfl | ⟨a, i, rfl⟩
  · obtain ⟨c, hc, hFirst, -⟩ := h.head_cons
    obtain ⟨rfl, -⟩ := List.cons.inj hc
    simpa using hFirst
  · have hPrev := (h.joined_getElem a.length (by simp)).2
    simpa using hPrev

end Operations

end LinkedList
