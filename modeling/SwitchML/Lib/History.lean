import Mathlib.Data.List.Basic

/-!
# Append-only logs and runs

A property of the entries of a log that depends on what was logged before them holds
once and for all: `Along P l` says that every entry of `l` had `P` when it was written.
An invariant carries it with `Along.snoc`, and `Along.before` reads it off.

For a machine that steps through a list of inputs, `Throughout` asks something of each
input in the state it is met in. `holds_after_each_iff`: a property that holds after each
step exactly as long as no input breaks it.
-/

namespace History

variable {α : Type*}

/-- Every entry had `P`, which speaks of the entries before it, when it was added. -/
inductive Along (P : List α → α → Prop) : List α → Prop where
  | nil : Along P []
  | snoc {l : List α} {e : α} (h : Along P l) (he : P l e) : Along P (l ++ [e])

variable {P : List α → α → Prop} {l : List α}

theorem Along.before (h : Along P l) {pre post : List α} {e : α} (hl : l = pre ++ e :: post) :
    P pre e := by
  induction h generalizing post with
  | nil => simp at hl
  | @snoc l x h hx ih =>
    by_cases hPost : post = []
    · subst hPost
      obtain ⟨rfl, hEq⟩ := List.append_inj' hl rfl
      exact (List.cons.inj hEq).1 ▸ hx
    · have hInit := congrArg List.dropLast hl
      rw [List.dropLast_concat, List.dropLast_append_of_ne_nil (by simp),
        List.dropLast_cons_of_ne_nil hPost] at hInit
      exact ih hInit

-- ---------------------------------------------------------------------------
-- Runs
-- ---------------------------------------------------------------------------

section Runs

variable {σ : Type*} (step : σ → α → σ)

/-- Every input of the run is all right in the state it finds. -/
def Throughout (ok : σ → α → Prop) : σ → List α → Prop
  | _, [] => True
  | s, a :: inputs => ok s a ∧ Throughout ok (step s a) inputs

variable {step} {Inv Holds : σ → Prop} {ok : σ → α → Prop}

theorem throughout_append (s : σ) (inputs later : List α) :
    Throughout step ok s (inputs ++ later) ↔
      Throughout step ok s inputs ∧ Throughout step ok (inputs.foldl step s) later := by
  induction inputs generalizing s with
  | nil => exact (and_iff_right trivial).symm
  | cons a inputs ih =>
    rw [List.cons_append, Throughout, ih, Throughout, and_assoc]
    rfl

theorem holds_after_each_iff (hHolds : ∀ s, Inv s → Holds s)
    (hKeeps : ∀ s a, Inv s → ok s a → Inv (step s a))
    (hBreaks : ∀ s a, Inv s → ¬ ok s a → ¬ Holds (step s a)) {s : σ} (h : Inv s)
    (inputs : List α) :
    (∀ init, init <+: inputs → Holds (init.foldl step s)) ↔ Throughout step ok s inputs := by
  induction inputs generalizing s with
  | nil => simpa [Throughout] using hHolds s h
  | cons a inputs ih =>
    rw [Throughout]
    constructor
    · intro hAll
      have hOk : ok s a := by
        by_contra hBad
        exact hBreaks s a h hBad (hAll [a] (by simp))
      refine ⟨hOk, (ih (hKeeps s a h hOk)).mp fun init hInit => ?_⟩
      exact hAll (a :: init) (List.cons_prefix_cons.mpr ⟨rfl, hInit⟩)
    · rintro ⟨hOk, hRest⟩ init hInit
      cases init with
      | nil => exact hHolds s h
      | cons a' init =>
        obtain ⟨rfl, hTail⟩ := List.cons_prefix_cons.mp hInit
        exact (ih (hKeeps s a' h hOk)).mpr hRest init hTail

end Runs

end History
