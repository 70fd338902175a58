import Mathlib.Order.Basic
import Mathlib.Data.Nat.Init
import Mathlib.Tactic.ByContra

/-!
# Runs with fair scheduling

A run is the sequence of states that a system goes through.  Its steps are those of several parties,
each a relation; a party is scheduled fairly when it does not wait for ever with a step that it
could take.

`WeaklyFair.eventually` is the rule by which something is shown to happen: a rank that goes down
with every step of one party, and that nobody raises.
-/

namespace Vaiexia.Lib

variable {σ : Type*}

/-- A party that could take a step from some moment on takes one. -/
def WeaklyFair (step : σ → σ → Prop) (run : Nat → σ) : Prop :=
  ∀ n, (∀ m, n ≤ m → ∃ t, step (run m) t) → ∃ m, n ≤ m ∧ step (run m) (run (m + 1))

/-- **A goal is reached** when a party that is scheduled fairly can take a step as long as it is
not, every such step reaches it or lowers the rank, and no step of the others raises the rank. -/
theorem WeaklyFair.eventually {step : σ → σ → Prop} {run : Nat → σ} {inv goal : σ → Prop}
    {rank : σ → Nat} (hfair : WeaklyFair step run)
    (hkeep : ∀ m, inv (run m) → ¬ goal (run m) →
      inv (run (m + 1)) ∧ (goal (run (m + 1)) ∨ rank (run (m + 1)) ≤ rank (run m)))
    (henabled : ∀ s, inv s → ¬ goal s → ∃ t, step s t)
    (hlower : ∀ s t, inv s → ¬ goal s → step s t → goal t ∨ rank t < rank s)
    {n : Nat} (hinv : inv (run n)) : ∃ m, n ≤ m ∧ goal (run m) := by
  -- by induction on the rank: the next step of the party reaches the goal or lowers it
  induction hrank : rank (run n) using Nat.strongRecOn generalizing n with
  | ind r ih =>
      by_contra hnone
      have hnever : ∀ m, n ≤ m → ¬ goal (run m) := fun m hm hgoal ↦ hnone ⟨m, hm, hgoal⟩
      have hall : ∀ m, n ≤ m → inv (run m) ∧ rank (run m) ≤ r := by
        intro m hm
        induction m, hm using Nat.le_induction with
        | base => exact ⟨hinv, Nat.le_of_eq hrank⟩
        | succ m hm hprev =>
            obtain ⟨hnext, hgoal | hle⟩ := hkeep m hprev.1 (hnever m hm)
            · exact absurd hgoal (hnever (m + 1) (Nat.le_succ_of_le hm))
            · exact ⟨hnext, Nat.le_trans hle hprev.2⟩
      obtain ⟨m, hm, hstep⟩ := hfair n fun m hm ↦ henabled _ (hall m hm).1 (hnever m hm)
      obtain ⟨hinvm, hrankm⟩ := hall m hm
      have hnext := hall (m + 1) (Nat.le_succ_of_le hm)
      rcases hlower _ _ hinvm (hnever m hm) hstep with hgoal | hlt
      · exact hnever (m + 1) (Nat.le_succ_of_le hm) hgoal
      · obtain ⟨k, hk, hgoal⟩ := ih _ (Nat.lt_of_lt_of_le hlt hrankm) hnext.1 rfl
        exact hnever k (Nat.le_trans (Nat.le_succ_of_le hm) hk) hgoal

/-- A step before a run. -/
def consRun (s : σ) (run : Nat → σ) : Nat → σ
  | 0 => s
  | n + 1 => run n

/-- A party that is scheduled fairly in the rest of a run is scheduled fairly in the run. -/
theorem WeaklyFair.cons {step : σ → σ → Prop} {run : Nat → σ} (s : σ)
    (hfair : WeaklyFair step run) :
    WeaklyFair step (consRun s run) := by
  intro n henabled
  obtain ⟨m, hm, hstep⟩ := hfair n fun m hm ↦ henabled (m + 1) (Nat.le_succ_of_le hm)
  exact ⟨m + 1, Nat.le_succ_of_le hm, hstep⟩

end Vaiexia.Lib
