import Mathlib.Data.Nat.Basic

/-!
# Loops

A loop is the repetition of a body that goes on with another state, stops with an answer, or
panics.  `Loop.run` repeats it at most so many times; a measure that every round makes smaller
says how many rounds are enough.
-/

namespace Vaiexia.Lib

/-- What one round of a loop comes to. -/
inductive Next (σ α : Type*) where
  | go (s : σ)
  | stop (a : α)
deriving DecidableEq, Repr

namespace Loop

variable {σ α : Type*} {body : σ → Option (Next σ α)}

/-- So many rounds; `none` when one of them panics, and the state reached when they were not
enough. -/
def run (body : σ → Option (Next σ α)) : Nat → σ → Option (Next σ α)
  | 0, s => some (.go s)
  | n + 1, s =>
      match body s with
      | none => none
      | some (.stop a) => some (.stop a)
      | some (.go s') => run body n s'

theorem run_succ_of_go {n : Nat} {s s' : σ} (h : body s = some (.go s')) :
    run body (n + 1) s = run body n s' := by
  rw [run, h]

theorem run_succ_of_stop {n : Nat} {s : σ} {a : α} (h : body s = some (.stop a)) :
    run body (n + 1) s = some (.stop a) := by
  rw [run, h]

/-- A loop that has ended is left alone by further rounds. -/
theorem run_of_le {n k : Nat} {s : σ} (hend : ∀ s', run body n s ≠ some (.go s')) (hle : n ≤ k) :
    run body k s = run body n s := by
  induction n generalizing k s with
  | zero => exact absurd rfl (hend s)
  | succ n ih =>
      obtain ⟨k, rfl⟩ : ∃ j, k = j + 1 := ⟨k - 1, by omega⟩
      rw [run] at hend
      rw [run, run]
      cases hbody : body s with
      | none => rfl
      | some next =>
          cases next with
          | stop a => rfl
          | go s' =>
              rw [hbody] at hend
              exact ih hend (Nat.le_of_succ_le_succ hle)

/-- A loop that stops does not panic in any round. -/
theorem run_ne_none {n : Nat} {s : σ} {a : α} (hrun : run body n s = some (.stop a)) (k : Nat) :
    run body k s ≠ none := by
  intro hnone
  rcases Nat.le_total n k with hle | hle
  · rw [run_of_le (by simp [hrun]) hle, hrun] at hnone
    cases hnone
  · rw [run_of_le (by simp [hnone]) hle, hnone] at hrun
    cases hrun

/-- **Termination.**  While the invariant holds a round does not panic, and it stops or makes the
measure smaller: then the loop stops, within one round more than the measure says. -/
theorem run_stops {inv : σ → Prop} {measure : σ → Nat}
    (hround : ∀ s, inv s → (∃ a, body s = some (.stop a)) ∨
      ∃ s', body s = some (.go s') ∧ inv s' ∧ measure s' < measure s)
    {s : σ} (hinv : inv s) : ∃ a, run body (measure s + 1) s = some (.stop a) := by
  generalize hn : measure s = n
  induction n using Nat.strong_induction_on generalizing s with
  | _ n ih =>
      rcases hround s hinv with ⟨a, hstop⟩ | ⟨s', hgo, hinv', hlt⟩
      · exact ⟨a, run_succ_of_stop hstop⟩
      · rw [hn] at hlt
        obtain ⟨a, hrun⟩ := ih (measure s') hlt hinv' rfl
        refine ⟨a, ?_⟩
        rw [run_succ_of_go hgo]
        exact (run_of_le (by simp [hrun]) hlt).trans hrun

/-- **Partial correctness.**  What holds of the answer of a round in a state with the invariant
holds of the answer of the loop. -/
theorem run_stop_of_inv (inv : σ → Prop) (post : α → Prop)
    (hgo : ∀ s s', inv s → body s = some (.go s') → inv s')
    (hstop : ∀ s a, inv s → body s = some (.stop a) → post a)
    {n : Nat} {s : σ} (hinv : inv s) {a : α} (hrun : run body n s = some (.stop a)) : post a := by
  induction n generalizing s with
  | zero => cases hrun
  | succ n ih =>
      rw [run] at hrun
      cases hbody : body s with
      | none =>
          rw [hbody] at hrun
          cases hrun
      | some next =>
          rw [hbody] at hrun
          cases next with
          | stop b =>
              obtain rfl : b = a := by simpa using hrun
              exact hstop s b hinv hbody
          | go s' => exact ih (hgo s s' hinv hbody) hrun

/-- The invariant holds of every state in between. -/
theorem run_go_of_inv (inv : σ → Prop)
    (hgo : ∀ s s', inv s → body s = some (.go s') → inv s') {n : Nat} {s s' : σ} (hinv : inv s)
    (hrun : run body n s = some (.go s')) : inv s' := by
  induction n generalizing s with
  | zero =>
      obtain rfl : s = s' := by simpa [run] using hrun
      exact hinv
  | succ n ih =>
      rw [run] at hrun
      cases hbody : body s with
      | none =>
          rw [hbody] at hrun
          cases hrun
      | some next =>
          rw [hbody] at hrun
          cases next with
          | stop a => simp at hrun
          | go s₁ => exact ih (hgo s s₁ hinv hbody) hrun

end Loop

end Vaiexia.Lib
