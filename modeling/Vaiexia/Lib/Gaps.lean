import Mathlib.Data.List.Chain

/-!
# Chains with gaps

Entries that are made one after another, each numbered and linked to the one before, and of which
only some are kept: each comes with whether it is.  What was made is a chain; what is kept is a
chain exactly when nothing is missing between two kept entries (`isChain_kept_iff`).
-/

namespace Vaiexia.Lib.Gaps

variable {α : Type*} {a b c : α} {l l' : List (α × Bool)}

/-- The entries that are kept. -/
def kept (l : List (α × Bool)) : List α := (l.filter Prod.snd).map Prod.fst

/-- An entry is missing between two that are kept. -/
def HasGap (l : List (α × Bool)) : Prop :=
  ∃ a b c, List.Sublist [(a, true), (b, false), (c, true)] l

@[simp] theorem kept_nil : kept ([] : List (α × Bool)) = [] := rfl

@[simp] theorem kept_cons_true : kept ((a, true) :: l) = a :: kept l := rfl

@[simp] theorem kept_cons_false : kept ((a, false) :: l) = kept l := rfl

@[simp] theorem kept_append : kept (l ++ l') = kept l ++ kept l' := by simp [kept]

theorem mem_kept : a ∈ kept l ↔ (a, true) ∈ l := by simp [kept]

/-- Without missing entries everything is kept. -/
theorem kept_of_forall (h : ∀ x ∈ l, x.2 = true) : kept l = l.map Prod.fst := by
  rw [kept, List.filter_eq_self.mpr h]

/-! ## Where a gap can be -/

/-- A missing entry at the start makes no gap. -/
theorem hasGap_cons_false : HasGap ((a, false) :: l) ↔ HasGap l := by
  constructor
  · rintro ⟨x, y, z, h⟩
    cases h with
    | cons _ h => exact ⟨x, y, z, h⟩
  · rintro ⟨x, y, z, h⟩
    exact ⟨x, y, z, h.cons _⟩

/-- Of two kept entries at the start, the second serves every gap of the first. -/
theorem hasGap_cons_cons_true :
    HasGap ((a, true) :: (b, true) :: l) ↔ HasGap ((b, true) :: l) := by
  constructor
  · rintro ⟨x, y, z, h⟩
    cases h with
    | cons _ h => exact ⟨x, y, z, h⟩
    | cons_cons _ h =>
        cases h with
        | cons _ h => exact ⟨b, y, z, h.cons_cons _⟩
  · rintro ⟨x, y, z, h⟩
    exact ⟨x, y, z, h.cons _⟩

/-- A missing entry after a kept one makes a gap when anything is kept later. -/
theorem hasGap_cons_true_cons_false :
    HasGap ((a, true) :: (b, false) :: l) ↔ kept l ≠ [] := by
  constructor
  · rintro ⟨x, y, z, h⟩ hnil
    have hz : (z, true) ∈ l := by
      cases h with
      | cons _ h =>
          cases h with
          | cons _ h => exact h.subset (by simp)
      | cons_cons _ h =>
          cases h with
          | cons _ h => exact h.subset (by simp)
          | cons_cons _ h => exact h.subset (by simp)
    rw [← mem_kept, hnil] at hz
    cases hz
  · intro hne
    obtain ⟨c, hc⟩ := List.exists_mem_of_ne_nil _ hne
    exact ⟨a, b, c, ((List.singleton_sublist.mpr (mem_kept.mp hc)).cons_cons _).cons_cons _⟩

/-! ## Numbered chains -/

section Chain

variable {R : α → α → Prop} {rank : α → Nat}

/-- Along a chain the numbers grow. -/
theorem rank_lt_of_mem (hrank : ∀ a b, R a b → rank b = rank a + 1) {as : List α}
    (hchain : (a :: as).IsChain R) (hb : b ∈ as) : rank a < rank b := by
  induction as generalizing a with
  | nil => cases hb
  | cons x as ih =>
      obtain ⟨hax, hrest⟩ := List.isChain_cons_cons.mp hchain
      have hx := hrank a x hax
      rcases List.mem_cons.mp hb with rfl | hb
      · omega
      · have := ih hrest hb
        omega

/-- **Gaps break the chain.**  What is kept of a numbered chain is a chain exactly when nothing is
missing between two kept entries. -/
theorem isChain_kept_iff (rank : α → Nat) (hrank : ∀ a b, R a b → rank b = rank a + 1)
    (hchain : (l.map Prod.fst).IsChain R) : (kept l).IsChain R ↔ ¬ HasGap l := by
  induction l with
  | nil => simp [HasGap]
  | cons x l ih =>
      rw [List.map_cons] at hchain
      have ih := ih hchain.of_cons
      obtain ⟨a, _ | _⟩ := x
      · rw [kept_cons_false, hasGap_cons_false]
        exact ih
      · cases l with
        | nil => simp [HasGap]
        | cons y l =>
            obtain ⟨b, _ | _⟩ := y
            · rw [kept_cons_true, kept_cons_false, hasGap_cons_true_cons_false, not_not]
              obtain ⟨hab, hrest⟩ := List.isChain_cons_cons.mp hchain
              constructor
              · -- what comes next has a number that is too high
                intro hkept
                by_contra hne
                obtain ⟨c, cs, hcs⟩ := List.exists_cons_of_ne_nil hne
                rw [hcs] at hkept
                have hac := hrank a c (List.isChain_cons_cons.mp hkept).1
                have hc : c ∈ l.map Prod.fst :=
                  List.mem_map_of_mem (mem_kept.mp (hcs ▸ List.mem_cons_self))
                have hbc : rank b < rank c := rank_lt_of_mem hrank hrest hc
                have hab : rank b = rank a + 1 := hrank a b hab
                omega
              · intro hnil
                rw [hnil]
                exact List.isChain_singleton a
            · rw [hasGap_cons_cons_true, ← ih, kept_cons_true, kept_cons_true,
                List.isChain_cons_cons]
              exact ⟨fun h ↦ h.2, fun h ↦ ⟨(List.isChain_cons_cons.mp hchain).1, h⟩⟩

end Chain

end Vaiexia.Lib.Gaps
