import Mathlib.Data.List.Count
import Mathlib.Data.List.Nodup

/-!
# Guarded secrets

A secret that others may guess, under the usual two guards: it is replaced after a number of wrong
guesses, and a right guess counts only while the secret is young.  A `Run` is any sequence of
guesses and replacements, with the `Event`s that an observer of the comparisons would see.

`Run.inv` is what holds of every run in which no secret is issued twice: no secret sees more wrong
guesses than the limit, and a right guess finds the secret alive.
-/

namespace Vaiexia.Lib.GuardedSecret

variable {γ κ τ : Type}

/-- When a guess is right, how long a secret lives, and how many wrong guesses it survives. -/
structure Policy (γ κ τ : Type) where
  isRight : γ → κ → Bool
  Alive : τ → τ → Prop
  limit : Nat
  limit_pos : 0 < limit

/-- The secret, the time since when it counts, and the wrong guesses so far. -/
structure Guard (κ τ : Type) where
  secret : κ
  since : τ
  misses : Nat

/-- What happens to secrets. -/
inductive Event (γ κ τ : Type) where
  | issued (secret : κ) (t : τ)
  | compared (guess : γ) (secret : κ) (right : Bool) (t : τ)

namespace Event

/-- The secret that was issued. -/
def secret? : Event γ κ τ → Option κ
  | issued k _ => some k
  | compared .. => none

/-- Whether it is a wrong guess at a secret. -/
def isMiss [DecidableEq κ] (k : κ) : Event γ κ τ → Bool
  | compared _ k' right _ => k' = k && !right
  | issued .. => false

end Event

/-- The secrets that were issued. -/
def secrets (es : List (Event γ κ τ)) : List κ := es.filterMap Event.secret?

/-- The number of wrong guesses at a secret. -/
def misses [DecidableEq κ] (k : κ) (es : List (Event γ κ τ)) : Nat := es.countP (Event.isMiss k)

/-- One guess, or one replacement. -/
inductive Step (P : Policy γ κ τ) : Guard κ τ → List (Event γ κ τ) → Guard κ τ → Prop
  | renew {g : Guard κ τ} (k : κ) (t : τ) : Step P g [.issued k t] ⟨k, t, 0⟩
  | hit {g : Guard κ τ} {guess : γ} {t : τ} (hright : P.isRight guess g.secret = true)
      (halive : P.Alive g.since t) : Step P g [.compared guess g.secret true t] g
  | miss {g : Guard κ τ} {guess : γ} {t : τ} (hwrong : P.isRight guess g.secret = false)
      (hlt : g.misses + 1 < P.limit) :
      Step P g [.compared guess g.secret false t] { g with misses := g.misses + 1 }
  | exhaust {g : Guard κ τ} {guess : γ} {t : τ} (hwrong : P.isRight guess g.secret = false)
      (hle : P.limit ≤ g.misses + 1) (k : κ) (t' : τ) :
      Step P g [.compared guess g.secret false t, .issued k t'] ⟨k, t', 0⟩

/-- A run, from the issue of the first secret on. -/
inductive Run (P : Policy γ κ τ) : List (Event γ κ τ) → Guard κ τ → Prop
  | start (k : κ) (t : τ) : Run P [.issued k t] ⟨k, t, 0⟩
  | tail {es es' : List (Event γ κ τ)} {g g' : Guard κ τ} (h : Run P es g)
      (hstep : Step P g es' g') : Run P (es ++ es') g'

/-! ## Counting -/

section Counting

variable {es es' : List (Event γ κ τ)} {k : κ}

@[simp] theorem secrets_append : secrets (es ++ es') = secrets es ++ secrets es' :=
  List.filterMap_append

theorem mem_secrets : k ∈ secrets es ↔ ∃ t, .issued k t ∈ es := by
  rw [secrets, List.mem_filterMap]
  constructor
  · rintro ⟨e, he, hk⟩
    cases e with
    | issued k' t =>
        obtain rfl := Option.some.inj hk
        exact ⟨t, he⟩
    | compared => cases hk
  · rintro ⟨t, ht⟩
    exact ⟨_, ht, rfl⟩

/-- A secret that is issued once is issued at one time. -/
theorem issued_unique (hfresh : (secrets es).Nodup) {t t' : τ} (ht : .issued k t ∈ es)
    (ht' : .issued k t' ∈ es) : t = t' := by
  induction es with
  | nil => cases ht
  | cons e es ih =>
      cases e with
      | issued k' s =>
          obtain ⟨hnot, hrest⟩ : k' ∉ secrets es ∧ (secrets es).Nodup := List.nodup_cons.mp hfresh
          rcases List.mem_cons.mp ht with heq | hold
          · obtain ⟨rfl, rfl⟩ := Event.issued.inj heq
            rcases List.mem_cons.mp ht' with heq' | hold'
            · exact (Event.issued.inj heq').2.symm
            · have hmem : k ∈ secrets es := mem_secrets.mpr ⟨t', hold'⟩
              exact absurd hmem hnot
          · rcases List.mem_cons.mp ht' with heq' | hold'
            · obtain ⟨rfl, rfl⟩ := Event.issued.inj heq'
              have hmem : k ∈ secrets es := mem_secrets.mpr ⟨t, hold⟩
              exact absurd hmem hnot
            · exact ih hrest hold hold'
      | compared guess k' right s =>
          refine ih hfresh ?_ ?_
          · simpa using ht
          · simpa using ht'

variable [DecidableEq κ]

@[simp] theorem misses_append : misses k (es ++ es') = misses k es + misses k es' :=
  List.countP_append

@[simp] theorem misses_nil : misses k ([] : List (Event γ κ τ)) = 0 := rfl

@[simp] theorem misses_issued (k' : κ) (t : τ) :
    misses k ((.issued k' t : Event γ κ τ) :: es) = misses k es := by
  simp [misses, Event.isMiss]

@[simp] theorem misses_right (guess : γ) (k' : κ) (t : τ) :
    misses k (.compared guess k' true t :: es) = misses k es := by
  simp [misses, Event.isMiss]

@[simp] theorem misses_wrong (guess : γ) (k' : κ) (t : τ) :
    misses k (.compared guess k' false t :: es) = misses k es + if k' = k then 1 else 0 := by
  simp [misses, Event.isMiss, List.countP_cons]

end Counting

/-! ## The invariant -/

section Invariant

variable [DecidableEq κ] {P : Policy γ κ τ} {es es' : List (Event γ κ τ)} {g g' : Guard κ τ}

/-- What holds after a run. -/
structure Inv (P : Policy γ κ τ) (es : List (Event γ κ τ)) (g : Guard κ τ) : Prop where
  below : g.misses < P.limit
  counted : misses g.secret es = g.misses
  bounded : ∀ k, misses k es ≤ P.limit
  issued : .issued g.secret g.since ∈ es
  known : ∀ guess k right t, .compared guess k right t ∈ es → k ∈ secrets es
  right : ∀ guess k t, .compared guess k true t ∈ es →
    P.isRight guess k = true ∧ ∃ since, .issued k since ∈ es ∧ P.Alive since t

/-- Nobody has guessed at a secret that was not issued yet. -/
theorem Inv.misses_of_new (h : Inv P es g) {k : κ} (hnew : k ∉ secrets es) : misses k es = 0 := by
  rw [misses, List.countP_eq_zero]
  intro e he hmiss
  cases e with
  | issued => cases hmiss
  | compared guess k' right t =>
      rw [Event.isMiss, Bool.and_eq_true, decide_eq_true_iff] at hmiss
      exact hnew (hmiss.1 ▸ h.known guess k' right t he)

/-- What was seen before is still there. -/
theorem Inv.issued_append (h : Inv P es g) (es' : List (Event γ κ τ)) :
    .issued g.secret g.since ∈ es ++ es' := List.mem_append_left _ h.issued

/-- **A step keeps the invariant**, if it issues no secret again. -/
theorem Step.inv (hstep : Step P g es' g') (h : Inv P es g)
    (hfresh : (secrets (es ++ es')).Nodup) : Inv P (es ++ es') g' := by
  rw [secrets_append] at hfresh
  have hbelow := h.below
  have hnew : ∀ k ∈ secrets es', k ∉ secrets es := fun k hk hmem ↦
    (List.nodup_append.mp hfresh).2.2 k hmem k hk rfl
  have hissued : ∀ k since, .issued k since ∈ es → .issued k since ∈ es ++ es' :=
    fun k since hmem ↦ List.mem_append_left _ hmem
  cases hstep with
  | renew k t =>
      have hzero := h.misses_of_new (hnew k (by simp [secrets, Event.secret?]))
      refine ⟨P.limit_pos, ?_, ?_, ?_, ?_, ?_⟩
      · simpa using hzero
      · simpa using h.bounded
      · simp
      · intro guess k' right t' hmem
        have hk := h.known guess k' right t' (by simpa using hmem)
        simp [hk]
      · intro guess k' t' hmem
        obtain ⟨hright, since, hsince, halive⟩ := h.right guess k' t' (by simpa using hmem)
        exact ⟨hright, since, hissued _ _ hsince, halive⟩
  | @hit guess t hright halive =>
      refine ⟨hbelow, ?_, ?_, h.issued_append _, ?_, ?_⟩
      · simpa using h.counted
      · simpa using h.bounded
      · intro guess' k' right t' hmem
        rcases List.mem_append.mp hmem with hmem | hmem
        · simp [h.known guess' k' right t' hmem]
        · obtain ⟨-, rfl, -, -⟩ := Event.compared.inj (List.mem_singleton.mp hmem)
          simp [mem_secrets.mpr ⟨_, h.issued⟩]
      · intro guess' k' t' hmem
        rcases List.mem_append.mp hmem with hmem | hmem
        · obtain ⟨hright', since, hsince, halive'⟩ := h.right guess' k' t' hmem
          exact ⟨hright', since, hissued _ _ hsince, halive'⟩
        · obtain ⟨rfl, rfl, -, rfl⟩ := Event.compared.inj (List.mem_singleton.mp hmem)
          exact ⟨hright, _, h.issued_append _, halive⟩
  | @miss guess t hwrong hlt =>
      have hcounted := h.counted
      refine ⟨hlt, ?_, ?_, h.issued_append _, ?_, ?_⟩
      · simp [hcounted]
      · intro k
        have hk := h.bounded k
        rcases eq_or_ne g.secret k with rfl | hne
        · simp [hcounted]
          omega
        · simpa [hne] using hk
      · intro guess' k' right t' hmem
        rcases List.mem_append.mp hmem with hmem | hmem
        · simp [h.known guess' k' right t' hmem]
        · obtain ⟨-, rfl, -, -⟩ := Event.compared.inj (List.mem_singleton.mp hmem)
          simp [mem_secrets.mpr ⟨_, h.issued⟩]
      · intro guess' k' t' hmem
        obtain ⟨hright, since, hsince, halive⟩ := h.right guess' k' t' (by simpa using hmem)
        exact ⟨hright, since, hissued _ _ hsince, halive⟩
  | @exhaust guess t hwrong hle k t₁ =>
      have hcounted := h.counted
      have hknew := hnew k (by simp [secrets, Event.secret?])
      have hne : g.secret ≠ k := by
        rintro rfl
        exact hknew (mem_secrets.mpr ⟨_, h.issued⟩)
      refine ⟨P.limit_pos, ?_, ?_, ?_, ?_, ?_⟩
      · simpa [hne] using h.misses_of_new hknew
      · intro k'
        have hk' := h.bounded k'
        rcases eq_or_ne g.secret k' with rfl | hne'
        · simp [hcounted]
          omega
        · simpa [hne'] using hk'
      · simp
      · intro guess' k' right t' hmem
        rcases List.mem_append.mp hmem with hmem | hmem
        · simp [h.known guess' k' right t' hmem]
        · obtain ⟨-, rfl, -, -⟩ : guess' = guess ∧ k' = g.secret ∧ right = false ∧ t' = t := by
            simpa using hmem
          simp [mem_secrets.mpr ⟨_, h.issued⟩]
      · intro guess' k' t' hmem
        obtain ⟨hright, since, hsince, halive⟩ := h.right guess' k' t' (by simpa using hmem)
        exact ⟨hright, since, hissued _ _ hsince, halive⟩

/-- **A run keeps the invariant.** -/
theorem Run.inv (hrun : Run P es g) (hfresh : (secrets es).Nodup) : Inv P es g := by
  induction hrun with
  | start k t => exact ⟨P.limit_pos, by simp, by simp, by simp, by simp, by simp⟩
  | tail _ hstep ih =>
      refine hstep.inv (ih ?_) hfresh
      rw [secrets_append] at hfresh
      exact (List.nodup_append.mp hfresh).1

end Invariant

end Vaiexia.Lib.GuardedSecret
