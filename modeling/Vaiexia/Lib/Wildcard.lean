import Mathlib.Data.List.Basic

/-!
# Patterns

A pattern is a list of symbols, and a relation says for which words a symbol stands, given the
text that comes after the word.  A text matches when it is a word for every symbol, put together.
-/

namespace Vaiexia.Lib

/-- `text` is made of words for the symbols of `pattern`: `stands c u v` says that `c` may stand for
`u` where `v` is the rest of the text. -/
inductive Expands {σ α : Type*} (stands : σ → List α → List α → Prop) :
    List σ → List α → Prop
  | nil : Expands stands [] []
  | cons {c : σ} {p : List σ} {u v : List α} :
      stands c u v → Expands stands p v → Expands stands (c :: p) (u ++ v)

namespace Expands

variable {σ α : Type*} {stands stands' : σ → List α → List α → Prop}

@[simp] theorem nil_iff {t : List α} : Expands stands [] t ↔ t = [] := by
  constructor
  · intro h
    cases h
    rfl
  · rintro rfl
    exact .nil

theorem cons_iff {c : σ} {p : List σ} {t : List α} :
    Expands stands (c :: p) t ↔ ∃ u v, t = u ++ v ∧ stands c u v ∧ Expands stands p v := by
  constructor
  · intro h
    cases h with
    | cons hc hp => exact ⟨_, _, rfl, hc, hp⟩
  · rintro ⟨u, v, rfl, hc, hp⟩
    exact .cons hc hp

/-- Symbols that may stand for more are matched by more. -/
theorem mono (hle : ∀ c u v, stands c u v → stands' c u v) {p : List σ} {t : List α}
    (h : Expands stands p t) : Expands stands' p t := by
  induction h with
  | nil => exact .nil
  | cons hc _ ih => exact .cons (hle _ _ _ hc) ih

end Expands

end Vaiexia.Lib
