import Mathlib.Data.List.Basic
import Mathlib.Data.List.TakeDrop

/-!
# Lines of a text that was cut

A text is made of lines with a separator between two of them.  Of what is left of it when it is cut,
a reader that reads no line from the beginning of another reads the lines that are whole
(`filterMap_splitOnP_take`), so that nothing has to take the last piece away.
-/

namespace Vaiexia.Lib

variable {α β : Type*} {sep : α} {read : List α → Option β}
  {lines : List (List α)}

/-- The lines that end within the first `cap` elements. -/
def wholeLines : Nat → List (List α) → List (List α)
  | _, [] => []
  | cap, line :: lines =>
      if line.length ≤ cap then line :: wholeLines (cap - (line.length + 1)) lines else []

/-- The lines are without the separator, and nothing is read from what is left of one that was
cut. -/
structure Uncuttable (sep : α) (read : List α → Option β) (lines : List (List α)) : Prop where
  notMem : ∀ line ∈ lines, sep ∉ line
  cut : ∀ line ∈ lines, ∀ k < line.length, read (line.take k) = none
  empty : read [] = none

theorem Uncuttable.tail {line : List α} (h : Uncuttable sep read (line :: lines)) :
    Uncuttable sep read lines where
  notMem l hl := h.notMem l (List.mem_cons_of_mem line hl)
  cut l hl := h.cut l (List.mem_cons_of_mem line hl)
  empty := h.empty

/-- The lines with an empty one after them. -/
theorem Uncuttable.concat_nil (h : Uncuttable sep read lines) :
    Uncuttable sep read (lines ++ [[]]) where
  notMem l hl := by
    rcases List.mem_append.mp hl with hl | hl
    · exact h.notMem l hl
    · rw [List.mem_singleton.mp hl]
      exact List.not_mem_nil
  cut l hl k hk := by
    rcases List.mem_append.mp hl with hl | hl
    · exact h.cut l hl k hk
    · rw [List.mem_singleton.mp hl] at hk
      cases hk
  empty := h.empty

/-- A separator after every line is one between two of them, with an empty line after the last. -/
theorem intercalate_concat_nil (lines : List (List α)) :
    [sep].intercalate (lines ++ [[]]) = lines.flatMap (· ++ [sep]) := by
  induction lines with
  | nil => rfl
  | cons line lines ih =>
      rw [List.cons_append, List.intercalate_cons_of_ne_nil (by simp), ih, List.flatMap_cons]

/-- All lines are whole when the cut is behind them. -/
theorem wholeLines_eq_self (sep : α) {cap : Nat}
    (hcap : (lines.flatMap (· ++ [sep])).length ≤ cap) : wholeLines cap lines = lines := by
  induction lines generalizing cap with
  | nil => rfl
  | cons line lines ih =>
      rw [List.flatMap_cons, List.length_append, List.length_append, List.length_singleton] at hcap
      rw [wholeLines, if_pos (by omega), ih (by omega)]

/-- Nothing is whole in nothing but empty lines. -/
theorem filterMap_wholeLines_zero (h : read [] = none) (lines : List (List α)) :
    (wholeLines 0 lines).filterMap read = [] := by
  induction lines with
  | nil => rfl
  | cons line lines ih =>
      rw [wholeLines]
      split
      · rename_i hle
        rw [List.length_eq_zero_iff.mp (Nat.le_zero.mp hle), List.filterMap_cons_none h]
        exact ih
      · rfl

/-- An empty line after the others does not matter. -/
theorem filterMap_wholeLines_concat_nil (h : read [] = none) (cap : Nat) :
    (wholeLines cap (lines ++ [[]])).filterMap read = (wholeLines cap lines).filterMap read := by
  induction lines generalizing cap with
  | nil =>
      exact List.filterMap_cons_none h
  | cons line lines ih =>
      rw [List.cons_append, wholeLines, wholeLines]
      split
      · rw [List.filterMap_cons, List.filterMap_cons, ih]
      · rfl

/-- **What is read of a text that was cut** is what is read of the lines that are whole. -/
theorem filterMap_splitOnP_take [DecidableEq α] (h : Uncuttable sep read lines) (cap : Nat) :
    ((([sep].intercalate lines).take cap).splitOnP (· == sep)).filterMap read =
      (wholeLines cap lines).filterMap read := by
  induction lines generalizing cap with
  | nil =>
      rw [List.intercalate_nil, List.take_nil]
      exact List.filterMap_cons_none h.empty
  | cons line lines ih =>
      have hnotMem : sep ∉ line := h.notMem line List.mem_cons_self
      have hpiece : ∀ k, ∀ a ∈ line.take k, (a == sep) = false := fun k a ha ↦
        beq_eq_false_iff_ne.mpr fun hsep ↦ hnotMem (hsep ▸ List.mem_of_mem_take ha)
      have hline : ∀ a ∈ line, (a == sep) = false := by
        have hall := hpiece line.length
        rwa [List.take_length] at hall
      rw [wholeLines]
      by_cases hcap : line.length ≤ cap
      · rw [if_pos hcap]
        by_cases hlast : lines = []
        · subst hlast
          rw [List.intercalate_singleton, List.take_of_length_le hcap,
            List.splitOnP_eq_singleton hline]
          rfl
        · rw [List.intercalate_cons_of_ne_nil hlast, List.append_assoc, List.singleton_append]
          rcases Nat.lt_or_eq_of_le hcap with hlt | rfl
          · -- the separator after the line is there
            obtain ⟨more, rfl⟩ : ∃ more, cap = line.length + (more + 1) :=
              ⟨cap - line.length - 1, by omega⟩
            have hmore : line.length + (more + 1) - (line.length + 1) = more := by omega
            rw [List.take_length_add_append, List.take_succ_cons,
              List.splitOnP_append_cons_of_forall_mem hline sep (beq_self_eq_true sep),
              List.filterMap_cons, List.filterMap_cons, ih h.tail, hmore]
          · -- the cut is at the end of the line
            have hnothing := filterMap_wholeLines_zero h.empty lines
            rw [List.take_left, List.splitOnP_eq_singleton hline, List.filterMap_cons,
              List.filterMap_cons, Nat.sub_eq_zero_of_le (Nat.le_succ _), hnothing]
            rfl
      · -- the cut is in the line
        have hlt : cap < line.length := Nat.lt_of_not_le hcap
        have htake : ([sep].intercalate (line :: lines)).take cap = line.take cap := by
          by_cases hlast : lines = []
          · rw [hlast, List.intercalate_singleton]
          · rw [List.intercalate_cons_of_ne_nil hlast, List.append_assoc,
              List.take_append_of_le_length (Nat.le_of_lt hlt)]
        rw [if_neg hcap, htake, List.splitOnP_eq_singleton (hpiece cap)]
        exact List.filterMap_cons_none (h.cut line List.mem_cons_self cap hlt)

/-- How long lines with separators between them are. -/
theorem length_intercalate_cons (sep : α) (line : List α) (hne : lines ≠ []) :
    ([sep].intercalate (line :: lines)).length =
      line.length + 1 + ([sep].intercalate lines).length := by
  rw [List.intercalate_cons_of_ne_nil hne, List.length_append, List.length_append]
  rfl

/-- Lines that are not empty make up a text that is not. -/
theorem length_intercalate_pos (sep : α) (hlines : ∀ line ∈ lines, line ≠ []) (hne : lines ≠ []) :
    0 < ([sep].intercalate lines).length := by
  cases lines with
  | nil => exact absurd rfl hne
  | cons line lines =>
      have hpos := List.length_pos_iff.mpr (hlines line List.mem_cons_self)
      by_cases hlast : lines = []
      · rw [hlast, List.intercalate_singleton]
        exact hpos
      · rw [length_intercalate_cons sep line hlast]
        omega

/-- **Which lines are whole**: those with which the text is within the cap. -/
theorem exists_wholeLines_eq_take (sep : α) (hlines : ∀ line ∈ lines, line ≠ []) (cap : Nat) :
    ∃ n ≤ lines.length, wholeLines cap lines = lines.take n ∧
      ∀ m ≤ lines.length, ([sep].intercalate (lines.take m)).length ≤ cap ↔ m ≤ n := by
  induction lines generalizing cap with
  | nil =>
      refine ⟨0, Nat.le_refl 0, rfl, fun m hm ↦ ?_⟩
      rw [List.take_nil]
      exact iff_of_true (Nat.zero_le cap) hm
  | cons line lines ih =>
      have htail : ∀ l ∈ lines, l ≠ [] := fun l hl ↦ hlines l (List.mem_cons_of_mem line hl)
      rw [wholeLines]
      by_cases hcap : line.length ≤ cap
      · obtain ⟨n, hn, hwhole, hfits⟩ := ih htail (cap - (line.length + 1))
        refine ⟨n + 1, Nat.succ_le_succ hn, by rw [if_pos hcap, hwhole, List.take_succ_cons], ?_⟩
        intro m hm
        cases m with
        | zero => exact iff_of_true (Nat.zero_le cap) (Nat.zero_le _)
        | succ m =>
            rw [List.take_succ_cons, Nat.succ_le_succ_iff]
            have hm' : m ≤ lines.length := Nat.le_of_succ_le_succ hm
            by_cases hlast : lines.take m = []
            · rw [hlast, List.intercalate_singleton, ← hfits m hm', hlast]
              exact iff_of_true hcap (Nat.zero_le _)
            · have hpos := length_intercalate_pos sep
                (fun l hl ↦ htail l (List.mem_of_mem_take hl)) hlast
              rw [length_intercalate_cons sep line hlast, ← hfits m hm']
              omega
      · refine ⟨0, Nat.zero_le _, by rw [if_neg hcap, List.take_zero], fun m hm ↦ ?_⟩
        cases m with
        | zero => exact iff_of_true (Nat.zero_le cap) (Nat.le_refl 0)
        | succ m =>
            refine iff_of_false (fun hle ↦ hcap ?_) (Nat.not_succ_le_zero m)
            rw [List.take_succ_cons] at hle
            by_cases hlast : lines.take m = []
            · rwa [hlast, List.intercalate_singleton] at hle
            · rw [length_intercalate_cons sep line hlast] at hle
              omega

end Vaiexia.Lib
